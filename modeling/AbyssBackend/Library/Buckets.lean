import AbyssBackend.Library.Rows
import AbyssBackend.Library.Sorting
import Mathlib.Algebra.BigOperators.Group.List.Lemmas
import Mathlib.Data.List.Dedup
import Mathlib.Data.List.Perm.Basic

/-! Rows grouped by a key, the groups in the order of their keys. -/

namespace Buckets

open Sorting

variable {α κ : Type} [LinearOrder κ] {key : α → κ} {rows rows' : List α}

def buckets (key : α → κ) (rows : List α) : List (κ × List α) :=
  (sortBy id (rows.map key).dedup).map fun k => (k, rows.filter fun row => key row = k)

theorem mem_buckets {bucket : κ × List α} : bucket ∈ buckets key rows ↔
    bucket.1 ∈ rows.map key ∧ bucket.2 = rows.filter fun row => key row = bucket.1 := by
  obtain ⟨k, members⟩ := bucket
  simp only [buckets, List.mem_map, mem_sortBy, List.mem_dedup, Prod.mk.injEq]
  constructor
  · rintro ⟨k, hk, rfl, rfl⟩
    exact ⟨hk, rfl⟩
  · rintro ⟨hk, hmembers⟩
    exact ⟨k, hk, rfl, hmembers.symm⟩

theorem bucket_of_mem {row : α} (h : row ∈ rows) :
    (key row, rows.filter fun other => key other = key row) ∈ buckets key rows :=
  mem_buckets.mpr ⟨List.mem_map_of_mem h, rfl⟩

theorem buckets_length : (buckets key rows).length = (rows.map key).dedup.length := by
  rw [buckets, List.length_map, (sortBy_perm id _).length_eq]

omit [LinearOrder κ] in
theorem flatMap_filter_perm [DecidableEq κ] {keys : List κ} (hnodup : keys.Nodup)
    (hkeys : ∀ row ∈ rows, key row ∈ keys) :
    (keys.flatMap fun k => rows.filter fun row => key row = k).Perm rows := by
  induction keys generalizing rows with
  | nil =>
    rw [List.eq_nil_iff_forall_not_mem.mpr fun row hrow => List.not_mem_nil (hkeys row hrow)]
    rfl
  | cons k keys ih =>
    obtain ⟨hnew, hnodup⟩ := List.nodup_cons.mp hnodup
    have hrest : (keys.flatMap fun j => rows.filter fun row => key row = j) =
        keys.flatMap fun j => (rows.filter fun row => !decide (key row = k)).filter fun row => key row = j := by
      apply List.flatMap_congr
      intro j hj
      rw [List.filter_filter]
      apply List.filter_congr
      intro row _
      have hne : j ≠ k := fun hsame => hnew (hsame ▸ hj)
      by_cases hrow : key row = j
      · simp [hrow, hne]
      · simp [hrow]
    rw [List.flatMap_cons, hrest]
    apply List.Perm.trans _ (List.filter_append_perm (fun row => decide (key row = k)) rows)
    apply List.Perm.append_left
    apply ih hnodup
    intro row hrow
    obtain ⟨hmem, hne⟩ := List.mem_filter.mp hrow
    have hrow_ne : key row ≠ k := by simpa using hne
    exact (List.mem_cons.mp (hkeys row hmem)).resolve_left hrow_ne

theorem buckets_flatten : ((buckets key rows).flatMap Prod.snd).Perm rows := by
  have hflat : (buckets key rows).flatMap Prod.snd =
      (sortBy id (rows.map key).dedup).flatMap fun k => rows.filter fun row => key row = k := by
    rw [buckets, List.flatMap_map]
  rw [hflat]
  apply flatMap_filter_perm
  · exact (sortBy_perm id _).nodup_iff.mpr (List.nodup_dedup _)
  · intro row hrow
    exact mem_sortBy.mpr (List.mem_dedup.mpr (List.mem_map_of_mem hrow))

/-- Each row is counted in one group. -/
theorem sum_buckets {μ : Type} [AddCommMonoid μ] (f : α → μ) :
    ((buckets key rows).map fun bucket => (bucket.2.map f).sum).sum = (rows.map f).sum := by
  have hflat : ((buckets key rows).map fun bucket => (bucket.2.map f).sum).sum =
      (((buckets key rows).flatMap Prod.snd).map f).sum := by
    rw [List.map_flatMap, List.flatMap_def, List.sum_flatten, List.map_map]
    rfl
  rw [hflat]
  exact (buckets_flatten.map f).sum_eq

/-- The order of the rows does not matter but for the order within the groups. -/
theorem buckets_congr (h : rows.Perm rows') :
    List.Forall₂ (fun bucket bucket' => bucket.1 = bucket'.1 ∧ bucket.2.Perm bucket'.2) (buckets key rows)
      (buckets key rows') := by
  have hkeys : sortBy id (rows.map key).dedup = sortBy id (rows'.map key).dedup :=
    sortBy_congr ((h.map key).dedup) fun _ _ _ _ hsame => hsame
  unfold buckets
  rw [hkeys, List.forall₂_map_left_iff, List.forall₂_map_right_iff]
  apply List.forall₂_same.mpr
  intro k _
  exact ⟨rfl, h.filter _⟩

theorem buckets_related {β : Type} {key' : β → κ} {others : List β} {R : α → β → Prop} (h : List.Forall₂ R rows others)
    (hkeys : ∀ x y, R x y → key x = key' y) :
    List.Forall₂ (fun bucket bucket' => bucket.1 = bucket'.1 ∧ List.Forall₂ R bucket.2 bucket'.2) (buckets key rows)
      (buckets key' others) := by
  have hmap : rows.map key = others.map key' := Rows.forall₂_map_eq h fun x _ y _ hxy => hkeys x y hxy
  unfold buckets
  rw [hmap, List.forall₂_map_left_iff, List.forall₂_map_right_iff]
  apply List.forall₂_same.mpr
  intro k _
  refine ⟨rfl, Rows.forall₂_filter h fun x y hxy => ?_⟩
  rw [hkeys x y hxy]

end Buckets
