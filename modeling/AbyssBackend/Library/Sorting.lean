import Mathlib.Algebra.Ring.Int.Defs
import Mathlib.Data.List.Sort

namespace Sorting

variable {α β κ μ : Type} [LinearOrder κ] [LinearOrder μ]

def sortBy (key : α → κ) (xs : List α) : List α := xs.insertionSort fun x y => key x ≤ key y

theorem sortBy_perm (key : α → κ) (xs : List α) : (sortBy key xs).Perm xs := List.perm_insertionSort _ _

theorem mem_sortBy {key : α → κ} {xs : List α} {x : α} : x ∈ sortBy key xs ↔ x ∈ xs := List.mem_insertionSort _

theorem map_sortBy {key : α → κ} {k : β → μ} {f : α → β} {xs : List α}
    (h : ∀ x ∈ xs, ∀ y ∈ xs, key x ≤ key y ↔ k (f x) ≤ k (f y)) :
    (sortBy key xs).map f = sortBy k (xs.map f) :=
  List.map_insertionSort _ _ f xs h

theorem sortBy_pairwise (key : α → κ) (xs : List α) : (sortBy key xs).Pairwise fun x y => key x ≤ key y := by
  have hkeys : (sortBy key xs).map key = sortBy id (xs.map key) := map_sortBy fun _ _ _ _ => Iff.rfl
  rw [← List.pairwise_map (R := (· ≤ ·)), hkeys]
  exact List.pairwise_insertionSort _ _

theorem orderedInsert_stable {key : α → κ} {S : α → α → Prop} {x : α} {ys : List α} (hx : ∀ y ∈ ys, S x y)
    (h : ys.Pairwise fun y z => key y < key z ∨ key y = key z ∧ S y z) :
    (ys.orderedInsert (fun y z => key y ≤ key z) x).Pairwise fun y z => key y < key z ∨ key y = key z ∧ S y z := by
  induction ys with
  | nil => exact List.pairwise_singleton _ x
  | cons y ys ih =>
    rw [List.forall_mem_cons] at hx
    have hcons := List.pairwise_cons.mp h
    by_cases hle : key x ≤ key y
    · rw [List.orderedInsert_cons_of_le _ ys hle]
      refine List.pairwise_cons.mpr ⟨List.forall_mem_cons.mpr ⟨?_, fun z hz => ?_⟩, h⟩
      · exact hle.lt_or_eq.imp_right fun hsame => ⟨hsame, hx.1⟩
      · have hyz : key y ≤ key z := (hcons.1 z hz).elim le_of_lt fun hsame => hsame.1.le
        exact (hle.trans hyz).lt_or_eq.imp_right fun hsame => ⟨hsame, hx.2 z hz⟩
    · rw [List.orderedInsert_of_not_le _ ys hle]
      refine List.pairwise_cons.mpr ⟨fun z hz => ?_, ih hx.2 hcons.2⟩
      obtain rfl | hz := (List.mem_orderedInsert _).mp hz
      · exact .inl (not_le.mp hle)
      · exact hcons.1 z hz

/-- Sorting keeps what the list has in order apart from the keys. -/
theorem sortBy_stable {key : α → κ} {S : α → α → Prop} {xs : List α} (h : xs.Pairwise S) :
    (sortBy key xs).Pairwise fun x y => key x < key y ∨ key x = key y ∧ S x y := by
  induction xs with
  | nil => exact List.Pairwise.nil
  | cons x xs ih =>
    obtain ⟨hx, hxs⟩ := List.pairwise_cons.mp h
    exact orderedInsert_stable (fun y hy => hx y (mem_sortBy.mp hy)) (ih hxs)

theorem sortBy_sublist {key : α → κ} {xs ys : List α} (h : xs.Sublist ys) :
    (sortBy key xs).Sublist (sortBy key ys) := by
  have : IsTrans α fun x y => key x ≤ key y := ⟨fun _ _ _ => le_trans⟩
  induction h with
  | slnil => exact List.Sublist.refl _
  | cons x h ih => exact ih.trans (List.sublist_orderedInsert x _)
  | cons_cons x h ih =>
    apply List.Sublist.orderedInsert_sublist x ih
    exact sortBy_pairwise key _

theorem sortBy_eq {key : α → κ} {xs ys : List α} (h : xs.Perm ys) (hys : ys.Pairwise fun x y => key x ≤ key y)
    (hkeys : ∀ x ∈ ys, ∀ y ∈ ys, key x = key y → x = y) : sortBy key xs = ys := by
  have hperm := (sortBy_perm key xs).trans h
  refine List.Perm.eq_of_pairwise (fun x y hx hy hxy hyx => ?_) (sortBy_pairwise key xs) hys hperm
  exact hkeys x (hperm.mem_iff.mp hx) y hy (le_antisymm hxy hyx)

theorem sortBy_congr {key : α → κ} {xs ys : List α} (h : xs.Perm ys)
    (hkeys : ∀ x ∈ ys, ∀ y ∈ ys, key x = key y → x = y) : sortBy key xs = sortBy key ys :=
  sortBy_eq (h.trans (sortBy_perm key ys).symm) (sortBy_pairwise key ys) fun x hx y hy =>
    hkeys x (mem_sortBy.mp hx) y (mem_sortBy.mp hy)

theorem forall₂_sortBy {R : α → β → Prop} {key : α → κ} {key' : β → κ} {xs : List α} {ys : List β}
    (h : List.Forall₂ R xs ys) (hkeys : ∀ x y, R x y → key x = key' y) :
    List.Forall₂ R (sortBy key xs) (sortBy key' ys) := by
  obtain ⟨hlength, hzip⟩ := List.forall₂_iff_zip.mp h
  have hfst : (sortBy (fun pair : α × β => key pair.1) (xs.zip ys)).map Prod.fst = sortBy key xs := by
    rw [map_sortBy (k := key) fun _ _ _ _ => Iff.rfl, List.map_fst_zip hlength.le]
  have hsnd : (sortBy (fun pair : α × β => key pair.1) (xs.zip ys)).map Prod.snd = sortBy key' ys := by
    rw [map_sortBy (k := key') fun x hx y hy => by rw [hkeys _ _ (hzip hx), hkeys _ _ (hzip hy)],
      List.map_snd_zip hlength.ge]
  rw [← hfst, ← hsnd, List.forall₂_map_left_iff, List.forall₂_map_right_iff, List.forall₂_same]
  exact fun pair hpair => hzip (mem_sortBy.mp hpair)

theorem orderedInsert_least {key : α → κ} {x : α} {ys : List α} (h : ∀ y ∈ ys, key x ≤ key y) :
    ys.orderedInsert (fun y z => key y ≤ key z) x = x :: ys := by
  cases ys with
  | nil => rfl
  | cons y ys => exact List.orderedInsert_cons_of_le _ ys (h y List.mem_cons_self)

theorem orderedInsert_past {key : α → κ} {x : α} {ys : List α} (h : ∀ y ∈ ys, key y < key x) (zs : List α) :
    (ys ++ zs).orderedInsert (fun y z => key y ≤ key z) x = ys ++ zs.orderedInsert (fun y z => key y ≤ key z) x := by
  induction ys with
  | nil => rfl
  | cons y ys ih =>
    rw [List.forall_mem_cons] at h
    rw [List.cons_append, List.orderedInsert_of_not_le (r := fun y z => key y ≤ key z) _ (not_le.mpr h.1), ih h.2,
      List.cons_append]

theorem foldr_orderedInsert_least {k : κ} {key : α → κ} {xs ys : List α} (hxs : ∀ x ∈ xs, key x = k)
    (hys : ∀ y ∈ ys, k ≤ key y) : xs.foldr (List.orderedInsert fun y z => key y ≤ key z) ys = xs ++ ys := by
  induction xs with
  | nil => rfl
  | cons x xs ih =>
    rw [List.forall_mem_cons] at hxs
    rw [List.foldr_cons, ih hxs.2, orderedInsert_least, List.cons_append]
    intro y hy
    rw [hxs.1]
    exact (List.mem_append.mp hy).elim (fun hmem => (hxs.2 y hmem).ge) (hys y)

theorem foldr_orderedInsert_past {k : κ} {key : α → κ} {xs ys : List α} (hxs : ∀ x ∈ xs, key x = k)
    (hys : ∀ y ∈ ys, key y < k) (zs : List α) : xs.foldr (List.orderedInsert fun y z => key y ≤ key z) (ys ++ zs) =
      ys ++ xs.foldr (List.orderedInsert fun y z => key y ≤ key z) zs := by
  induction xs with
  | nil => rfl
  | cons x xs ih =>
    rw [List.forall_mem_cons] at hxs
    rw [List.foldr_cons, ih hxs.2, orderedInsert_past fun y hy => hxs.1 ▸ hys y hy, List.foldr_cons]

/-- The rows that an element stands for go where it goes. -/
theorem foldr_orderedInsert_flatMap {key : α → κ} {k : β → κ} {f : α → List β} {x : α} {ys : List α}
    (h : ∀ y ∈ x :: ys, ∀ z ∈ f y, k z = key y) (hsorted : ys.Pairwise fun y z => key y ≤ key z) :
    (f x).foldr (List.orderedInsert fun y z => k y ≤ k z) (ys.flatMap f) =
      (ys.orderedInsert (fun y z => key y ≤ key z) x).flatMap f := by
  rw [List.forall_mem_cons] at h
  induction ys with
  | nil => exact foldr_orderedInsert_least h.1 fun _ hy => absurd hy List.not_mem_nil
  | cons y ys ih =>
    obtain ⟨hle, hsorted⟩ := List.pairwise_cons.mp hsorted
    by_cases hxy : key x ≤ key y
    · rw [List.orderedInsert_cons_of_le _ ys hxy]
      refine foldr_orderedInsert_least h.1 fun z hz => ?_
      obtain ⟨y', hy', hz⟩ := List.mem_flatMap.mp hz
      rw [h.2 y' hy' z hz]
      obtain rfl | hmem := List.mem_cons.mp hy'
      · exact hxy
      · exact hxy.trans (hle y' hmem)
    · have hrest := (List.forall_mem_cons.mp h.2)
      rw [List.orderedInsert_of_not_le _ ys hxy, List.flatMap_cons, List.flatMap_cons,
        foldr_orderedInsert_past h.1 (fun z hz => hrest.1 z hz ▸ not_le.mp hxy), ih ⟨h.1, hrest.2⟩ hsorted]

/-- Sorting joined rows by what they were joined to is joining the sorted. -/
theorem sortBy_flatMap {key : α → κ} {k : β → κ} {f : α → List β} {xs : List α}
    (h : ∀ x ∈ xs, ∀ y ∈ f x, k y = key x) : sortBy k (xs.flatMap f) = (sortBy key xs).flatMap f := by
  induction xs with
  | nil => rfl
  | cons x xs ih =>
    rw [List.forall_mem_cons] at h
    have hrows : sortBy k ((x :: xs).flatMap f) =
        (f x).foldr (List.orderedInsert fun y z => k y ≤ k z) (sortBy k (xs.flatMap f)) := by
      rw [List.flatMap_cons]
      exact List.foldr_append
    rw [hrows, ih h.2, foldr_orderedInsert_flatMap _ (sortBy_pairwise key xs)]
    · rfl
    · intro y hy
      obtain rfl | hmem := List.mem_cons.mp hy
      · exact h.1
      · exact h.2 y (mem_sortBy.mp hmem)

theorem max?_congr {xs ys : List ℤ} (h : ∀ x, x ∈ xs ↔ x ∈ ys) : xs.max? = ys.max? := by
  apply Option.ext
  intro x
  rw [List.max?_eq_some_iff, List.max?_eq_some_iff, h]
  simp only [h]

theorem min?_congr {xs ys : List ℤ} (h : ∀ x, x ∈ xs ↔ x ∈ ys) : xs.min? = ys.min? := by
  apply Option.ext
  intro x
  rw [List.min?_eq_some_iff, List.min?_eq_some_iff, h]
  simp only [h]

theorem head_congr {f : α → β} {xs ys : List α} (h : xs.Perm ys)
    (hsame : ∀ x ∈ ys, ∀ y ∈ ys, f x = f y) : xs.head?.map f = ys.head?.map f := by
  cases xs with
  | nil => rw [List.Perm.eq_nil h.symm]
  | cons x xs =>
    cases ys with
    | nil => exact absurd h.eq_nil (List.cons_ne_nil _ _)
    | cons y ys =>
      exact congrArg some (hsame x (h.mem_iff.mp (List.mem_cons_self ..)) y (List.mem_cons_self ..))

end Sorting
