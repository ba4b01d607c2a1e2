import AbyssBackend.Library.Rows
import Mathlib.Order.Bounds.Basic

/-! Rows that hold the first and the last time of the events that refer to them. -/

namespace Extents

open Rows

variable {ρ κ ε τ : Type}

section Rows

variable [DecidableEq κ] [LinearOrder τ]

def times (ref : ε → κ) (time : ε → τ) (events : List ε) (k : κ) : Set τ :=
  {t | ∃ event ∈ events, ref event = k ∧ time event = t}

structure Spans (id : ρ → κ) (first : ρ → τ) (last : ρ → Option τ) (ref : ε → κ) (time : ε → τ)
    (rows : List ρ) (events : List ε) : Prop where
  least : ∀ row ∈ rows, IsLeast (times ref time events (id row)) (first row)
  greatest : ∀ row ∈ rows, ∃ t, last row = some t ∧ IsGreatest (times ref time events (id row)) t

variable {id : ρ → κ} {first : ρ → τ} {last : ρ → Option τ} {ref : ε → κ} {time : ε → τ} {rows : List ρ}
  {events : List ε}

omit [DecidableEq κ] in
theorem spans_nil : Spans id first last ref time [] events :=
  ⟨fun _ h => absurd h List.not_mem_nil, fun _ h => absurd h List.not_mem_nil⟩

omit [DecidableEq κ] [LinearOrder τ] in
theorem times_concat_self (event : ε) :
    times ref time (events ++ [event]) (ref event) = insert (time event) (times ref time events (ref event)) := by
  ext t
  simp only [times, List.mem_append, List.mem_singleton, Set.mem_ofPred_eq, Set.mem_insert_iff]
  constructor
  · rintro ⟨other, hother | rfl, hkey, htime⟩
    · exact Or.inr ⟨other, hother, hkey, htime⟩
    · exact Or.inl htime.symm
  · rintro (rfl | ⟨other, hother, hkey, htime⟩)
    · exact ⟨event, Or.inr rfl, rfl, rfl⟩
    · exact ⟨other, Or.inl hother, hkey, htime⟩

omit [DecidableEq κ] [LinearOrder τ] in
theorem times_concat_ne {event : ε} {k : κ} (hne : ref event ≠ k) :
    times ref time (events ++ [event]) k = times ref time events k := by
  ext t
  simp only [times, List.mem_append, List.mem_singleton, Set.mem_ofPred_eq]
  constructor
  · rintro ⟨other, hother | rfl, hkey, htime⟩
    · exact ⟨other, hother, hkey, htime⟩
    · exact absurd hkey hne
  · rintro ⟨other, hother, hkey, htime⟩
    exact ⟨other, Or.inl hother, hkey, htime⟩

theorem spans_seen (h : Spans id first last ref time rows events) (hids : (rows.map id).Nodup)
    {existing : ρ} (hexisting : existing ∈ rows) {event : ε} (href : ref event = id existing) {f : ρ → ρ}
    (hid : id (f existing) = id existing) (hfirst : first (f existing) = min (first existing) (time event))
    (hlast : ∀ t, last existing = some t → last (f existing) = some (max t (time event))) :
    Spans id first last ref time (update id (id existing) f rows) (events ++ [event]) := by
  have hrow : ∀ row ∈ update id (id existing) f rows,
      (row ∈ rows ∧ id row ≠ id existing) ∨ row = f existing := by
    intro row hrow
    obtain hkept | ⟨old, hold, hkey, rfl⟩ := mem_update.mp hrow
    · exact Or.inl hkept
    · exact Or.inr (congrArg f (List.inj_on_of_nodup_map hids hold hexisting hkey))
  refine ⟨fun row hmem => ?_, fun row hmem => ?_⟩
  · obtain ⟨hold, hne⟩ | rfl := hrow row hmem
    · rw [times_concat_ne (by rw [href]; exact hne.symm)]
      exact h.least row hold
    · rw [hid, ← href, times_concat_self, href, hfirst, min_comm]
      exact (h.least existing hexisting).insert _
  · obtain ⟨hold, hne⟩ | rfl := hrow row hmem
    · rw [times_concat_ne (by rw [href]; exact hne.symm)]
      exact h.greatest row hold
    · obtain ⟨t, ht, hgreatest⟩ := h.greatest existing hexisting
      refine ⟨_, hlast t ht, ?_⟩
      rw [hid, ← href, times_concat_self, href, max_comm]
      exact hgreatest.insert _

omit [DecidableEq κ] in
theorem spans_new (h : Spans id first last ref time rows events) {row : ρ} (hnew : id row ∉ rows.map id)
    (hrefs : ∀ event ∈ events, ref event ∈ rows.map id) {event : ε} (href : ref event = id row)
    (hfirst : first row = time event) (hlast : last row = some (time event)) :
    Spans id first last ref time (rows ++ [row]) (events ++ [event]) := by
  have hkept : ∀ other ∈ rows, ref event ≠ id other := by
    intro other hother heq
    exact hnew (href ▸ heq ▸ List.mem_map_of_mem hother)
  have hnone : times ref time events (id row) = ∅ := by
    ext t
    simp only [times, Set.mem_ofPred_eq, Set.mem_empty_iff_false, iff_false]
    rintro ⟨other, hother, hkey, -⟩
    exact hnew (hkey ▸ hrefs other hother)
  have hone : times ref time (events ++ [event]) (id row) = {time event} := by
    rw [← href, times_concat_self, href, hnone, insert_empty_eq]
  refine ⟨fun other hmem => ?_, fun other hmem => ?_⟩
  · obtain hold | hlastMem := List.mem_append.mp hmem
    · rw [times_concat_ne (hkept other hold)]
      exact h.least other hold
    · obtain rfl := List.mem_singleton.mp hlastMem
      rw [hone, hfirst]
      exact isLeast_singleton
  · obtain hold | hlastMem := List.mem_append.mp hmem
    · rw [times_concat_ne (hkept other hold)]
      exact h.greatest other hold
    · obtain rfl := List.mem_singleton.mp hlastMem
      rw [hone]
      exact ⟨_, hlast, isGreatest_singleton⟩

end Rows

section Nested

variable {ι : Type} {xs : List ι}

theorem isLeast_nested [Preorder τ] {all : ι → Set τ} {f : ι → τ} {t : τ} (hone : ∀ x ∈ xs, IsLeast (all x) (f x))
    (h : IsLeast {t | ∃ x ∈ xs, f x = t} t) : IsLeast {t | ∃ x ∈ xs, t ∈ all x} t := by
  obtain ⟨⟨x, hx, rfl⟩, hle⟩ := h
  refine ⟨⟨x, hx, (hone x hx).1⟩, ?_⟩
  rintro u ⟨y, hy, hu⟩
  exact (hle ⟨y, hy, rfl⟩).trans ((hone y hy).2 hu)

theorem isGreatest_nested [Preorder τ] {all : ι → Set τ} {f : ι → τ} {t : τ}
    (hone : ∀ x ∈ xs, IsGreatest (all x) (f x)) (h : IsGreatest {t | ∃ x ∈ xs, f x = t} t) :
    IsGreatest {t | ∃ x ∈ xs, t ∈ all x} t := by
  obtain ⟨⟨x, hx, rfl⟩, hle⟩ := h
  refine ⟨⟨x, hx, (hone x hx).1⟩, ?_⟩
  rintro u ⟨y, hy, hu⟩
  exact ((hone y hy).2 hu).trans (hle ⟨y, hy, rfl⟩)

theorem min?_isLeast (hne : xs ≠ []) (f : ι → ℤ) (other : ℤ) :
    IsLeast {t | ∃ x ∈ xs, f x = t} ((xs.map f).min?.getD other) := by
  have hmap : xs.map f ≠ [] := by simpa using hne
  obtain ⟨least, hleast⟩ := Option.isSome_iff_exists.mp (List.isSome_min?_of_ne_nil hmap)
  obtain ⟨hmem, hle⟩ := List.min?_eq_some_iff.mp hleast
  rw [hleast, Option.getD_some]
  refine ⟨by simpa using hmem, ?_⟩
  rintro t ⟨x, hx, rfl⟩
  exact hle _ (List.mem_map_of_mem hx)

theorem max?_isGreatest (hne : xs ≠ []) (f : ι → ℤ) (other : ℤ) :
    IsGreatest {t | ∃ x ∈ xs, f x = t} ((xs.map f).max?.getD other) := by
  have hmap : xs.map f ≠ [] := by simpa using hne
  obtain ⟨greatest, hgreatest⟩ := Option.isSome_iff_exists.mp (List.isSome_max?_of_ne_nil hmap)
  obtain ⟨hmem, hle⟩ := List.max?_eq_some_iff.mp hgreatest
  rw [hgreatest, Option.getD_some]
  refine ⟨by simpa using hmem, ?_⟩
  rintro t ⟨x, hx, rfl⟩
  exact hle _ (List.mem_map_of_mem hx)

end Nested

end Extents
