import Mathlib.Data.List.Basic
import Mathlib.Data.List.Count
import Mathlib.Data.List.Induction
import Mathlib.Data.List.Nodup
import Mathlib.Data.List.Perm.Subperm

namespace Tallies

def tally (length : ℕ) (targets : List ℕ) : List ℕ :=
  targets.foldl (fun counts target => counts.modify target (· + 1)) (List.replicate length 0)

def mark (length : ℕ) (targets : List ℕ) : List Bool :=
  targets.foldl (fun flags target => flags.set target true) (List.replicate length false)

theorem tally_concat (length : ℕ) (targets : List ℕ) (target : ℕ) :
    tally length (targets ++ [target]) = (tally length targets).modify target (· + 1) := by
  simp [tally]

theorem tally_getElem? {length : ℕ} (targets : List ℕ) {i : ℕ} (hi : i < length) :
    (tally length targets)[i]? = some (targets.count i) := by
  induction targets using List.reverseRecOn with
  | nil => simp [tally, hi]
  | append_singleton targets target ih =>
    rw [tally_concat, List.getElem?_modify, ih]
    by_cases h : target = i <;> simp [h, List.count_append]

theorem mark_concat (length : ℕ) (targets : List ℕ) (target : ℕ) :
    mark length (targets ++ [target]) = (mark length targets).set target true := by
  simp [mark]

theorem mark_getElem? {length : ℕ} (targets : List ℕ) {i : ℕ} (hi : i < length) :
    (mark length targets)[i]? = some (decide (i ∈ targets)) := by
  induction targets using List.reverseRecOn with
  | nil => simp [mark, hi]
  | append_singleton targets target ih =>
    rw [mark_concat]
    by_cases h : target = i
    · subst h
      have hlength : target < (mark length targets).length := (List.getElem?_eq_some_iff.mp ih).1
      simp [hlength]
    · rw [List.getElem?_set_ne h, ih]
      simp [Ne.symm h]

theorem one_lt_countP {α : Type} {xs : List α} (hn : xs.Nodup) {p : α → Bool} :
    1 < xs.countP p ↔ ∃ x ∈ xs, ∃ y ∈ xs, x ≠ y ∧ p x = true ∧ p y = true := by
  rw [List.countP_eq_length_filter]
  constructor
  · intro h
    have hx : (xs.filter p)[0] ∈ xs.filter p := List.getElem_mem _
    have hy : (xs.filter p)[1] ∈ xs.filter p := List.getElem_mem _
    have hne : (xs.filter p)[0] ≠ (xs.filter p)[1] :=
      fun heq => by simpa using (hn.filter p).getElem_inj_iff.mp heq
    exact ⟨_, (List.mem_filter.mp hx).1, _, (List.mem_filter.mp hy).1, hne, (List.mem_filter.mp hx).2,
      (List.mem_filter.mp hy).2⟩
  · rintro ⟨x, hx, y, hy, hne, hpx, hpy⟩
    have hsub : [x, y] ⊆ xs.filter p := by simp [hx, hy, hpx, hpy]
    have hpair : [x, y].Nodup := by simpa using hne
    exact (hpair.subperm hsub).length_le

section Growing

variable {α β : Type} (f : List β → α → β)

theorem length_grown (xs : List α) : (xs.foldl (fun ys x => ys ++ [f ys x]) []).length = xs.length := by
  induction xs using List.reverseRecOn with
  | nil => rfl
  | append_singleton xs x ih => simp [ih]

/-- A fold that appends to its list looks at what it has made so far. -/
theorem grown_getElem? (xs : List α) (i : ℕ) :
    (xs.foldl (fun ys x => ys ++ [f ys x]) [])[i]? =
      xs[i]?.map (f ((xs.foldl (fun ys x => ys ++ [f ys x]) []).take i)) := by
  induction xs using List.reverseRecOn with
  | nil => simp
  | append_singleton xs x ih =>
    have hlength := length_grown f xs
    rw [List.foldl_concat]
    rcases Nat.lt_trichotomy i xs.length with hi | rfl | hi
    · rw [List.getElem?_append_left (hlength ▸ hi), List.getElem?_append_left hi, ih,
        List.take_append_of_le_length (by omega)]
    · simp [← hlength]
    · rw [List.getElem?_eq_none (by simp [hlength]; omega), List.getElem?_eq_none (by simp; omega)]
      rfl

end Growing

end Tallies
