import Mathlib.Data.List.Infix
import Mathlib.Algebra.BigOperators.Group.List.Basic
import Mathlib.Algebra.GroupWithZero.Nat

namespace Occurrences

variable {α : Type} [DecidableEq α]

/-- Offsets of the non-overlapping occurrences from the left, each item counted by its width; `skip` items
belong to the occurrence before them. The word is not empty. -/
def starts (width : α → ℕ) (word : List α) : ℕ → ℕ → List α → List ℕ
  | _, _, [] => []
  | skip + 1, offset, x :: xs => starts width word skip (offset + width x) xs
  | 0, offset, x :: xs =>
    if word <+: x :: xs then offset :: starts width word (word.length - 1) (offset + width x) xs
    else starts width word 0 (offset + width x) xs

def extent {α : Type} (width : α → ℕ) (xs : List α) (i : ℕ) : ℕ := ((xs.take i).map width).sum

omit [DecidableEq α] in
theorem extent_append (width : α → ℕ) (xs ys : List α) : extent width (xs ++ ys) xs.length = (xs.map width).sum := by
  rw [extent, List.take_left' rfl]

omit [DecidableEq α] in
theorem extent_split (width : α → ℕ) (xs : List α) (i j : ℕ) :
    extent width xs (i + j) = extent width xs i + extent width (xs.drop i) j := by
  rw [extent, extent, extent, List.take_add, List.map_append, List.sum_append]

omit [DecidableEq α] in
theorem extent_one {xs : List α} {i : ℕ} (h : i ≤ xs.length) : extent (fun _ => 1) xs i = i := by
  rw [extent, List.map_const', List.sum_replicate_nat, List.length_take, Nat.min_eq_left h, Nat.mul_one]

theorem starts_skip (width : α → ℕ) (word : List α) (skip offset : ℕ) (xs : List α) :
    starts width word skip offset xs = starts width word 0 (offset + extent width xs skip) (xs.drop skip) := by
  induction skip generalizing offset xs with
  | zero => simp [extent]
  | succ skip ih =>
    cases xs with
    | nil => simp [starts]
    | cons x xs =>
      rw [starts, ih, List.drop_succ_cons, extent, extent, List.take_succ_cons, List.map_cons, List.sum_cons,
        Nat.add_assoc]

theorem starts_eq_nil {width : α → ℕ} {word xs : List α} (hword : word ≠ []) {offset : ℕ} :
    starts width word 0 offset xs = [] ↔ ¬ word <:+: xs := by
  induction xs generalizing offset with
  | nil => simp [starts, hword]
  | cons x xs ih =>
    rw [starts, List.infix_cons_iff, not_or]
    split
    · next hstarts => simp [hstarts]
    · next hstarts => simp [hstarts, ih]

theorem starts_width (width : α → ℕ) (word done xs : List α) (skip : ℕ) :
    starts width word skip (extent width (done ++ xs) done.length) xs =
      (starts (fun _ => 1) word skip done.length xs).map (extent width (done ++ xs)) := by
  induction xs generalizing done skip with
  | nil => cases skip <;> rfl
  | cons x xs ih =>
    have hnext : extent width (done ++ x :: xs) done.length + width x =
        extent width ((done ++ [x]) ++ xs) (done ++ [x]).length := by
      rw [extent_append, extent_append, List.map_append, List.sum_append, List.map_singleton, List.sum_singleton]
    have hdone : done ++ x :: xs = (done ++ [x]) ++ xs := by simp
    have hlength : done.length + 1 = (done ++ [x]).length := by simp
    cases skip with
    | succ skip => rw [starts, starts, hnext, hlength, ih, hdone]
    | zero =>
      rw [starts, starts]
      split
      · rw [hnext, hlength, ih, List.map_cons, hdone]
      · rw [hnext, hlength, ih, hdone]

theorem starts_bounds {word : List α} (hword : word ≠ []) {xs : List α} {skip offset : ℕ} :
    ∀ i ∈ starts (fun _ => 1) word skip offset xs, offset + skip ≤ i ∧ i + word.length ≤ offset + xs.length := by
  have hpos := List.length_pos_of_ne_nil hword
  induction xs generalizing skip offset with
  | nil => cases skip <;> simp [starts]
  | cons x xs ih =>
    intro i hi
    have hlater : ∀ skip', i ∈ starts (fun _ => 1) word skip' (offset + 1) xs →
        offset + 1 + skip' ≤ i ∧ i + word.length ≤ offset + (xs.length + 1) := by
      intro skip' hmem
      have hbounds := ih i hmem
      omega
    rw [List.length_cons]
    cases skip with
    | succ skip =>
      have hbounds := hlater skip hi
      omega
    | zero =>
      rw [starts] at hi
      split at hi
      · next hstarts =>
        have hlength := hstarts.length_le
        rw [List.length_cons] at hlength
        obtain rfl | hrest := List.mem_cons.mp hi
        · omega
        · have hbounds := hlater _ hrest
          omega
      · have hbounds := hlater 0 hi
        omega

theorem starts_pairwise {word : List α} (hword : word ≠ []) {xs : List α} {skip offset : ℕ} :
    (starts (fun _ => 1) word skip offset xs).Pairwise fun i j => i + word.length ≤ j := by
  have hpos := List.length_pos_of_ne_nil hword
  induction xs generalizing skip offset with
  | nil => cases skip <;> simp [starts]
  | cons x xs ih =>
    cases skip with
    | succ skip => exact ih
    | zero =>
      unfold starts
      split
      · refine List.Pairwise.cons (fun j hj => ?_) ih
        have hbounds := (starts_bounds hword j hj).1
        omega
      · exact ih

/-- The occurrences from a position on, each the first one after the end of the one before it. -/
inductive Leftmost (word xs : List α) : ℕ → List ℕ → Prop
  | done {start : ℕ} (none : ∀ i, start ≤ i → ¬ word <+: xs.drop i) : Leftmost word xs start []
  | found {start i : ℕ} {rest : List ℕ} (after : start ≤ i) (here : word <+: xs.drop i)
      (first : ∀ j, start ≤ j → j < i → ¬ word <+: xs.drop j) (next : Leftmost word xs (i + word.length) rest) :
      Leftmost word xs start (i :: rest)

omit [DecidableEq α] in
theorem Leftmost.later {word xs : List α} {start : ℕ} {found : List ℕ} (hnot : ¬ word <+: xs.drop start)
    (h : Leftmost word xs (start + 1) found) : Leftmost word xs start found := by
  cases h with
  | done none =>
    refine .done fun i hi => ?_
    rcases Nat.eq_or_lt_of_le hi with rfl | hlt
    · exact hnot
    · exact none i hlt
  | found after here first next =>
    refine .found (by omega) here (fun j hj hlt => ?_) next
    rcases Nat.eq_or_lt_of_le hj with rfl | hstart
    · exact hnot
    · exact first j hstart hlt

omit [DecidableEq α] in
/-- Wherever the word is, an occurrence has started that is not over. -/
theorem Leftmost.overlaps {word xs : List α} {start i : ℕ} {found : List ℕ} (h : Leftmost word xs start found)
    (hi : start ≤ i) (hmatch : word <+: xs.drop i) : ∃ s ∈ found, s ≤ i ∧ i < s + word.length := by
  induction h with
  | done none => exact absurd hmatch (none i hi)
  | @found start s rest after here first next ih =>
    have hle : s ≤ i := by
      by_contra hlt
      exact first i hi (by omega) hmatch
    by_cases hover : i < s + word.length
    · exact ⟨s, by simp, hle, hover⟩
    · obtain ⟨t, ht, hbounds⟩ := ih (by omega)
      exact ⟨t, by simp [ht], hbounds⟩

theorem starts_drop {word xs : List α} (hword : word ≠ []) {start : ℕ} (hstart : start < xs.length) :
    starts (fun _ => 1) word 0 start (xs.drop start) =
      if word <+: xs.drop start then
        start :: starts (fun _ => 1) word 0 (start + word.length) (xs.drop (start + word.length))
      else starts (fun _ => 1) word 0 (start + 1) (xs.drop (start + 1)) := by
  have hpos := List.length_pos_of_ne_nil hword
  obtain ⟨x, rest, hcons⟩ := List.exists_cons_of_length_pos (l := xs.drop start) (by rw [List.length_drop]; omega)
  have hrest : xs.drop (start + 1) = rest := by rw [← List.drop_drop, hcons, List.drop_one, List.tail_cons]
  rw [hcons, starts, ← hcons, hrest]
  split
  · next hprefix =>
    have hlength := hprefix.length_le
    have hextent : start + 1 + extent (fun _ => 1) rest (word.length - 1) = start + word.length := by
      rw [extent_one (by rw [hcons, List.length_cons] at hlength; omega)]
      omega
    have hdrop : rest.drop (word.length - 1) = xs.drop (start + word.length) := by
      rw [← hrest, List.drop_drop]
      congr 1
      omega
    rw [starts_skip, hextent, hdrop]
  · rfl

theorem starts_leftmost {word : List α} (hword : word ≠ []) (xs : List α) (start : ℕ) :
    Leftmost word xs start (starts (fun _ => 1) word 0 start (xs.drop start)) := by
  have hpos := List.length_pos_of_ne_nil hword
  by_cases hstart : start < xs.length
  · rw [starts_drop hword hstart]
    split
    · next hhere => exact .found le_rfl hhere (fun j hj hlt => by omega) (starts_leftmost hword xs _)
    · next hnot => exact (starts_leftmost hword xs (start + 1)).later hnot
  · rw [List.drop_eq_nil_of_le (by omega), starts]
    refine .done fun i hi => ?_
    rw [List.drop_eq_nil_of_le (by omega), List.prefix_nil]
    exact hword
termination_by xs.length - start

end Occurrences
