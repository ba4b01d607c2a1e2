import Mathlib.Data.List.Chain

/-! Slices of a list, and the parts that ranges cut it into. -/

namespace Slices

variable {α : Type}

def slice (xs : List α) (i j : ℕ) : List α := (xs.drop i).take (j - i)

theorem length_slice {xs : List α} {i j : ℕ} (h : j ≤ xs.length) : (slice xs i j).length = j - i := by
  rw [slice, List.length_take, List.length_drop]
  omega

theorem slice_append (xs : List α) {i j k : ℕ} (hij : i ≤ j) (hjk : j ≤ k) :
    slice xs i j ++ slice xs j k = slice xs i k := by
  have hdrop : xs.drop j = (xs.drop i).drop (j - i) := by
    rw [List.drop_drop]
    congr 1
    omega
  have hlength : k - i = (j - i) + (k - j) := by omega
  rw [slice, slice, slice, hlength, List.take_add, hdrop]

/-- Ranges that are not empty and lie one after another between two positions. -/
def Apart : ℕ → List (ℕ × ℕ) → ℕ → Prop
  | start, [], finish => start ≤ finish
  | start, range :: ranges, finish => start ≤ range.1 ∧ range.1 < range.2 ∧ Apart range.2 ranges finish

theorem Apart.le {start finish : ℕ} {ranges : List (ℕ × ℕ)} (h : Apart start ranges finish) : start ≤ finish := by
  induction ranges generalizing start with
  | nil => exact h
  | cons range ranges ih =>
    obtain ⟨hstart, hrange, hrest⟩ := h
    have := ih hrest
    omega

theorem Apart.bounds {start finish : ℕ} {ranges : List (ℕ × ℕ)} (h : Apart start ranges finish) :
    (start :: ranges.flatMap (fun range => [range.1, range.2]) ++ [finish]).IsChain (· ≤ ·) := by
  induction ranges generalizing start with
  | nil => simpa [Apart] using h
  | cons range ranges ih =>
    obtain ⟨hstart, hrange, hrest⟩ := h
    simpa [hstart, hrange.le] using ih hrest

/-- The parts of ranges that are between two positions. -/
def clip (start finish : ℕ) (ranges : List (ℕ × ℕ)) : List (ℕ × ℕ) :=
  (ranges.map fun range => (max range.1 start, min range.2 finish)).filter fun range => range.1 < range.2

theorem clip_apart {start finish edge : ℕ} {ranges : List (ℕ × ℕ)} (hranges : ranges.Pairwise fun r s => r.2 ≤ s.1)
    (hstart : ∀ range ∈ ranges, edge ≤ max range.1 start) (hfinish : edge ≤ finish) :
    Apart edge (clip start finish ranges) finish := by
  induction ranges generalizing edge with
  | nil => exact hfinish
  | cons range ranges ih =>
    obtain ⟨hrange, hrest⟩ := List.pairwise_cons.mp hranges
    rw [clip, List.map_cons, List.filter_cons]
    split
    · next hlt =>
      simp only [decide_eq_true_eq] at hlt
      refine ⟨hstart range (by simp), hlt, ih hrest (fun other hother => ?_) (by dsimp only; omega)⟩
      have := hrange other hother
      dsimp only
      omega
    · exact ih hrest (fun other hother => hstart other (by simp [hother])) hfinish

def part (items : List α) (marked : Bool) : List (List α × Bool) := if items.isEmpty then [] else [(items, marked)]

/-- The parts between two positions, those in the ranges marked; empty ones are left out. -/
def parts (xs : List α) : ℕ → List (ℕ × ℕ) → ℕ → List (List α × Bool)
  | start, [], finish => part (slice xs start finish) false
  | start, range :: ranges, finish =>
    part (slice xs start range.1) false ++ part (slice xs range.1 range.2) true ++ parts xs range.2 ranges finish

/-- Where the marked parts are, the first part starting at the position. -/
def marks : ℕ → List (List α × Bool) → List (ℕ × ℕ)
  | _, [] => []
  | i, part :: rest => (if part.2 then [(i, i + part.1.length)] else []) ++ marks (i + part.1.length) rest

theorem marks_append (i : ℕ) (xs ys : List (List α × Bool)) :
    marks i (xs ++ ys) = marks i xs ++ marks (i + (xs.flatMap Prod.fst).length) ys := by
  induction xs generalizing i with
  | nil => simp [marks]
  | cons x xs ih => simp [marks, ih, Nat.add_assoc]

theorem part_concat (items : List α) (marked : Bool) : (part items marked).flatMap Prod.fst = items := by
  cases items <;> simp [part]

theorem part_marks (i : ℕ) (items : List α) : marks i (part items false) = [] := by
  cases items <;> simp [part, marks]

theorem parts_concat (xs : List α) {start finish : ℕ} {ranges : List (ℕ × ℕ)} (h : Apart start ranges finish) :
    (parts xs start ranges finish).flatMap Prod.fst = slice xs start finish := by
  induction ranges generalizing start with
  | nil => rw [parts, part_concat]
  | cons range ranges ih =>
    obtain ⟨hstart, hrange, hrest⟩ := h
    rw [parts, List.flatMap_append, List.flatMap_append, part_concat, part_concat, ih hrest,
      slice_append xs hstart hrange.le, slice_append xs (hstart.trans hrange.le) hrest.le]

theorem parts_marks {xs : List α} {start finish : ℕ} {ranges : List (ℕ × ℕ)} (h : Apart start ranges finish)
    (hfinish : finish ≤ xs.length) : marks start (parts xs start ranges finish) = ranges := by
  induction ranges generalizing start with
  | nil => rw [parts, part_marks]
  | cons range ranges ih =>
    obtain ⟨hstart, hrange, hrest⟩ := h
    have hlast := hrest.le
    have hbefore : start + (slice xs start range.1).length = range.1 := by
      rw [length_slice (by omega)]
      omega
    have hlength : (slice xs range.1 range.2).length = range.2 - range.1 := length_slice (by omega)
    have hmarked : part (slice xs range.1 range.2) true = [(slice xs range.1 range.2, true)] := by
      rw [part, if_neg]
      rw [List.isEmpty_iff_length_eq_zero]
      omega
    have hend : range.1 + (range.2 - range.1) = range.2 := by omega
    rw [parts, List.append_assoc, marks_append, part_marks, part_concat, hbefore, hmarked]
    simp [marks, hlength, hend, ih hrest]

theorem parts_ne_nil (xs : List α) (start finish : ℕ) (ranges : List (ℕ × ℕ)) :
    ∀ cut ∈ parts xs start ranges finish, cut.1 ≠ [] := by
  have hpart : ∀ (items : List α) (marked : Bool), ∀ cut ∈ part items marked, cut.1 ≠ [] := by
    intro items marked cut hcut
    cases items <;> simp [part] at hcut
    simp [hcut]
  induction ranges generalizing start with
  | nil => exact hpart _ _
  | cons range ranges ih =>
    intro cut hcut
    rw [parts] at hcut
    rcases List.mem_append.mp hcut with hcut | hcut
    · rcases List.mem_append.mp hcut with hcut | hcut
      · exact hpart _ _ cut hcut
      · exact hpart _ _ cut hcut
    · exact ih _ cut hcut

end Slices
