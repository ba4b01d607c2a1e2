import Mathlib.Algebra.GroupWithZero.Nat
import Mathlib.Data.List.Range

/-! Half-open ranges of indexes. -/

namespace Ranges

def Holds (ranges : List (ℕ × ℕ)) (i : ℕ) : Prop := ∃ range ∈ ranges, range.1 ≤ i ∧ i < range.2

def Separated (ranges : List (ℕ × ℕ)) : Prop := ranges.Pairwise fun r s => r.2 < s.1

def size (range : ℕ × ℕ) : ℕ := range.2 - range.1

variable {ranges front : List (ℕ × ℕ)} {range : ℕ × ℕ} {i total : ℕ}

@[simp] theorem holds_nil : ¬ Holds [] i := by
  simp [Holds]

@[simp] theorem holds_append : Holds (front ++ ranges) i ↔ Holds front i ∨ Holds ranges i := by
  simp [Holds, or_and_right, exists_or]

@[simp] theorem holds_cons : Holds (range :: ranges) i ↔ (range.1 ≤ i ∧ i < range.2) ∨ Holds ranges i := by
  simp [Holds]

theorem Separated.concat (h : Separated front) (hlast : ∀ r ∈ front, r.2 < range.1) : Separated (front ++ [range]) := by
  rw [Separated, List.pairwise_append]
  refine ⟨h, List.pairwise_singleton _ _, ?_⟩
  intro r hr s hs
  rw [List.mem_singleton.mp hs]
  exact hlast r hr

theorem Separated.of_concat (h : Separated (front ++ [range])) : Separated front ∧ ∀ r ∈ front, r.2 < range.1 := by
  obtain ⟨hfront, -, hlast⟩ := List.pairwise_append.mp h
  exact ⟨hfront, fun r hr => hlast r hr range (List.mem_singleton_self range)⟩

theorem Separated.eq {j k : ℕ} {r s : ℕ × ℕ} (h : Separated ranges) (hr : ranges[j]? = some r) (hs : ranges[k]? = some s)
    (hir : r.1 ≤ i ∧ i < r.2) (his : s.1 ≤ i ∧ i < s.2) : j = k := by
  obtain ⟨hj, rfl⟩ := List.getElem?_eq_some_iff.mp hr
  obtain ⟨hk, rfl⟩ := List.getElem?_eq_some_iff.mp hs
  by_contra hne
  by_cases hlt : j < k
  · have hapart := List.pairwise_iff_getElem.mp h j k hj hk hlt
    omega
  · have hapart := List.pairwise_iff_getElem.mp h k j hk hj (by omega)
    omega

theorem countP_disjoint {α : Type} {p q : α → Bool} (h : ∀ x, p x = true → q x = false) (xs : List α) :
    xs.countP (fun x => p x || q x) = xs.countP p + xs.countP q := by
  induction xs with
  | nil => rfl
  | cons x xs ih =>
    simp only [List.countP_cons, ih]
    by_cases hp : p x = true
    · rw [hp, h x hp, Bool.or_false, if_pos rfl, if_neg Bool.false_ne_true]
      omega
    · rw [Bool.eq_false_iff.mpr hp, Bool.false_or, if_neg Bool.false_ne_true]
      omega

theorem countP_range (range : ℕ × ℕ) (total : ℕ) :
    (List.range total).countP (fun i => range.1 ≤ i && i < range.2) = min total range.2 - range.1 := by
  induction total with
  | zero => simp
  | succ n ih =>
    rw [List.range_succ, List.countP_append, ih, List.countP_singleton]
    by_cases hn : range.1 ≤ n ∧ n < range.2
    · rw [if_pos (by simpa using hn)]
      omega
    · rw [if_neg (by simpa using hn)]
      omega

theorem countP_holds (h : Separated ranges) (hinside : ∀ r ∈ ranges, r.2 ≤ total) :
    (List.range total).countP (fun i => ranges.any fun range => range.1 ≤ i && i < range.2) =
      (ranges.map size).sum := by
  induction ranges with
  | nil => simp
  | cons range ranges ih =>
    obtain ⟨hlater, hranges⟩ := List.pairwise_cons.mp h
    have hdisjoint : ∀ i, (decide (range.1 ≤ i) && decide (i < range.2)) = true →
        (ranges.any fun other => other.1 ≤ i && i < other.2) = false := by
      intro i hi
      rw [Bool.and_eq_true, decide_eq_true_eq, decide_eq_true_eq] at hi
      rw [List.any_eq_false]
      intro other hother
      have hapart := hlater other hother
      rw [Bool.and_eq_true, decide_eq_true_eq, decide_eq_true_eq]
      omega
    have hfits := hinside range List.mem_cons_self
    simp only [List.any_cons]
    rw [countP_disjoint hdisjoint, countP_range, min_eq_right hfits,
      ih hranges fun r hr => hinside r (List.mem_cons_of_mem _ hr), List.map_cons, List.sum_cons, size]

end Ranges
