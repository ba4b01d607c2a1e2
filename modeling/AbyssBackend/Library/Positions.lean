import Mathlib.Data.List.Basic
import Mathlib.Data.List.Chain

namespace Positions

variable {α : Type}

def rposition (test : α → Bool) : List α → Option ℕ
  | [] => none
  | x :: xs =>
    match rposition test xs with
    | some i => some (i + 1)
    | none => if test x then some 0 else none

theorem rposition_eq_none {test : α → Bool} {xs : List α} :
    rposition test xs = none ↔ ∀ x ∈ xs, test x = false := by
  induction xs with
  | nil => simp [rposition]
  | cons x xs ih =>
    cases hr : rposition test xs with
    | none =>
      have hxs := ih.mp hr
      simp only [rposition, hr, List.mem_cons, forall_eq_or_imp]
      cases test x
      · simpa using hxs
      · simp
    | some i =>
      have hxs : ¬ ∀ y ∈ xs, test y = false := fun h => by simp [ih.mpr h] at hr
      simp [rposition, hr, hxs]

theorem rposition_append_none {test : α → Bool} {ys : List α} (xs : List α)
    (hys : ∀ y ∈ ys, test y = false) : rposition test (xs ++ ys) = rposition test xs := by
  induction xs with
  | nil => simpa [rposition] using rposition_eq_none.mpr hys
  | cons x xs ih => simp [rposition, ih]

theorem rposition_append_some {test : α → Bool} {ys : List α} {i : ℕ} (xs : List α)
    (hys : rposition test ys = some i) : rposition test (xs ++ ys) = some (xs.length + i) := by
  induction xs with
  | nil => simpa using hys
  | cons x xs ih => simp [rposition, ih]; omega

theorem rposition_append_cons {test : α → Bool} {x : α} {back : List α} (front : List α)
    (hx : test x = true) (hback : ∀ y ∈ back, test y = false) :
    rposition test (front ++ x :: back) = some front.length := by
  have hcons : rposition test (x :: back) = some 0 := by
    simp [rposition, rposition_eq_none.mpr hback, hx]
  simpa using rposition_append_some front hcons

theorem rposition_split {test : α → Bool} {xs : List α} {i : ℕ} (h : rposition test xs = some i) :
    ∃ front x back, xs = front ++ x :: back ∧ front.length = i ∧ test x = true ∧
      ∀ y ∈ back, test y = false := by
  induction xs generalizing i with
  | nil => simp [rposition] at h
  | cons x xs ih =>
    cases hr : rposition test xs with
    | some j =>
      obtain ⟨front, y, back, rfl, hlen, hy, hback⟩ := ih hr
      have hi : i = j + 1 := by simpa [rposition, hr] using h.symm
      exact ⟨x :: front, y, back, rfl, by simp [hlen, hi], hy, hback⟩
    | none =>
      obtain ⟨hx, hi⟩ : test x = true ∧ 0 = i := by simpa [rposition, hr] using h
      exact ⟨[], x, xs, rfl, hi, hx, rposition_eq_none.mp hr⟩

theorem rposition_eq_some {test : α → Bool} {xs : List α} {i : ℕ} : rposition test xs = some i ↔
    ∃ x, xs[i]? = some x ∧ test x = true ∧ ∀ j y, i < j → xs[j]? = some y → test y = false := by
  constructor
  · intro h
    obtain ⟨front, x, back, rfl, rfl, hx, hback⟩ := rposition_split h
    refine ⟨x, by simp, hx, fun j y hj hy => ?_⟩
    rw [List.getElem?_append_right hj.le, List.getElem?_cons, if_neg (by omega)] at hy
    exact hback y (List.mem_of_getElem? hy)
  · rintro ⟨x, hx, htest, hlast⟩
    obtain ⟨hi, hget⟩ := List.getElem?_eq_some_iff.mp hx
    have hback : ∀ y ∈ xs.drop (i + 1), test y = false := by
      intro y hy
      obtain ⟨k, hk⟩ := List.getElem?_of_mem hy
      rw [List.getElem?_drop] at hk
      exact hlast (i + 1 + k) y (by omega) hk
    have hsplit : xs = xs.take i ++ x :: xs.drop (i + 1) := by
      rw [← hget, ← List.drop_eq_getElem_cons hi, List.take_append_drop]
    rw [hsplit, rposition_append_cons _ htest hback, List.length_take, Nat.min_eq_left hi.le]

theorem rposition_map {β : Type} (f : β → α) (test : α → Bool) (xs : List β) :
    rposition test (xs.map f) = rposition (fun x => test (f x)) xs := by
  induction xs with
  | nil => rfl
  | cons x xs ih => simp only [List.map_cons, rposition, ih]

theorem exists_last {test : α → Bool} {xs : List α} (h : ∃ x ∈ xs, test x = true) :
    ∃ front x back, xs = front ++ x :: back ∧ test x = true ∧ ∀ y ∈ back, test y = false := by
  cases hr : rposition test xs with
  | none =>
    obtain ⟨x, hx, ht⟩ := h
    simp [rposition_eq_none.mp hr x hx] at ht
  | some i =>
    obtain ⟨front, x, back, he, -, hx, hback⟩ := rposition_split hr
    exact ⟨front, x, back, he, hx, hback⟩

/-- An element of a chain is its last one or is followed by one it is related to. -/
theorem last_or_next {R : α → α → Prop} {xs : List α} (h : xs.IsChain R) {x : α} (hx : x ∈ xs) :
    xs.getLast? = some x ∨ ∃ y ∈ xs, R x y := by
  obtain ⟨front, back, rfl⟩ := List.append_of_mem hx
  cases back with
  | nil => simp
  | cons y back => exact Or.inr ⟨y, by simp, (List.isChain_append_cons_cons.mp h).2.1⟩

theorem exists_first {p : α → Prop} {xs : List α} (h : ∃ x ∈ xs, p x) :
    ∃ front x back, xs = front ++ x :: back ∧ p x ∧ ∀ y ∈ front, ¬ p y := by
  induction xs with
  | nil => simp at h
  | cons x xs ih =>
    by_cases hx : p x
    · exact ⟨[], x, xs, rfl, hx, by simp⟩
    · obtain ⟨y, hy, hp⟩ := h
      have hmem : y ∈ xs := (List.mem_cons.mp hy).resolve_left fun heq => hx (heq ▸ hp)
      obtain ⟨front, z, back, rfl, hz, hfront⟩ := ih ⟨y, hmem, hp⟩
      refine ⟨x :: front, z, back, rfl, hz, ?_⟩
      simpa using ⟨hx, hfront⟩

/-- Without repetition, what comes after an element is in the rest of the list. -/
theorem mem_after {xs before after front rest : List α} {x y : α} (hn : xs.Nodup) (hy : xs = before ++ y :: after)
    (hx : x ∈ before) (hsplit : xs = front ++ x :: rest) : y ∈ rest := by
  have hmem : y ∈ front ++ x :: rest := by
    rw [← hsplit, hy]
    simp
  rw [hy] at hn
  obtain ⟨-, hcons, hdisjoint⟩ := List.nodup_append.mp hn
  have hne : x ≠ y := hdisjoint x hx y (by simp)
  rcases List.mem_append.mp hmem with hfront | hrest
  · obtain ⟨first, second, rfl⟩ := List.append_of_mem hfront
    have heq : before ++ y :: after = first ++ y :: (second ++ x :: rest) := by
      rw [← hy, hsplit]
      simp
    have hbefore : y ∉ before := fun h => hdisjoint y h y (by simp) rfl
    obtain ⟨rfl, -, rfl⟩ := (List.append_cons_inj_of_notMem hbefore (List.nodup_cons.mp hcons).1).mp heq
    exact absurd rfl (hdisjoint x hx x (by simp))
  · exact (List.mem_cons.mp hrest).resolve_left (Ne.symm hne)

theorem pair_sublist {front : List α} {x : α} (h : x ∈ front) (y : α) (back : List α) :
    [x, y].Sublist (front ++ y :: back) :=
  (List.singleton_sublist.mpr h).append ((List.nil_sublist back).cons_cons y)

/-- An element is in the list before any place of another one. -/
def ComesFirst (xs : List α) (x y : α) : Prop := ∃ front back, xs = front ++ x :: back ∧ y ∉ front ∧ y ≠ x

theorem ComesFirst.of_filter {p : α → Bool} {xs : List α} {x y : α} (h : ComesFirst (xs.filter p) x y)
    (hy : p y = true) : ComesFirst xs x y := by
  obtain ⟨front, back, hsplit, hfront, hne⟩ := h
  obtain ⟨first, rest, rfl, rfl, hrest⟩ := List.filter_eq_append_iff.mp hsplit
  obtain ⟨between, after, rfl, hbetween, -, -⟩ := List.filter_eq_cons_iff.mp hrest
  refine ⟨first ++ between, after, by simp, fun hmem => ?_, hne⟩
  rcases List.mem_append.mp hmem with hmem | hmem
  · exact hfront (List.mem_filter.mpr ⟨hmem, hy⟩)
  · exact hbetween y hmem hy

theorem eraseDups_comesFirst [BEq α] [LawfulBEq α] (xs : List α) : xs.eraseDups.Pairwise (ComesFirst xs) := by
  induction hlength : xs.length using Nat.strong_induction_on generalizing xs with
  | h n ih =>
    cases xs with
    | nil => simp
    | cons x xs =>
      have hshorter : (xs.filter fun y => !y == x).length < n := by
        have hle := List.length_filter_le (fun y => !y == x) xs
        simp only [List.length_cons] at hlength
        omega
      have hother : ∀ y ∈ (xs.filter fun y => !y == x).eraseDups, y ≠ x := by
        intro y hy
        simpa using (List.mem_filter.mp (List.mem_eraseDups.mp hy)).2
      rw [List.eraseDups_cons]
      refine List.Pairwise.cons (fun y hy => ⟨[], xs, rfl, by simp, hother y hy⟩) ?_
      refine (ih _ hshorter _ rfl).imp_of_mem fun {y z} hy hz hfirst => ?_
      obtain ⟨front, back, rfl, hfront, hne⟩ := hfirst.of_filter (by simpa using hother z hz)
      exact ⟨x :: front, back, rfl, by simp [hfront, hother z hz], hne⟩

end Positions
