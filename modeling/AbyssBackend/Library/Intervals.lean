import Mathlib.Data.List.Chain
import Mathlib.Data.List.Pairwise
import Mathlib.Order.Lattice

/-! Half-open intervals that follow each other. -/

namespace Intervals

variable {ι τ : Type} [LinearOrder τ]

def Holds (start stop : ι → τ) (x : ι) (t : τ) : Prop := start x ≤ t ∧ t < stop x

/-- Each interval starts where the one before it stops. -/
def Contiguous (start stop : ι → τ) (xs : List ι) : Prop := xs.IsChain fun x y => stop x = start y

variable {start stop : ι → τ} {xs : List ι} {x y : ι} {t : τ}

theorem Contiguous.ordered (h : Contiguous start stop xs) (hxs : ∀ x ∈ xs, start x ≤ stop x) :
    xs.Pairwise fun x y => stop x ≤ start y := by
  induction xs with
  | nil => exact .nil
  | cons x xs ih =>
    have hrest := ih h.of_cons fun y hy => hxs y (List.mem_cons_of_mem x hy)
    refine .cons (fun z hz => ?_) hrest
    cases xs with
    | nil => cases hz
    | cons y ys =>
      have hnext : stop x = start y := h.rel
      obtain rfl | hz := List.mem_cons.mp hz
      · exact hnext.le
      · have hy : start y ≤ stop y := hxs y (List.mem_cons_of_mem x List.mem_cons_self)
        exact hnext.le.trans (hy.trans (List.rel_of_pairwise_cons hrest hz))

theorem eq_of_holds (h : xs.Pairwise fun x y => stop x ≤ start y) (hx : x ∈ xs) (hy : y ∈ xs)
    (htx : Holds start stop x t) (hty : Holds start stop y t) : x = y := by
  induction xs with
  | nil => cases hx
  | cons z xs ih =>
    obtain ⟨hlater, hrest⟩ := List.pairwise_cons.mp h
    obtain rfl | hx' := List.mem_cons.mp hx
    · obtain rfl | hy' := List.mem_cons.mp hy
      · rfl
      · exact absurd (htx.2.trans_le ((hlater y hy').trans hty.1)) (lt_irrefl t)
    · obtain rfl | hy' := List.mem_cons.mp hy
      · exact absurd (hty.2.trans_le ((hlater x hx').trans htx.1)) (lt_irrefl t)
      · exact ih hrest hx' hy'

theorem Contiguous.first_le (h : Contiguous start stop xs) (hxs : ∀ x ∈ xs, start x ≤ stop x) {first : ι}
    (hfirst : first ∈ xs.head?) (hx : x ∈ xs) : start first ≤ start x := by
  cases xs with
  | nil => cases hx
  | cons y ys =>
    obtain rfl := Option.some.inj hfirst
    obtain rfl | hlater := List.mem_cons.mp hx
    · exact le_refl _
    · exact (hxs y List.mem_cons_self).trans (List.rel_of_pairwise_cons (h.ordered hxs) hlater)

theorem Contiguous.le_last (h : Contiguous start stop xs) (hxs : ∀ x ∈ xs, start x ≤ stop x) {last : ι}
    (hlast : last ∈ xs.getLast?) (hx : x ∈ xs) : stop x ≤ stop last := by
  obtain ⟨front, rfl⟩ := List.getLast?_eq_some_iff.mp hlast
  obtain hfront | hsame := List.mem_append.mp hx
  · have hordered := (List.pairwise_append.mp (h.ordered hxs)).2.2 x hfront last (List.mem_singleton.mpr rfl)
    exact hordered.trans (hxs last (List.mem_append_right _ (List.mem_singleton.mpr rfl)))
  · rw [List.mem_singleton.mp hsame]

/-- Each point from the first start to the last stop is in one. -/
theorem Contiguous.covers (h : Contiguous start stop xs) {first last : ι} (hfirst : first ∈ xs.head?)
    (hlast : last ∈ xs.getLast?) (hstart : start first ≤ t) (hstop : t < stop last) :
    ∃ x ∈ xs, Holds start stop x t := by
  induction xs generalizing first with
  | nil => cases hfirst
  | cons x xs ih =>
    obtain rfl := Option.some.inj hfirst
    by_cases hwithin : t < stop x
    · exact ⟨x, List.mem_cons_self, hstart, hwithin⟩
    · cases xs with
      | nil =>
        obtain rfl := Option.some.inj hlast
        exact absurd hstop hwithin
      | cons y ys =>
        have hnext : stop x = start y := h.rel
        obtain ⟨z, hz, hholds⟩ := ih h.of_cons rfl hlast (hnext ▸ not_lt.mp hwithin)
        exact ⟨z, List.mem_cons_of_mem x hz, hholds⟩

end Intervals
