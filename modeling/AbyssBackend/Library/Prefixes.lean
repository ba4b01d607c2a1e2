import Mathlib.Algebra.BigOperators.Group.List.Basic
import Mathlib.Algebra.GroupWithZero.Nat
import Mathlib.Algebra.Order.BigOperators.Group.List
import Mathlib.Data.List.Infix

/-! Prefixes of lists whose elements have weights. -/

namespace Prefixes

variable {α : Type} (weight : α → ℕ)

def total (xs : List α) : ℕ := (xs.map weight).sum

/-- The longest prefix within a limit. -/
structure Longest (limit : ℕ) (xs kept : List α) : Prop where
  isPrefix : kept <+: xs
  fits : total weight kept ≤ limit
  longest : ∀ other, other <+: xs → total weight other ≤ limit → other <+: kept

def takeWithin (limit : ℕ) : ℕ → List α → List α
  | _, [] => []
  | used, x :: xs => if used + weight x > limit then [] else x :: takeWithin limit (used + weight x) xs

variable {weight} {limit used : ℕ} {xs ys kept kept' : List α}

theorem total_cons (x : α) (xs : List α) : total weight (x :: xs) = weight x + total weight xs := by
  rw [total, List.map_cons, List.sum_cons, total]

theorem takeWithin_prefix : takeWithin weight limit used xs <+: xs := by
  induction xs generalizing used with
  | nil => exact List.prefix_rfl
  | cons x xs ih =>
    rw [takeWithin]
    split
    · exact List.nil_prefix
    · exact (List.prefix_cons_inj x).mpr ih

theorem takeWithin_fits (h : used ≤ limit) : used + total weight (takeWithin weight limit used xs) ≤ limit := by
  induction xs generalizing used with
  | nil => exact h
  | cons x xs ih =>
    rw [takeWithin]
    split
    · exact h
    · have hrest := @ih (used + weight x) (by omega)
      rw [total_cons]
      omega

theorem prefix_takeWithin (h : ys <+: xs) (hfits : used + total weight ys ≤ limit) :
    ys <+: takeWithin weight limit used xs := by
  induction xs generalizing used ys with
  | nil => exact h
  | cons x xs ih =>
    cases ys with
    | nil => exact List.nil_prefix
    | cons y ys =>
      obtain ⟨rfl, hrest⟩ := List.cons_prefix_cons.mp h
      rw [total_cons] at hfits
      rw [takeWithin, if_neg (by omega)]
      apply (List.prefix_cons_inj y).mpr
      apply ih hrest
      omega

theorem takeWithin_longest : Longest weight limit xs (takeWithin weight limit 0 xs) where
  isPrefix := takeWithin_prefix
  fits := by
    have hfits := @takeWithin_fits _ weight limit 0 xs (Nat.zero_le limit)
    omega
  longest := fun other hprefix hfits => prefix_takeWithin hprefix (by omega)

theorem Longest.unique (h : Longest weight limit xs kept) (h' : Longest weight limit xs kept') : kept = kept' := by
  apply List.IsPrefix.eq_of_length_le
  · exact h'.longest kept h.isPrefix h.fits
  · exact (h.longest kept' h'.isPrefix h'.fits).length_le

/-- What is within the limit is kept whole. -/
theorem longest_self (h : total weight xs ≤ limit) : Longest weight limit xs xs :=
  ⟨List.prefix_rfl, h, fun _ hprefix _ => hprefix⟩

end Prefixes
