import Mathlib.Data.List.Basic
import Mathlib.Data.List.Sort

/-! Reading a list page by page, while it may change from one page to the next. -/

namespace Paging

def pageAt {α : Type} (size offset : ℕ) (xs : List α) : List α := (xs.drop offset).take size

/-- The pages from a position on, each read where the one before ended, or at the highest position there is. `R` is how
the list may change between two of them. -/
inductive Walk {α : Type} (R : List α → List α → Prop) (size top : ℕ) : ℕ → List α → List α → List α → Prop
  | last {offset : ℕ} {xs : List α} (hend : xs.length ≤ offset + size) :
      Walk R size top offset xs (pageAt size offset xs) xs
  | next {offset : ℕ} {xs ys seen final : List α} (hmore : offset + size < xs.length) (hchange : R xs ys)
      (hrest : Walk R size top (min (offset + size) top) ys seen final) :
      Walk R size top offset xs (pageAt size offset xs ++ seen) final

section Pages

variable {α : Type} {R : List α → List α → Prop} {size top offset : ℕ} {xs seen final : List α}

theorem pageAt_append_drop (size offset : ℕ) (xs : List α) :
    pageAt size offset xs ++ xs.drop (offset + size) = xs.drop offset := by
  rw [pageAt, ← List.drop_drop, List.take_append_drop]

theorem pageAt_all (h : xs.length ≤ offset + size) : pageAt size offset xs = xs.drop offset := by
  apply List.take_of_length_le
  rw [List.length_drop]
  omega

theorem pageAt_subset (size offset : ℕ) (xs : List α) : pageAt size offset xs ⊆ xs := by
  intro x hx
  apply List.mem_of_mem_drop
  exact List.mem_of_mem_take hx

/-- Nothing is missed in a list that only gains elements, wherever it gains them. -/
theorem Walk.covers (hgains : ∀ xs ys, R xs ys → xs.Sublist ys) (h : Walk R size top offset xs seen final) :
    (xs.drop offset).Sublist seen := by
  induction h with
  | last hend => rw [pageAt_all hend]
  | @next offset xs ys seen final hmore hchange hrest ih =>
    rw [← pageAt_append_drop size offset xs]
    apply List.Sublist.append_left
    have hgained : (xs.drop (offset + size)).Sublist (ys.drop (offset + size)) := (hgains xs ys hchange).drop _
    have hbefore : (ys.drop (offset + size)).Sublist (ys.drop (min (offset + size) top)) := by
      apply List.drop_sublist_drop_left
      omega
    exact (hgained.trans hbefore).trans ih

/-- Nothing is seen that is not there at the end. -/
theorem Walk.seen_subset (hgains : ∀ xs ys, R xs ys → xs.Sublist ys) (h : Walk R size top offset xs seen final) :
    xs.Sublist final ∧ seen ⊆ final := by
  induction h with
  | @last offset xs hend => exact ⟨List.Sublist.refl _, pageAt_subset size offset xs⟩
  | @next offset xs ys seen final hmore hchange hrest ih =>
    obtain ⟨hkept, hseen⟩ := ih
    have hfinal := (hgains xs ys hchange).trans hkept
    refine ⟨hfinal, List.append_subset.mpr ⟨fun x hx => ?_, hseen⟩⟩
    exact hfinal.subset (pageAt_subset size offset xs hx)

/-- The pages of a list that stays as it is are the list from the position on. -/
theorem Walk.still (h : Walk Eq size top offset xs seen final) (htop : xs.length ≤ top) : seen = xs.drop offset := by
  induction h with
  | last hend => exact pageAt_all hend
  | @next offset xs ys seen final hmore hchange hrest ih =>
    subst hchange
    have hbelow : min (offset + size) top = offset + size := by omega
    rw [ih htop, hbelow, pageAt_append_drop]

theorem Walk.ends (hsize : 0 < size) (htop : xs.length ≤ top) (offset : ℕ) :
    ∃ seen, Walk Eq size top offset xs seen xs := by
  induction hleft : xs.length - offset using Nat.strong_induction_on generalizing offset with
  | _ left ih =>
    by_cases hend : xs.length ≤ offset + size
    · exact ⟨_, .last hend⟩
    · have hmore : offset + size < xs.length := by omega
      have hbelow : min (offset + size) top = offset + size := by omega
      obtain ⟨seen, hseen⟩ := ih (xs.length - (offset + size)) (by omega) (offset + size) rfl
      rw [← hbelow] at hseen
      exact ⟨_, .next hmore rfl hseen⟩

end Pages

end Paging
