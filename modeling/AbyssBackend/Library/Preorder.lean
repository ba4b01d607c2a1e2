import Mathlib.Data.List.Basic
import Mathlib.Logic.Relation

/-! Depth-first traversals with a stack: each element popped is placed once, before its children. -/

namespace Preorder

variable {α : Type} [DecidableEq α] (children : α → List α)

def unplaced (placed : List α) (next : α) : List α := (children next).filter fun child => child ∉ placed

/-- Traversing the stack after what is placed gives the list. -/
inductive Forest : List α → List α → List α → Prop
  | nil (placed : List α) : Forest placed [] []
  | cons {placed stack below after : List α} {next : α} (new : next ∉ placed)
      (inner : Forest (placed ++ [next]) (unplaced children (placed ++ [next]) next) below)
      (rest : Forest (placed ++ next :: below) stack after) : Forest placed (next :: stack) (next :: (below ++ after))

variable {children} {placed stack result : List α}

theorem Forest.split {front back : List α} (h : Forest children placed (front ++ back) result) :
    ∃ below after, result = below ++ after ∧ Forest children placed front below ∧
      Forest children (placed ++ below) back after := by
  induction front generalizing placed result with
  | nil => exact ⟨[], result, rfl, .nil placed, by simpa using h⟩
  | cons next front ih =>
    obtain _ | ⟨new, inner, rest⟩ := h
    obtain ⟨below', after', rfl, hfront, hback⟩ := ih rest
    refine ⟨_, after', by simp, .cons new inner hfront, ?_⟩
    simpa using hback

theorem Forest.sublist (h : Forest children placed stack result) : stack.Sublist result := by
  induction h with
  | nil => exact .slnil
  | cons _ _ _ _ ih => exact (ih.trans (List.sublist_append_right _ _)).cons_cons _

theorem Forest.descends (h : Forest children placed stack result) :
    ∀ x ∈ result, ∃ s ∈ stack, Relation.ReflTransGen (fun x p => x ∈ children p) x s := by
  induction h with
  | nil => simp
  | @cons placed stack below after next _ _ _ ihinner ihrest =>
    intro x hx
    rcases List.mem_cons.mp hx with rfl | hx
    · exact ⟨x, by simp, .refl⟩
    rcases List.mem_append.mp hx with hx | hx
    · obtain ⟨s, hs, hpath⟩ := ihinner x hx
      exact ⟨next, by simp, hpath.tail (List.mem_of_mem_filter hs)⟩
    · obtain ⟨s, hs, hpath⟩ := ihrest x hx
      exact ⟨s, by simp [hs], hpath⟩

theorem Forest.closed (h : Forest children placed stack result) :
    ∀ p ∈ result, ∀ x ∈ children p, x ∈ placed ++ result := by
  induction h with
  | nil => simp
  | @cons placed stack below after next _ inner _ ihinner ihrest =>
    intro p hp x hx
    rcases List.mem_cons.mp hp with rfl | hp
    · by_cases hplaced : x ∈ placed ++ [p]
      · simp only [List.mem_append, List.mem_cons, List.not_mem_nil, or_false] at hplaced ⊢
        exact hplaced.imp_right Or.inl
      · have hbelow := inner.sublist.subset (List.mem_filter.mpr ⟨hx, decide_eq_true hplaced⟩)
        simp [hbelow]
    rcases List.mem_append.mp hp with hp | hp
    · have hmem := ihinner p hp x hx
      simp only [List.mem_append, List.mem_cons, List.not_mem_nil, or_false] at hmem ⊢
      tauto
    · have hmem := ihrest p hp x hx
      simp only [List.mem_append, List.mem_cons] at hmem ⊢
      tauto

/-- Whatever the stack did not hold comes after its parent. -/
theorem Forest.led (h : Forest children placed stack result) :
    ∀ front x back, result = front ++ x :: back → x ∈ stack ∨ ∃ p ∈ front, x ∈ children p := by
  induction h with
  | nil => simp
  | @cons placed stack below after next _ _ _ ihinner ihrest =>
    intro front x back hsplit
    cases front with
    | nil => exact Or.inl (by simp [(List.cons.inj hsplit).1])
    | cons head front =>
      obtain ⟨rfl, htail⟩ := List.cons.inj (List.cons_append ▸ hsplit)
      rcases List.append_eq_append_iff.mp htail with ⟨between, rfl, hafter⟩ | ⟨between, rfl, hbelow⟩
      · rcases ihrest between x back hafter with hstack | ⟨p, hp, hchild⟩
        · exact Or.inl (by simp [hstack])
        · exact Or.inr ⟨p, by simp [hp], hchild⟩
      · cases between with
        | nil =>
          rcases ihrest [] x back (by simpa using hbelow.symm) with hstack | ⟨p, hp, -⟩
          · exact Or.inl (by simp [hstack])
          · simp at hp
        | cons y between =>
          obtain ⟨rfl, -⟩ := List.cons.inj hbelow
          rcases ihinner front x between rfl with hchildren | ⟨p, hp, hchild⟩
          · exact Or.inr ⟨next, by simp, List.mem_of_mem_filter hchildren⟩
          · exact Or.inr ⟨p, by simp [hp], hchild⟩

/-- An element is followed by the traversal of its own children. -/
theorem Forest.block (h : Forest children placed stack result) :
    ∀ p ∈ result, ∃ front block back, result = front ++ p :: (block ++ back) ∧
      Forest children (placed ++ front ++ [p]) (unplaced children (placed ++ front ++ [p]) p) block := by
  induction h with
  | nil => simp
  | @cons placed stack below after next _ inner _ ihinner ihrest =>
    intro p hp
    rcases List.mem_cons.mp hp with rfl | hp
    · exact ⟨[], below, after, rfl, by simpa using inner⟩
    rcases List.mem_append.mp hp with hp | hp
    · obtain ⟨front, block, back, rfl, hblock⟩ := ihinner p hp
      exact ⟨next :: front, block, back ++ after, by simp, by simpa using hblock⟩
    · obtain ⟨front, block, back, rfl, hblock⟩ := ihrest p hp
      exact ⟨next :: (below ++ front), block, back, by simp, by simpa using hblock⟩

end Preorder
