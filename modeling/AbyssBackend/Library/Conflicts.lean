import Mathlib.Data.List.Basic

/-! Inserts that skip a key that is taken. -/

namespace Conflicts

variable {κ : Type} [DecidableEq κ]

/-- Which of the keys are new when they are inserted one after another. -/
def inserted (taken : List κ) : List κ → List Bool
  | [] => []
  | key :: keys => decide (key ∉ taken) :: inserted (key :: taken) keys

theorem inserted_congr {taken taken' : List κ} (h : ∀ key, key ∈ taken ↔ key ∈ taken') (keys : List κ) :
    inserted taken keys = inserted taken' keys := by
  induction keys generalizing taken taken' with
  | nil => rfl
  | cons key keys ih =>
    have hsame : decide (key ∉ taken) = decide (key ∉ taken') := decide_eq_decide.mpr (not_congr (h key))
    have hcons : ∀ other, other ∈ key :: taken ↔ other ∈ key :: taken' := fun other => by simp [h]
    rw [inserted, inserted, hsame, ih hcons]

theorem inserted_cons {taken after : List κ} {key : κ} {new : Bool} (hnew : new = true ↔ key ∉ taken)
    (hafter : ∀ other, other ∈ after ↔ other = key ∨ other ∈ taken) (keys : List κ) :
    inserted taken (key :: keys) = new :: inserted after keys := by
  have hflag : decide (key ∉ taken) = new := Bool.eq_iff_iff.mpr (decide_eq_true_iff.trans hnew.symm)
  rw [inserted, hflag, inserted_congr fun other => List.mem_cons.trans (hafter other).symm]

theorem inserted_length (taken keys : List κ) : (inserted taken keys).length = keys.length := by
  induction keys generalizing taken with
  | nil => rfl
  | cons key keys ih => rw [inserted, List.length_cons, List.length_cons, ih]

variable {α : Type} (key : α → κ)

/-- The items that are skipped were in the base exactly where no two items meet outside it. -/
theorem skipped_iff (taken base : List κ) (items : List α) :
    (∀ item ∈ items.zip (inserted taken (items.map key)), item.2 = false → key item.1 ∈ base) ↔
      (items.Pairwise fun x y => key x = key y → key x ∈ base) ∧ ∀ x ∈ items, key x ∈ taken → key x ∈ base := by
  induction items generalizing taken with
  | nil => simp [inserted]
  | cons x items ih =>
    rw [List.map_cons, inserted, List.zip_cons_cons, List.forall_mem_cons, ih, List.pairwise_cons, List.forall_mem_cons]
    simp only [decide_eq_false_iff_not, not_not, List.mem_cons]
    constructor
    · rintro ⟨hx, hpairwise, hrest⟩
      refine ⟨⟨fun y hy hsame => ?_, hpairwise⟩, hx, fun y hy h => hrest y hy (Or.inr h)⟩
      exact hsame ▸ hrest y hy (Or.inl hsame.symm)
    · rintro ⟨⟨hfirst, hpairwise⟩, hx, hrest⟩
      refine ⟨hx, hpairwise, fun y hy h => ?_⟩
      rcases h with hsame | htaken
      · exact hsame ▸ hfirst y hy hsame.symm
      · exact hrest y hy htaken

theorem skipped_iff_apart (base : List κ) (items : List α) :
    (∀ item ∈ items.zip (inserted base (items.map key)), item.2 = false → key item.1 ∈ base) ↔
      items.Pairwise fun x y => key x = key y → key x ∈ base := by
  rw [skipped_iff]
  exact and_iff_left fun _ _ h => h

end Conflicts
