import Mathlib.Data.List.Infix
import Mathlib.Data.Nat.Notation

/-! Markers in texts: where the first one is, and when two cannot overlap. -/

namespace Markers

variable {α : Type} {m m' text front back rest : List α}

/-- No end of the first marker starts the second one, and no start of it ends that. -/
structure Separate (m m' : List α) : Prop where
  ends : ∀ front back, m = front ++ back → front ≠ [] → back ≠ [] → ¬ back <+: m'
  starts : ∀ front back, m = front ++ back → front ≠ [] → back ≠ [] → ¬ front <:+ m'

theorem separate_of_forall (h : ∀ k < m.length, 0 < k → ¬ m.drop k <+: m' ∧ ¬ m.take k <:+ m') : Separate m m' := by
  have hsplit : ∀ front back, m = front ++ back → front ≠ [] → back ≠ [] →
      ¬ back <+: m' ∧ ¬ front <:+ m' := by
    rintro front back rfl hfront hback
    have hlength : front.length < (front ++ back).length := by
      rw [List.length_append]
      exact Nat.lt_add_of_pos_right (List.length_pos_iff.mpr hback)
    have hboth := h front.length hlength (List.length_pos_iff.mpr hfront)
    rw [List.drop_left, List.take_left] at hboth
    exact hboth
  exact ⟨fun front back hm hfront hback => (hsplit front back hm hfront hback).1,
    fun front back hm hfront hback => (hsplit front back hm hfront hback).2⟩

theorem not_prefix_append (h : Separate m m) (hfront : front ≠ []) (hnone : ¬ m <+: front) (back : List α) :
    ¬ m <+: front ++ (m ++ back) := by
  rintro ⟨rest, hsplit⟩
  obtain ⟨beyond, hover, -⟩ | ⟨beyond, hm, hover⟩ := List.append_eq_append_iff.mp hsplit
  · exact hnone ⟨beyond, hover.symm⟩
  · by_cases hempty : beyond = []
    · rw [hempty, List.append_nil] at hm
      exact hnone (hm ▸ List.prefix_rfl)
    · apply h.ends front beyond hm hfront hempty
      have hpre : beyond <+: m ++ back := ⟨rest, hover.symm⟩
      have hlength : beyond.length ≤ m.length := by
        rw [hm, List.length_append]
        exact Nat.le_add_left _ _
      exact List.prefix_of_prefix_length_le hpre (List.prefix_append m back) hlength

variable [DecidableEq α]

/-- Where a marker is first found. -/
def find (m : List α) : List α → Option ℕ
  | [] => if m = [] then some 0 else none
  | c :: text => if m <+: c :: text then some 0 else (find m text).map (· + 1)

theorem find_eq_none (hm : m ≠ []) : find m text = none ↔ ¬ m <:+: text := by
  induction text with
  | nil => simp [find, hm]
  | cons c text ih =>
    rw [find, List.infix_cons_iff, not_or]
    by_cases hpre : m <+: c :: text
    · simp [hpre]
    · rw [if_neg hpre, Option.map_eq_none_iff, ih, and_iff_right hpre]

theorem find_split {k : ℕ} (hm : m ≠ []) (h : find m text = some k) :
    ∃ front back, text = front ++ (m ++ back) ∧ front.length = k ∧ ¬ m <:+: front := by
  induction text generalizing k with
  | nil =>
    rw [find, if_neg hm] at h
    cases h
  | cons c text ih =>
    rw [find] at h
    by_cases hpre : m <+: c :: text
    · rw [if_pos hpre] at h
      cases h
      obtain ⟨back, hback⟩ := hpre
      exact ⟨[], back, hback.symm, rfl, fun hin => hm (List.infix_nil.mp hin)⟩
    · rw [if_neg hpre] at h
      obtain ⟨k, hk, rfl⟩ := Option.map_eq_some_iff.mp h
      obtain ⟨front, back, rfl, rfl, hnone⟩ := ih hk
      refine ⟨c :: front, back, rfl, rfl, fun hin => ?_⟩
      obtain hstart | hlater := List.infix_cons_iff.mp hin
      · exact hpre (hstart.trans (List.prefix_append (c :: front) (m ++ back)))
      · exact hnone hlater

theorem find_le {j : ℕ} (h : m <+: text.drop j) : ∃ k ≤ j, find m text = some k := by
  induction text generalizing j with
  | nil =>
    rw [List.drop_nil, List.prefix_nil] at h
    exact ⟨0, Nat.zero_le j, by rw [find, if_pos h]⟩
  | cons c text ih =>
    by_cases hpre : m <+: c :: text
    · exact ⟨0, Nat.zero_le j, by rw [find, if_pos hpre]⟩
    · cases j with
      | zero => exact absurd h hpre
      | succ j =>
        obtain ⟨k, hk, hfind⟩ := ih h
        exact ⟨k + 1, Nat.succ_le_succ hk, by rw [find, if_neg hpre, hfind]; rfl⟩

theorem find_append (hm : m ≠ []) (h : Separate m m) (hfront : ¬ m <:+: front) (back : List α) :
    find m (front ++ (m ++ back)) = some front.length := by
  induction front with
  | nil =>
    obtain ⟨c, m, rfl⟩ := List.exists_cons_of_ne_nil hm
    rw [List.nil_append, List.cons_append, find, if_pos]
    · rfl
    · exact List.prefix_append (c :: m) back
  | cons c front ih =>
    rw [List.infix_cons_iff, not_or] at hfront
    have hnot := not_prefix_append h (List.cons_ne_nil c front) hfront.1 back
    rw [List.cons_append] at hnot ⊢
    rw [find, if_neg hnot, ih hfront.2]
    rfl

/-- What follows a marker at the start of a text. -/
def stripPrefix (m text : List α) : Option (List α) := if m <+: text then some (text.drop m.length) else none

theorem stripPrefix_append (m rest : List α) : stripPrefix m (m ++ rest) = some rest := by
  rw [stripPrefix, if_pos (List.prefix_append m rest), List.drop_left]

theorem stripPrefix_eq_some (h : stripPrefix m text = some rest) : text = m ++ rest := by
  unfold stripPrefix at h
  split_ifs at h with hpre
  cases h
  obtain ⟨rest, rfl⟩ := hpre
  rw [List.drop_left]

end Markers
