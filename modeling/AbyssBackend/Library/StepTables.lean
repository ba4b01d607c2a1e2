import Mathlib.Algebra.Order.Ring.Int
import Mathlib.Data.List.Basic

/-! Functions of integers that change now and then, and tables of where they change. -/

namespace StepTables

variable {α β : Type} {f : ℤ → α}

def Changes (f : ℤ → α) (s : ℤ) : Prop := f s ≠ f (s - 1)

/-- Changes are at least a gap apart. -/
def Apart (gap : ℤ) (f : ℤ → α) : Prop := ∀ s s', s < s' → Changes f s → Changes f s' → gap ≤ s' - s

theorem constant {low high : ℤ} (h : ∀ s, low < s → s ≤ high → ¬ Changes f s) {s : ℤ} (hlow : low ≤ s)
    (hhigh : s ≤ high) : f s = f low := by
  induction s, hlow using Int.leInduction with
  | base => rfl
  | succ s hlow ih =>
    have hsame : f (s + 1) = f (s + 1 - 1) := not_not.mp (h (s + 1) (by omega) hhigh)
    rw [hsame, add_sub_cancel_right]
    exact ih (by omega)

theorem exists_change {low high : ℤ} (h : low ≤ high) (hdiffers : f high ≠ f low) :
    ∃ s, low < s ∧ s ≤ high ∧ Changes f s := by
  by_contra hnone
  push Not at hnone
  exact hdiffers (constant (fun s hlow hhigh => hnone s hlow hhigh) h (le_refl high))

namespace Apart

variable {gap low high : ℤ}

theorem constant_after (h : Apart gap f) {s : ℤ} (hs : Changes f s) (hwithin : high - s < gap) {t : ℤ} (hst : s ≤ t)
    (hth : t ≤ high) : f t = f s := by
  apply @constant _ _ s high ?_ t hst hth
  intro x hx hxh hchange
  have hgap := h s x hx hs hchange
  omega

theorem constant_before (h : Apart gap f) {s : ℤ} (hs : Changes f s) (hwithin : s - low ≤ gap) {t : ℤ} (hlt : low ≤ t)
    (hts : t < s) : f t = f low := by
  apply @constant _ _ low (s - 1) ?_ t hlt (by omega)
  intro x hx hxs hchange
  have hgap := h x s (by omega) hchange hs
  omega

/-- Between equal values no further apart than the gap nothing changes. -/
theorem constant_between (h : Apart gap f) (hwithin : high - low ≤ gap) (hsame : f high = f low) {t : ℤ}
    (hlt : low ≤ t) (hth : t ≤ high) : f t = f low := by
  apply @constant _ _ low high ?_ t hlt hth
  intro s hls hsh hchange
  have hafter := h.constant_after hchange (by omega) hsh (le_refl high)
  have hbefore := h.constant_before hchange (by omega : s - low ≤ gap) (by omega : low ≤ s - 1) (by omega)
  apply hchange
  rw [hbefore, ← hsame, hafter]

/-- Between two values no further apart than the gap there is one change. -/
theorem one_change (h : Apart gap f) (hlh : low < high) (hwithin : high - low ≤ gap) (hdiffers : f high ≠ f low) :
    ∃ s, low < s ∧ s ≤ high ∧ Changes f s ∧ (∀ t, low ≤ t → t < s → f t = f low) ∧
      ∀ t, s ≤ t → t ≤ high → f t = f high := by
  obtain ⟨s, hls, hsh, hchange⟩ := exists_change hlh.le hdiffers
  have hafter : ∀ t, s ≤ t → t ≤ high → f t = f s := fun t => h.constant_after hchange (by omega)
  refine ⟨s, hls, hsh, hchange, fun t => h.constant_before hchange (by omega), fun t hst hth => ?_⟩
  rw [hafter t hst hth, hafter high hsh (le_refl high)]

end Apart

/-- The last entry of a table that starts by a time has a value. -/
def LastAt (table : List (ℤ × α)) (t : ℤ) (value : α) : Prop :=
  ∃ front start back, table = front ++ (start, value) :: back ∧ start ≤ t ∧ ∀ entry ∈ back, t < entry.1

namespace LastAt

variable {table : List (ℤ × α)} {start t : ℤ} {value other : α}

theorem cons (h : LastAt table t value) (entry : ℤ × α) : LastAt (entry :: table) t value := by
  obtain ⟨front, start, back, rfl, hstart, hback⟩ := h
  exact ⟨entry :: front, start, back, rfl, hstart, hback⟩

theorem head (h : start ≤ t) (hafter : ∀ entry ∈ table, t < entry.1) : LastAt ((start, value) :: table) t value :=
  ⟨[], start, table, rfl, h, hafter⟩

theorem earlier (h : LastAt ((start, other) :: table) t value) {sooner : ℤ} (hsooner : sooner ≤ start) :
    LastAt ((sooner, other) :: table) t value := by
  obtain ⟨front, first, back, hsplit, hfirst, hback⟩ := h
  cases front with
  | nil =>
    cases hsplit
    exact head (hsooner.trans hfirst) hback
  | cons entry front =>
    cases hsplit
    exact ⟨(sooner, other) :: front, first, back, rfl, hfirst, hback⟩

theorem map (h : LastAt table t value) {scale : ℤ → ℤ} {g : α → β} {u : ℤ}
    (hscale : ∀ entry ∈ table, scale entry.1 ≤ u ↔ entry.1 ≤ t) :
    LastAt (table.map fun entry => (scale entry.1, g entry.2)) u (g value) := by
  obtain ⟨front, start, back, rfl, hstart, hback⟩ := h
  refine ⟨front.map fun entry => (scale entry.1, g entry.2), scale start,
    back.map fun entry => (scale entry.1, g entry.2), by simp, (hscale (start, value) (by simp)).mpr hstart, ?_⟩
  intro entry hentry
  obtain ⟨entry, hmem, rfl⟩ := List.mem_map.mp hentry
  have hlater := hback entry hmem
  have hiff := hscale entry (by simp [hmem])
  simp only
  omega

end LastAt

/-- A table of the values of a function from a time on up to another. -/
structure TableOf (f : ℤ → α) (first last : ℤ) (table : List (ℤ × α)) : Prop where
  changes : ∀ entry ∈ table, first < entry.1 ∧ Changes f entry.1
  lastAt : ∀ t, first ≤ t → t ≤ last → LastAt ((first, f first) :: table) t (f t)

namespace TableOf

variable {gap first next last : ℤ} {table : List (ℤ × α)}

theorem nil (h : last ≤ first) : TableOf f first last [] := by
  refine ⟨by simp, fun t hft htl => ?_⟩
  have hsame : t = first := by omega
  rw [hsame]
  exact .head (le_refl first) (by simp)

theorem skip (h : TableOf f next last table) (hapart : Apart gap f) (hnext : first < next)
    (hwithin : next - first ≤ gap) (hsame : f next = f first) : TableOf f first last table := by
  refine ⟨fun entry hentry => ?_, fun t hft htl => ?_⟩
  · obtain ⟨hlater, hchange⟩ := h.changes entry hentry
    exact ⟨by omega, hchange⟩
  · by_cases hnt : next ≤ t
    · rw [← hsame]
      exact (h.lastAt t hnt htl).earlier hnext.le
    · rw [hapart.constant_between hwithin hsame hft (by omega)]
      refine .head hft fun entry hentry => ?_
      have hlater := (h.changes entry hentry).1
      omega

theorem change (h : TableOf f next last table) (hnext : first < next) (hchange : Changes f next)
    (hbefore : ∀ t, first ≤ t → t < next → f t = f first) : TableOf f first last ((next, f next) :: table) := by
  refine ⟨List.forall_mem_cons.mpr ⟨⟨hnext, hchange⟩, fun entry hentry => ?_⟩, fun t hft htl => ?_⟩
  · obtain ⟨hlater, hother⟩ := h.changes entry hentry
    exact ⟨by omega, hother⟩
  · by_cases hnt : next ≤ t
    · exact (h.lastAt t hnt htl).cons _
    · rw [hbefore t hft (by omega)]
      refine .head hft (List.forall_mem_cons.mpr ⟨by omega, fun entry hentry => ?_⟩)
      have hlater := (h.changes entry hentry).1
      omega

end TableOf

end StepTables
