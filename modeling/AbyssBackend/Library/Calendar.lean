import Mathlib.Algebra.Ring.Int.Defs
import Mathlib.Logic.Function.Iterate

/-! The proleptic Gregorian calendar, day by day from 1970-01-01. -/

namespace Calendar

structure Date where
  year : ℤ
  month : ℤ
  day : ℤ
deriving DecidableEq, Repr

def isLeap (year : ℤ) : Bool := year % 4 = 0 && (year % 100 ≠ 0 || year % 400 = 0)

def daysInMonth (year month : ℤ) : ℤ :=
  if month = 2 then if isLeap year then 29 else 28
  else if month = 4 ∨ month = 6 ∨ month = 9 ∨ month = 11 then 30
  else 31

namespace Date

def next (date : Date) : Date :=
  if date.day < daysInMonth date.year date.month then ⟨date.year, date.month, date.day + 1⟩
  else if date.month < 12 then ⟨date.year, date.month + 1, 1⟩
  else ⟨date.year + 1, 1, 1⟩

def previous (date : Date) : Date :=
  if 1 < date.day then ⟨date.year, date.month, date.day - 1⟩
  else if 1 < date.month then ⟨date.year, date.month - 1, daysInMonth date.year (date.month - 1)⟩
  else ⟨date.year - 1, 12, 31⟩

end Date

def epoch : Date := ⟨1970, 1, 1⟩

/-- The date of a day counted from 1970-01-01. -/
def dateOf : ℤ → Date
  | .ofNat n => Date.next^[n] epoch
  | .negSucc n => Date.previous^[n + 1] epoch

structure Date.Valid (date : Date) : Prop where
  month : 1 ≤ date.month ∧ date.month ≤ 12
  day : 1 ≤ date.day ∧ date.day ≤ daysInMonth date.year date.month

/-- The years that start in March, the month among them and the day of the year. -/
def Date.marchYear (date : Date) : ℤ := if date.month ≤ 2 then date.year - 1 else date.year

def Date.marchMonth (date : Date) : ℤ := if date.month ≤ 2 then date.month + 9 else date.month - 3

def daysBeforeYear (year : ℤ) : ℤ := 365 * year + year / 4 - year / 100 + year / 400

def daysBeforeMonth (month : ℤ) : ℤ := (153 * month + 2) / 5

/-- Days from 1970-01-01, which is 719468 days after 0000-03-01. -/
def Date.number (date : Date) : ℤ :=
  daysBeforeYear date.marchYear + daysBeforeMonth date.marchMonth + date.day - 1 - 719468

theorem daysInMonth_pos (year month : ℤ) : 1 ≤ daysInMonth year month := by
  unfold daysInMonth
  split_ifs <;> decide

theorem daysBeforeYear_next (year : ℤ) :
    daysBeforeYear year = daysBeforeYear (year - 1) + if isLeap year then 366 else 365 := by
  have hleap : isLeap year = true ↔ year % 4 = 0 ∧ (year % 100 ≠ 0 ∨ year % 400 = 0) := by simp [isLeap]
  unfold daysBeforeYear
  by_cases h : isLeap year = true
  · rw [if_pos h]
    rw [hleap] at h
    omega
  · rw [if_neg h]
    rw [hleap] at h
    omega

section Months

variable {year month : ℤ}

/-- A month ends where the next one of its year starts. -/
theorem number_next_month (hlow : 1 ≤ month) (hhigh : month < 12) :
    (Date.mk year (month + 1) 1).number = (Date.mk year month 1).number + daysInMonth year month := by
  have hyear := daysBeforeYear_next year
  have hhalf : month ≤ 7 ∨ 8 ≤ month := by omega
  simp only [Date.number, Date.marchYear, Date.marchMonth, daysInMonth, daysBeforeMonth]
  split_ifs at hyear ⊢ <;> omega

theorem number_next_year : (Date.mk (year + 1) 1 1).number = (Date.mk year 12 1).number + 31 := by
  have hsame : year + 1 - 1 = year := by omega
  simp only [Date.number, Date.marchYear, Date.marchMonth, daysBeforeMonth]
  rw [if_pos (by decide), if_pos (by decide), if_neg (by decide), if_neg (by decide), hsame]
  omega

end Months

namespace Date

variable {date : Date}

theorem number_day (year month day : ℤ) : (Date.mk year month day).number = (Date.mk year month 1).number + day - 1 := by
  simp only [number, marchYear, marchMonth]
  omega

theorem Valid.next (h : date.Valid) : date.next.Valid ∧ date.next.number = date.number + 1 := by
  obtain ⟨year, month, day⟩ := date
  obtain ⟨⟨hlow, hhigh⟩, hfirst, hlast⟩ := h
  simp only at hlow hhigh hfirst hlast
  have hday := number_day year month day
  unfold Date.next
  simp only
  split_ifs with hmore hyear
  · refine ⟨⟨⟨hlow, hhigh⟩, by simp only; omega⟩, ?_⟩
    rw [number_day, hday]
    omega
  · refine ⟨⟨by simp only; omega, Int.le_refl 1, daysInMonth_pos _ _⟩, ?_⟩
    rw [number_next_month hlow hyear, hday]
    omega
  · have hmonth : month = 12 := by omega
    have hlong : daysInMonth year 12 = 31 := rfl
    refine ⟨⟨by simp, Int.le_refl 1, daysInMonth_pos _ _⟩, ?_⟩
    rw [hmonth] at hday hmore hlast ⊢
    rw [number_next_year, hday]
    omega

theorem Valid.previous (h : date.Valid) : date.previous.Valid ∧ date.previous.number = date.number - 1 := by
  obtain ⟨year, month, day⟩ := date
  obtain ⟨⟨hlow, hhigh⟩, hfirst, hlast⟩ := h
  simp only at hlow hhigh hfirst hlast
  have hday := number_day year month day
  unfold Date.previous
  simp only
  split_ifs with hmore hyear
  · refine ⟨⟨⟨hlow, hhigh⟩, by simp only; omega⟩, ?_⟩
    rw [number_day, hday]
    omega
  · have hprevious := @number_next_month year (month - 1) (by omega) (by omega)
    rw [sub_add_cancel] at hprevious
    refine ⟨⟨by simp only; omega, daysInMonth_pos _ _, Int.le_refl _⟩, ?_⟩
    rw [number_day, hday]
    omega
  · have hmonth : month = 1 := by omega
    have hprevious := @number_next_year (year - 1)
    rw [sub_add_cancel] at hprevious
    refine ⟨⟨by simp, by simp, Int.le_refl _⟩, ?_⟩
    rw [hmonth] at hday ⊢
    rw [number_day, hday]
    omega

end Date

theorem dateOf_succ (n : ℕ) : dateOf (Int.ofNat (n + 1)) = (dateOf (Int.ofNat n)).next :=
  Function.iterate_succ_apply' _ _ _

theorem dateOf_pred (n : ℕ) : dateOf (Int.negSucc (n + 1)) = (dateOf (Int.negSucc n)).previous :=
  Function.iterate_succ_apply' _ _ _

theorem dateOf_valid (n : ℤ) : (dateOf n).Valid ∧ (dateOf n).number = n := by
  have hepoch : epoch.Valid ∧ epoch.number = 0 := ⟨⟨by decide, by decide⟩, by decide⟩
  cases n with
  | ofNat n =>
    induction n with
    | zero => exact hepoch
    | succ n ih =>
      obtain ⟨hvalid, hnumber⟩ := ih.1.next
      rw [dateOf_succ]
      refine ⟨hvalid, ?_⟩
      rw [hnumber, ih.2]
      rfl
  | negSucc n =>
    induction n with
    | zero => exact ⟨hepoch.1.previous.1, hepoch.1.previous.2⟩
    | succ n ih =>
      obtain ⟨hvalid, hnumber⟩ := ih.1.previous
      rw [dateOf_pred]
      refine ⟨hvalid, ?_⟩
      rw [hnumber, ih.2]
      rfl

end Calendar
