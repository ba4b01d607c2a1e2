import Mathlib.Data.Nat.Notation

/-! Decimal numerals of bounded values. -/

namespace Numerals

def digitValue (c : Char) : ℕ := c.toNat - 48

def valueFrom (value : ℕ) (digits : List Char) : ℕ := digits.foldl (fun value c => 10 * value + digitValue c) value

/-- A numeral: at least one digit, and a value within the bound. -/
structure Numeral (bound : ℕ) (digits : List Char) (value : ℕ) : Prop where
  nonempty : digits ≠ []
  decimal : ∀ c ∈ digits, c.isDigit = true
  denotes : valueFrom 0 digits = value
  bounded : value ≤ bound

/-- Reads digits after a value, up to the first that is none or takes the value over the bound. -/
def readDigits (bound : ℕ) : ℕ → List Char → Option ℕ
  | value, [] => some value
  | value, c :: rest =>
    if c.isDigit then
      if 10 * value + digitValue c ≤ bound then readDigits bound (10 * value + digitValue c) rest else none
    else none

variable {bound value n : ℕ} {digits : List Char}

theorem le_valueFrom (value : ℕ) (digits : List Char) : value ≤ valueFrom value digits := by
  induction digits generalizing value with
  | nil => exact Nat.le_refl value
  | cons c digits ih =>
    have hrest := ih (10 * value + digitValue c)
    rw [valueFrom, List.foldl_cons]
    rw [valueFrom] at hrest
    omega

theorem readDigits_eq_some (h : value ≤ bound) : readDigits bound value digits = some n ↔
    (∀ c ∈ digits, c.isDigit = true) ∧ valueFrom value digits = n ∧ n ≤ bound := by
  induction digits generalizing value with
  | nil =>
    rw [readDigits, Option.some.injEq]
    constructor
    · rintro rfl
      exact ⟨by simp, rfl, h⟩
    · exact fun hvalue => hvalue.2.1
  | cons c digits ih =>
    have hnext : valueFrom value (c :: digits) = valueFrom (10 * value + digitValue c) digits := rfl
    rw [readDigits, List.forall_mem_cons, hnext]
    by_cases hdigit : c.isDigit = true
    · rw [if_pos hdigit]
      by_cases hfits : 10 * value + digitValue c ≤ bound
      · rw [if_pos hfits, ih hfits, and_iff_right hdigit]
      · rw [if_neg hfits]
        have hle := le_valueFrom (10 * value + digitValue c) digits
        constructor
        · intro hnone
          cases hnone
        · rintro ⟨-, rfl, hbounded⟩
          omega
    · rw [if_neg hdigit]
      constructor
      · intro hnone
        cases hnone
      · exact fun hall => absurd hall.1.1 hdigit

theorem numeral_iff (hne : digits ≠ []) : readDigits bound 0 digits = some n ↔ Numeral bound digits n := by
  rw [readDigits_eq_some (Nat.zero_le bound)]
  constructor
  · rintro ⟨hdigits, hvalue, hbounded⟩
    exact ⟨hne, hdigits, hvalue, hbounded⟩
  · exact fun h => ⟨h.decimal, h.denotes, h.bounded⟩

theorem Numeral.not_mem (h : Numeral bound digits n) {c : Char} (hc : c.isDigit = false) : c ∉ digits := by
  intro hmem
  rw [h.decimal c hmem] at hc
  cases hc

end Numerals
