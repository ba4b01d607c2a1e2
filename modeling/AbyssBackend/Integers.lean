import Mathlib.Algebra.Ring.Int.Defs
import Mathlib.Algebra.Order.BigOperators.Group.List
import AbyssBackend.Error

/-! Sums of 64-bit counters: the saturating ones of the program, and those of the databases, which overflow. -/

namespace AbyssBackend

def i64Max : ℤ := 9223372036854775807

def i64Min : ℤ := -9223372036854775808

def saturatingAdd (x y : ℤ) : ℤ := min (max (x + y) i64Min) i64Max

def saturatingMul (x y : ℤ) : ℤ := min (max (x * y) i64Min) i64Max

def bigint (value : ℤ) : Except AppError ℤ :=
  if i64Min ≤ value ∧ value ≤ i64Max then .ok value else .error (.database .overflow)

/-- SQLite's `SUM` of integers, which fails where a partial sum overflows. -/
def sqliteSum (values : List ℤ) : Except AppError ℤ :=
  values.foldlM (fun (total value : ℤ) => bigint (total + value)) 0

theorem foldl_saturatingAdd {values : List ℤ} (hvalues : ∀ value ∈ values, 0 ≤ value) {total : ℤ}
    (htotal : 0 ≤ total) : values.foldl saturatingAdd (min total i64Max) = min (total + values.sum) i64Max := by
  induction values generalizing total with
  | nil => simp
  | cons value rest ih =>
    have hvalue := hvalues value List.mem_cons_self
    have hstep : saturatingAdd (min total i64Max) value = min (total + value) i64Max := by
      unfold saturatingAdd i64Min i64Max
      omega
    rw [List.foldl_cons, hstep, ih (fun v hv => hvalues v (List.mem_cons_of_mem _ hv)) (by omega), List.sum_cons,
      add_assoc]

theorem bigint_of_nonneg {value : ℤ} (h : 0 ≤ value) :
    bigint value = if value ≤ i64Max then .ok value else .error (.database .overflow) := by
  unfold bigint
  have hmin : i64Min ≤ value := by
    unfold i64Min
    omega
  simp only [hmin, true_and]

theorem foldlM_bigint {values : List ℤ} (hvalues : ∀ value ∈ values, 0 ≤ value) {total : ℤ} (htotal : 0 ≤ total)
    (hle : total ≤ i64Max) :
    values.foldlM (fun (total value : ℤ) => bigint (total + value)) total = bigint (total + values.sum) := by
  induction values generalizing total with
  | nil =>
    rw [List.sum_nil, add_zero, bigint_of_nonneg htotal, if_pos hle]
    rfl
  | cons value rest ih =>
    have hvalue := hvalues value List.mem_cons_self
    have hrest : ∀ v ∈ rest, 0 ≤ v := fun v hv => hvalues v (List.mem_cons_of_mem _ hv)
    have hsum : 0 ≤ rest.sum := List.sum_nonneg hrest
    rw [List.foldlM_cons, bigint_of_nonneg (by omega), List.sum_cons, ← add_assoc]
    by_cases hfits : total + value ≤ i64Max
    · rw [if_pos hfits]
      exact ih hrest (by omega) hfits
    · rw [if_neg hfits, bigint_of_nonneg (by omega), if_neg (by omega)]
      rfl

/-- A sum of counters fails exactly where it does not fit. -/
theorem sqliteSum_eq {values : List ℤ} (hvalues : ∀ value ∈ values, 0 ≤ value) :
    sqliteSum values = bigint values.sum := by
  unfold sqliteSum
  rw [foldlM_bigint hvalues (by decide) (by decide), zero_add]

theorem sqliteSum_perm {values values' : List ℤ} (h : values.Perm values') (hvalues : ∀ value ∈ values, 0 ≤ value) :
    sqliteSum values = sqliteSum values' := by
  have hvalues' : ∀ value ∈ values', 0 ≤ value := fun value hvalue => hvalues value (h.mem_iff.mpr hvalue)
  rw [sqliteSum_eq hvalues, sqliteSum_eq hvalues', h.sum_eq]

end AbyssBackend
