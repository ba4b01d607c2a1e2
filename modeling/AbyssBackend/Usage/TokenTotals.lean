import AbyssBackend.Usage.Segments

namespace AbyssBackend

namespace TokenCounts

/-- The six counters. -/
def columns : List (TokenCounts → ℤ) := [input, output, cacheRead, cacheWrite, reasoning, total]

def Nonneg (counts : TokenCounts) : Prop := ∀ column ∈ columns, 0 ≤ column counts

/-- Every counter fits an `i64`. -/
def Fits (counts : TokenCounts) : Prop := ∀ column ∈ columns, column counts ≤ i64Max

instance (counts : TokenCounts) : Decidable counts.Fits :=
  inferInstanceAs (Decidable (∀ column ∈ columns, column counts ≤ i64Max))

/-- The exact sums. -/
def totals (counts : List TokenCounts) : TokenCounts where
  input := (counts.map input).sum
  output := (counts.map output).sum
  cacheRead := (counts.map cacheRead).sum
  cacheWrite := (counts.map cacheWrite).sum
  reasoning := (counts.map reasoning).sum
  total := (counts.map total).sum

variable {counts more : List TokenCounts} {column : TokenCounts → ℤ}

theorem forall_columns {P : (TokenCounts → ℤ) → Prop} : (∀ column ∈ columns, P column) ↔
    P input ∧ P output ∧ P cacheRead ∧ P cacheWrite ∧ P reasoning ∧ P total := by
  simp [columns]

theorem ext_columns {x y : TokenCounts} (h : ∀ column ∈ columns, column x = column y) : x = y := by
  obtain ⟨hinput, houtput, hread, hwrite, hreasoning, htotal⟩ := forall_columns.mp h
  cases x
  cases y
  simp_all

theorem totals_column : ∀ column ∈ columns, column (totals counts) = (counts.map column).sum :=
  forall_columns.mpr ⟨rfl, rfl, rfl, rfl, rfl, rfl⟩

theorem add_column : ∀ column ∈ columns, ∀ x y : TokenCounts, column (x.add y) = saturatingAdd (column x) (column y) :=
  forall_columns.mpr ⟨fun _ _ => rfl, fun _ _ => rfl, fun _ _ => rfl, fun _ _ => rfl, fun _ _ => rfl, fun _ _ => rfl⟩

theorem zero_column : ∀ column ∈ columns, column {} = 0 := forall_columns.mpr ⟨rfl, rfl, rfl, rfl, rfl, rfl⟩

theorem totals_perm (h : counts.Perm more) : totals counts = totals more := by
  apply ext_columns
  intro column hcolumn
  rw [totals_column column hcolumn, totals_column column hcolumn]
  exact (h.map column).sum_eq

theorem map_nonneg (h : ∀ count ∈ counts, count.Nonneg) (hcolumn : column ∈ columns) :
    ∀ value ∈ counts.map column, 0 ≤ value := by
  intro value hvalue
  obtain ⟨count, hcount, rfl⟩ := List.mem_map.mp hvalue
  exact h count hcount column hcolumn

theorem totals_nonneg (h : ∀ count ∈ counts, count.Nonneg) : (totals counts).Nonneg := by
  intro column hcolumn
  rw [totals_column column hcolumn]
  exact List.sum_nonneg (map_nonneg h hcolumn)

/-- A part has no greater sums. -/
theorem totals_le (h : more.Sublist counts) (hnonneg : ∀ count ∈ counts, count.Nonneg) (hcolumn : column ∈ columns) :
    column (totals more) ≤ column (totals counts) := by
  rw [totals_column column hcolumn, totals_column column hcolumn]
  exact (h.map column).sum_le_sum (map_nonneg hnonneg hcolumn)

theorem foldl_column (hcolumn : column ∈ columns) (start : TokenCounts) :
    column (counts.foldl add start) = (counts.map column).foldl saturatingAdd (column start) := by
  induction counts generalizing start with
  | nil => rfl
  | cons count counts ih => rw [List.foldl_cons, ih, add_column column hcolumn, List.map_cons, List.foldl_cons]

/-- Added one by one, the counters stop at the largest `i64`. -/
theorem foldl_add (h : ∀ count ∈ counts, count.Nonneg) (hcolumn : column ∈ columns) :
    column (counts.foldl add {}) = min (column (totals counts)) i64Max := by
  have hstart : min (0 : ℤ) i64Max = 0 := rfl
  have hfold := foldl_saturatingAdd (map_nonneg h hcolumn) (le_refl 0)
  rw [foldl_column hcolumn, zero_column column hcolumn, totals_column column hcolumn]
  rwa [hstart, zero_add] at hfold

theorem foldl_add_perm (h : counts.Perm more) (hnonneg : ∀ count ∈ counts, count.Nonneg) :
    counts.foldl add {} = more.foldl add {} := by
  have hnonneg' : ∀ count ∈ more, count.Nonneg := fun count hcount => hnonneg count (h.mem_iff.mpr hcount)
  apply ext_columns
  intro column hcolumn
  rw [foldl_add hnonneg hcolumn, foldl_add hnonneg' hcolumn, totals_perm h]

theorem foldl_add_iff (h : ∀ count ∈ counts, count.Nonneg) :
    counts.foldl add {} = totals counts ↔ (totals counts).Fits := by
  constructor
  · intro hsame column hcolumn
    have hmin := foldl_add h hcolumn
    rw [hsame] at hmin
    omega
  · intro hfits
    apply ext_columns
    intro column hcolumn
    rw [foldl_add h hcolumn]
    exact min_eq_left (hfits column hcolumn)

end TokenCounts

end AbyssBackend
