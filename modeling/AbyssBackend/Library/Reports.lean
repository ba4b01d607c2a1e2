import AbyssBackend.Library.Rows
import Mathlib.Data.List.MinMax

/-! Rows that keep, of what is reported under their key, the last report or the latest observed one. -/

namespace Reports

open Rows

variable {δ ν τ κ ρ ι : Type} [LinearOrder τ] [DecidableEq κ]

def last (report : δ → Option ν) (log : List δ) : Option ν := (log.filterMap report).getLast?

def latest (time : δ → τ) (report : δ → Option ν) (log : List δ) : Option ν :=
  ((log.filter fun x => (report x).isSome).argmax time).bind report

def under (key : δ → κ) (k : κ) (log : List δ) : List δ := log.filter fun x => key x = k

theorem last_concat (report : δ → Option ν) (log : List δ) (x : δ) :
    last report (log ++ [x]) = (report x <|> last report log) := by
  unfold last
  cases hreport : report x <;> simp [List.filterMap_append, hreport]

theorem under_concat_self (key : δ → κ) (log : List δ) (x : δ) :
    under key (key x) (log ++ [x]) = under key (key x) log ++ [x] := by
  simp [under]

theorem under_concat_ne {key : δ → κ} {k : κ} {x : δ} (h : key x ≠ k) (log : List δ) :
    under key k (log ++ [x]) = under key k log := by
  simp [under, h]

theorem under_eq_nil {key : δ → κ} {k : κ} {log : List δ} (h : ∀ x ∈ log, key x ≠ k) : under key k log = [] :=
  List.filter_eq_nil_iff.mpr fun x hx => by simpa using h x hx

/-- Every row's attribute is the last one reported under its key, and every key reported has a row. -/
structure Retained (rowKey : ρ → κ) (attr : ρ → Option ν) (key : δ → κ) (report : δ → Option ν) (rows : List ρ)
    (log : List δ) : Prop where
  last : ∀ row ∈ rows, attr row = last report (under key (rowKey row) log)
  known : ∀ x ∈ log, key x ∈ rows.map rowKey

variable {rowKey : ρ → κ} {attr attr' : ρ → Option ν} {key : δ → κ} {report : δ → Option ν} {rows : List ρ}
  {log : List δ} {x : δ}

theorem retained_nil : Retained rowKey attr key report [] [] := ⟨by simp, by simp⟩

/-- A report under a row's key replaces the row's attribute, unless it reports nothing. -/
theorem Retained.seen [DecidableEq ι] {id : ρ → ι} (h : Retained rowKey attr key report rows log)
    (hids : (rows.map id).Nodup) (hkeys : (rows.map rowKey).Nodup) {existing : ρ} (hexisting : existing ∈ rows)
    (hkey : rowKey existing = key x) {f : ρ → ρ} (hsame : ∀ row, rowKey (f row) = rowKey row)
    (hf : attr' (f existing) = (report x <|> attr existing))
    (hother : ∀ row ∈ rows, rowKey row ≠ key x → attr' row = attr row) :
    Retained rowKey attr' key report (update id (id existing) f rows) (log ++ [x]) := by
  have hrows : (update id (id existing) f rows).map rowKey = rows.map rowKey := map_update fun row _ _ => hsame row
  refine ⟨fun row hrow => ?_, fun y hy => ?_⟩
  · obtain ⟨hold, hne⟩ | ⟨old, hold, hid, rfl⟩ := mem_update.mp hrow
    · have hapart : rowKey row ≠ key x := fun heq =>
        hne (congrArg id (List.inj_on_of_nodup_map hkeys hold hexisting (heq.trans hkey.symm)))
      rw [hother row hold hapart, under_concat_ne hapart.symm, h.last row hold]
    · obtain rfl := List.inj_on_of_nodup_map hids hold hexisting hid
      rw [hsame, hkey, under_concat_self, last_concat, hf, h.last old hold, hkey]
  · rw [hrows]
    obtain hold | hnew := List.mem_append.mp hy
    · exact h.known y hold
    · rw [List.mem_singleton.mp hnew, ← hkey]
      exact List.mem_map_of_mem hexisting

theorem Retained.new (h : Retained rowKey attr key report rows log) {row : ρ} (hkey : rowKey row = key x)
    (hnew : key x ∉ rows.map rowKey) (hrow : attr' row = report x)
    (hother : ∀ other ∈ rows, attr' other = attr other) :
    Retained rowKey attr' key report (rows ++ [row]) (log ++ [x]) := by
  refine ⟨fun other hmem => ?_, fun y hy => ?_⟩
  · obtain hold | hlast := List.mem_append.mp hmem
    · have hapart : key x ≠ rowKey other := fun heq => hnew (heq ▸ List.mem_map_of_mem hold)
      rw [hother other hold, under_concat_ne hapart, h.last other hold]
    · obtain rfl := List.mem_singleton.mp hlast
      have hnone : under key (key x) log = [] :=
        under_eq_nil fun y hy heq => hnew (heq ▸ h.known y hy)
      rw [hrow, hkey, under_concat_self, hnone, last_concat, Reports.last, List.filterMap_nil, List.getLast?_nil]
      cases report x <;> rfl
  · rw [List.map_append, List.mem_append]
    obtain hold | hlast := List.mem_append.mp hy
    · exact Or.inl (h.known y hold)
    · rw [List.mem_singleton.mp hlast, ← hkey]
      exact Or.inr (List.mem_singleton_self _)

/-- The rows keep the latest observed reports exactly where, under every key, the last report is the latest observed. -/
theorem Retained.latest_iff (h : Retained rowKey attr key report rows log) {time : δ → τ} :
    (∀ row ∈ rows, attr row = latest time report (under key (rowKey row) log)) ↔
      ∀ k, Reports.last report (under key k log) = latest time report (under key k log) := by
  constructor
  · intro hlatest k
    by_cases hk : k ∈ rows.map rowKey
    · obtain ⟨row, hrow, rfl⟩ := List.mem_map.mp hk
      rw [← h.last row hrow, hlatest row hrow]
    · have hnone : under key k log = [] := under_eq_nil fun x hx heq => hk (heq ▸ h.known x hx)
      rw [hnone]
      rfl
  · intro hagree row hrow
    rw [h.last row hrow, hagree]

end Reports
