import AbyssBackend.Integers
import AbyssBackend.Library.Sorting
import AbyssBackend.Usage.TimeZone

namespace AbyssBackend.Storage

open Sorting

def microsPerSecond : ℤ := 1000000

def daySeconds : ℤ := 86400

/-- One UTC offset of a zone and the second it takes effect. -/
structure UtcOffsetChange where
  startSecond : ℤ
  offsetSeconds : ℤ
deriving DecidableEq, Repr

/-- `i64::midpoint`, which rounds towards zero. -/
def midpoint (low high : ℤ) : ℤ := (low + high).tdiv 2

theorem midpoint_bounds {low high : ℤ} (h : 1 < high - low) : low < midpoint low high ∧ midpoint low high < high := by
  unfold midpoint
  have hsign : (2 : ℤ).sign = 1 := rfl
  rw [Int.tdiv_eq_ediv, hsign]
  split <;> omega

section Changes

variable (offsetAt : ℤ → ℤ) (current : ℤ)

/-- The first second with another offset, between `low`, which keeps the current one, and `high`, which does not. -/
def narrow (low high : ℤ) : ℤ :=
  if 1 < high - low then
    let middle := midpoint low high
    if offsetAt middle = current then narrow middle high else narrow low middle
  else high
termination_by (high - low).toNat
decreasing_by
  all_goals
    have hbounds : low < midpoint low high ∧ midpoint low high < high := midpoint_bounds ‹_›
    omega

theorem narrow_bounds {low high : ℤ} (h : low < high) :
    low < narrow offsetAt current low high ∧ narrow offsetAt current low high ≤ high := by
  fun_induction narrow offsetAt current low high with
  | case1 low high hwide middle hsame ih =>
    have hmiddle := midpoint_bounds hwide
    have hbounds := ih hmiddle.2
    omega
  | case2 low high hwide middle hother ih =>
    have hmiddle := midpoint_bounds hwide
    have hbounds := ih hmiddle.1
    omega
  | case3 low high hnarrow => exact ⟨h, le_refl high⟩

/-- The offsets from `cursor` up to `toSecond`, a day at a time; the current offset holds at `cursor`. -/
def changesFrom (toSecond current cursor : ℤ) : List UtcOffsetChange :=
  if cursor < toSecond then
    let next := min (cursor + daySeconds) toSecond
    if offsetAt next = current then changesFrom toSecond current next
    else
      let high := narrow offsetAt current cursor next
      ⟨high, offsetAt high⟩ :: changesFrom toSecond (offsetAt high) high
  else []
termination_by (toSecond - cursor).toNat
decreasing_by
  · unfold daySeconds
    omega
  · have hnext : cursor < min (cursor + daySeconds) toSecond := by
      unfold daySeconds
      omega
    have hbounds := narrow_bounds offsetAt current hnext
    omega

def utcOffsetChanges (fromSecond toSecond : ℤ) : List UtcOffsetChange :=
  ⟨fromSecond, offsetAt fromSecond⟩ :: changesFrom offsetAt toSecond (offsetAt fromSecond) fromSecond

end Changes

/-- The seconds that chrono's times reach, from -262143-01-01 to 262142-12-31. -/
def IsInstant (second : ℤ) : Prop := -8334601228800 ≤ second ∧ second ≤ 8210266876799

instance (second : ℤ) : Decidable (IsInstant second) := inferInstanceAs (Decidable (_ ∧ _))

def offsetAt [TimeZones] (zone : TimeZones.Tz) (second : ℤ) : ℤ :=
  if IsInstant second then TimeZones.offsetAt zone second else 0

/-- The offsets that a zone applies to events observed from the first to the last of two times, as pairs of the
microsecond from which an offset holds and the offset. -/
def dayOffsetsJson [TimeZones] (zone : TimeZones.Tz) (events : Option (ℤ × ℤ)) : List (ℤ × ℤ) :=
  let changes :=
    match events with
    | some (first, last) =>
      if zone ≠ TimeZones.utc then
        utcOffsetChanges (offsetAt zone) (first / microsPerSecond)
          (saturatingAdd (last / microsPerSecond) 1)
      else []
    | none => []
  match changes.map fun change => (saturatingMul change.startSecond microsPerSecond,
      saturatingMul change.offsetSeconds microsPerSecond) with
  | (_, offset) :: rest => (i64Min, offset) :: rest
  | [] => [(i64Min, 0)]

/-- The offset of the last pair that starts by then. -/
def offsetFor (offsets : List (ℤ × ℤ)) (observedAt : ℤ) : Option ℤ :=
  ((sortBy (fun pair => OrderDual.toDual pair.1) (offsets.filter fun pair => pair.1 ≤ observedAt)).head?).map Prod.snd

/-- Year, month and day of a day counted from 1970-01-01, in the proleptic Gregorian calendar. -/
def civilFromDays (days : ℤ) : ℤ × ℤ × ℤ :=
  -- years start in March, and eras of 400 years on 0000-03-01
  let shifted := days + 719468
  let era := shifted / 146097
  let dayOfEra := shifted % 146097
  let yearOfEra := (dayOfEra - dayOfEra / 1460 + dayOfEra / 36524 - dayOfEra / 146096) / 365
  let dayOfYear := dayOfEra - (365 * yearOfEra + yearOfEra / 4 - yearOfEra / 100)
  let month := (5 * dayOfYear + 2) / 153
  let day := dayOfYear - (153 * month + 2) / 5 + 1
  let year := yearOfEra + era * 400
  if month < 10 then (year, month + 3, day) else (year + 1, month - 9, day)

def padLeft (width : ℕ) (text : String) : String :=
  String.ofList (List.replicate (width - text.length) '0') ++ text

/-- C's `%0*d`, which counts the sign in the width. -/
def padNumber (width : ℕ) (value : ℤ) : String :=
  if value < 0 then "-" ++ padLeft (width - 1) (toString value.natAbs) else padLeft width (toString value.natAbs)

/-- SQLite's `strftime('%Y-%m-%d', seconds, 'unixepoch')`; it knows the days from -4713-11-24 to 9999-12-31. -/
def strftimeDay (seconds : ℤ) : Option String :=
  if -210866760000 ≤ seconds ∧ seconds < 253402300800 then
    let (year, month, day) := civilFromDays (seconds / daySeconds)
    some s!"{padNumber 4 year}-{padNumber 2 month}-{padNumber 2 day}"
  else none

/-- The day that a summary puts an event in; SQL's division rounds towards zero. -/
def summaryDay (offsets : List (ℤ × ℤ)) (observedAt : ℤ) : Option String :=
  (offsetFor offsets observedAt).bind fun offset => strftimeDay ((observedAt + offset).tdiv microsPerSecond)

example : strftimeDay 951782400 = some "2000-02-29" := by decide

example : strftimeDay (-1) = some "1969-12-31" := by decide

end AbyssBackend.Storage
