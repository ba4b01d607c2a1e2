import AbyssBackend.Library.Calendar
import AbyssBackend.Storage.OffsetTables

namespace AbyssBackend.Storage

open Calendar Sorting StepTables

section Civil

variable {century cycle single rest day : ℤ}

/-- The years of an era before a day of it that have a leap day more than a century's four-year cycles have. -/
theorem centuries_eq (hcentury : 0 ≤ century ∧ century ≤ 3) (hcycle : 0 ≤ cycle ∧ cycle ≤ 24)
    (hsingle : 0 ≤ single ∧ single ≤ 3) (hrest : 0 ≤ rest ∧ rest ≤ 365)
    (hleap : rest = 365 → single = 3 ∧ (cycle ≠ 24 ∨ century = 3))
    (hday : day = 36524 * century + (1461 * cycle + 365 * single + rest)) : day / 36524 - day / 146096 = century := by
  by_cases hlast : day = 146096
  · rw [hlast]
    omega
  · have hshort : 1461 * cycle + 365 * single + rest < 36524 := by omega
    have hcenturies : day / 36524 = century := by omega
    have hera : day / 146096 = 0 := by omega
    omega

theorem cycles_eq (hday : day = 36524 * century + (1461 * cycle + 365 * single + rest)) :
    day / 1460 = 25 * century + cycle + (24 * century + cycle + 365 * single + rest) / 1460 := by
  have hsplit : day = 24 * century + cycle + 365 * single + rest + (25 * century + cycle) * 1460 := by omega
  rw [hsplit, Int.add_mul_ediv_right _ _ (by decide)]
  omega

theorem carry_bounds (hcentury : 0 ≤ century ∧ century ≤ 3) (hcycle : 0 ≤ cycle ∧ cycle ≤ 24)
    (hsingle : 0 ≤ single ∧ single ≤ 3) (hrest : 0 ≤ rest ∧ rest ≤ 365) (hleap : rest = 365 → single = 3) :
    0 ≤ rest - (24 * century + cycle + 365 * single + rest) / 1460 ∧
      rest - (24 * century + cycle + 365 * single + rest) / 1460 < 365 := by
  omega

theorem year_parts {year : ℤ} (h : 0 ≤ year ∧ year < 400) : ∃ century cycle single, (0 ≤ century ∧ century ≤ 3) ∧
    (0 ≤ cycle ∧ cycle ≤ 24) ∧ (0 ≤ single ∧ single ≤ 3) ∧ year = 100 * century + 4 * cycle + single ∧
    year / 4 = 25 * century + cycle ∧ year / 100 = century ∧ year % 4 = single ∧ year % 100 = 4 * cycle + single := by
  refine ⟨year / 100, year % 100 / 4, year % 4, ?_, ?_, ?_, ?_, ?_, rfl, rfl, ?_⟩ <;> omega

/-- The year of an era that a day of the era is in. -/
theorem yearOfEra_eq {year : ℤ} (hyear : 0 ≤ year ∧ year < 400) (hrest : 0 ≤ rest ∧ rest ≤ 365)
    (hleap : rest = 365 → year % 4 = 3 ∧ (year % 100 ≠ 99 ∨ year = 399))
    (hday : day = 365 * year + year / 4 - year / 100 + rest) :
    (day - day / 1460 + day / 36524 - day / 146096) / 365 = year := by
  obtain ⟨century, cycle, single, hcentury, hcycle, hsingle, hparts, hfour, hhundred, hmod, hmods⟩ := year_parts hyear
  rw [hmod, hmods] at hleap
  rw [hfour, hhundred] at hday
  have hlong : rest = 365 → single = 3 ∧ (cycle ≠ 24 ∨ century = 3) := by
    intro h
    obtain ⟨hthree, hother⟩ := hleap h
    omega
  have hdays : day = 36524 * century + (1461 * cycle + 365 * single + rest) := by
    rw [hday, hparts]
    omega
  have hcenturies := centuries_eq hcentury hcycle hsingle hrest hlong hdays
  have hcarry := carry_bounds hcentury hcycle hsingle hrest fun h => (hlong h).1
  rw [cycles_eq hdays]
  generalize (24 * century + cycle + 365 * single + rest) / 1460 = carry at hcarry ⊢
  have hsum : day - (25 * century + cycle + carry) + day / 36524 - day / 146096 = rest - carry + 365 * year := by
    omega
  rw [hsum, Int.add_mul_ediv_left _ _ (by decide), Int.ediv_eq_zero_of_lt hcarry.1 hcarry.2, zero_add]

theorem daysBeforeYear_era (year : ℤ) : daysBeforeYear year =
    146097 * (year / 400) + (365 * (year % 400) + year % 400 / 4 - year % 400 / 100) := by
  unfold daysBeforeYear
  omega

variable {date : Date}

theorem daysInMonth_eq {year month : ℤ} (day : ℤ) (hmonth : 1 ≤ month ∧ month ≤ 12) (hother : month ≠ 2) :
    daysInMonth year month =
      daysBeforeMonth (Date.marchMonth ⟨year, month, day⟩ + 1) - daysBeforeMonth (Date.marchMonth ⟨year, month, day⟩) := by
  have hmonths : month = 1 ∨ month = 3 ∨ month = 4 ∨ month = 5 ∨ month = 6 ∨ month = 7 ∨ month = 8 ∨ month = 9 ∨
      month = 10 ∨ month = 11 ∨ month = 12 := by omega
  rcases hmonths with rfl | rfl | rfl | rfl | rfl | rfl | rfl | rfl | rfl | rfl | rfl <;> rfl

/-- A day's place in its year, which starts in March, and what it says of the month. -/
theorem dayOfYear_bounds (h : date.Valid) :
    (0 ≤ daysBeforeMonth date.marchMonth + date.day - 1 ∧ daysBeforeMonth date.marchMonth + date.day - 1 ≤ 365) ∧
    (daysBeforeMonth date.marchMonth + date.day - 1 = 365 → isLeap (date.marchYear + 1) = true) ∧
    (5 * (daysBeforeMonth date.marchMonth + date.day - 1) + 2) / 153 = date.marchMonth := by
  obtain ⟨year, month, day⟩ := date
  obtain ⟨⟨hlow, hhigh⟩, hfirst, hlast⟩ := h
  simp only at hlow hhigh hfirst hlast
  by_cases hfebruary : month = 2
  · subst hfebruary
    have hlength : daysInMonth year 2 = if isLeap year then 29 else 28 := rfl
    have hplace : daysBeforeMonth (Date.marchMonth ⟨year, 2, day⟩) = 337 := rfl
    have hmarch : Date.marchYear ⟨year, 2, day⟩ + 1 = year := sub_add_cancel year 1
    have hmonth : Date.marchMonth ⟨year, 2, day⟩ = 11 := rfl
    rw [hlength] at hlast
    rw [hplace, hmarch, hmonth]
    simp only
    split_ifs at hlast with hleap
    · exact ⟨by omega, fun _ => hleap, by omega⟩
    · exact ⟨by omega, by omega, by omega⟩
  · rw [daysInMonth_eq day ⟨hlow, hhigh⟩ hfebruary] at hlast
    have hmarch : 0 ≤ Date.marchMonth ⟨year, month, day⟩ ∧ Date.marchMonth ⟨year, month, day⟩ ≤ 10 := by
      unfold Date.marchMonth
      simp only
      split_ifs <;> omega
    generalize Date.marchMonth ⟨year, month, day⟩ = place at hlast hmarch ⊢
    unfold daysBeforeMonth at hlast ⊢
    simp only
    exact ⟨by omega, by omega, by omega⟩

theorem civilFromDays_number (h : date.Valid) : civilFromDays date.number = (date.year, date.month, date.day) := by
  obtain ⟨hbounds, hleap, hmonth⟩ := dayOfYear_bounds h
  have hdays : date.number + 719468 = daysBeforeYear date.marchYear +
      (daysBeforeMonth date.marchMonth + date.day - 1) := by
    unfold Date.number
    omega
  rw [daysBeforeYear_era] at hdays
  have hyear : 0 ≤ date.marchYear % 400 ∧ date.marchYear % 400 < 400 := by omega
  have hlong : daysBeforeMonth date.marchMonth + date.day - 1 = 365 →
      date.marchYear % 400 % 4 = 3 ∧ (date.marchYear % 400 % 100 ≠ 99 ∨ date.marchYear % 400 = 399) := by
    intro hlast
    have hleap := hleap hlast
    simp only [isLeap, Bool.and_eq_true, Bool.or_eq_true, decide_eq_true_eq] at hleap
    omega
  have hyoe := yearOfEra_eq hyear hbounds hlong rfl
  obtain ⟨dayOfEra, hdayOfEra⟩ : ∃ dayOfEra, dayOfEra = 365 * (date.marchYear % 400) + date.marchYear % 400 / 4 -
      date.marchYear % 400 / 100 + (daysBeforeMonth date.marchMonth + date.day - 1) := ⟨_, rfl⟩
  rw [← hdayOfEra] at hyoe
  have hwithin : 0 ≤ dayOfEra ∧ dayOfEra < 146097 := by
    have hshort : daysBeforeMonth date.marchMonth + date.day - 1 = 365 → date.marchYear % 400 % 4 = 3 :=
      fun h => (hlong h).1
    omega
  have hera : (date.number + 719468) / 146097 = date.marchYear / 400 := by omega
  have hrest : (date.number + 719468) % 146097 = dayOfEra := by omega
  have hplace : dayOfEra - (365 * (date.marchYear % 400) + date.marchYear % 400 / 4 - date.marchYear % 400 / 100) =
      daysBeforeMonth date.marchMonth + date.day - 1 := by omega
  have hcivil : civilFromDays date.number = if date.marchMonth < 10 then
      (date.marchYear % 400 + date.marchYear / 400 * 400, date.marchMonth + 3, date.day)
      else (date.marchYear % 400 + date.marchYear / 400 * 400 + 1, date.marchMonth - 9, date.day) := by
    have hday : daysBeforeMonth date.marchMonth + date.day - 1 - (153 * date.marchMonth + 2) / 5 + 1 = date.day := by
      unfold daysBeforeMonth
      omega
    unfold civilFromDays
    simp only [hera, hrest, hyoe, hplace, hmonth, hday]
  have hmarch : date.marchYear % 400 + date.marchYear / 400 * 400 = date.marchYear := by omega
  obtain ⟨hlow, hhigh⟩ := h.month
  rw [hcivil, hmarch]
  by_cases hspring : date.month ≤ 2
  · have hlate : date.marchMonth = date.month + 9 := if_pos hspring
    have hbefore : date.marchYear = date.year - 1 := if_pos hspring
    rw [if_neg (by omega), hlate, hbefore, sub_add_cancel, add_sub_cancel_right]
  · have hearly : date.marchMonth = date.month - 3 := if_neg hspring
    have hsame : date.marchYear = date.year := if_neg hspring
    rw [if_pos (by omega), hearly, hsame, sub_add_cancel]

/-- The days that SQLite's dates are worked out from are those of the calendar. -/
theorem civilFromDays_eq (days : ℤ) :
    civilFromDays days = ((dateOf days).year, (dateOf days).month, (dateOf days).day) := by
  obtain ⟨hvalid, hnumber⟩ := dateOf_valid days
  rw [← civilFromDays_number hvalid, hnumber]

theorem dateOf_add_one (days : ℤ) : dateOf (days + 1) = (dateOf days).next := by
  obtain ⟨hvalid, hnumber⟩ := dateOf_valid days
  obtain ⟨hnext, hsuccessor⟩ := hvalid.next
  have hcivil := civilFromDays_number hnext
  rw [hsuccessor, hnumber, civilFromDays_eq] at hcivil
  obtain ⟨hyear, hmonth, hday⟩ : (dateOf (days + 1)).year = (dateOf days).next.year ∧
      (dateOf (days + 1)).month = (dateOf days).next.month ∧ (dateOf (days + 1)).day = (dateOf days).next.day := by
    simpa using hcivil
  cases hleft : dateOf (days + 1)
  cases hright : (dateOf days).next
  simp_all

end Civil

section Text

/-- A date as SQLite's `%Y-%m-%d` writes it. -/
def dayText (date : Date) : String := s!"{padNumber 4 date.year}-{padNumber 2 date.month}-{padNumber 2 date.day}"

variable {date other : Date}

theorem daysInMonth_bounds (year month : ℤ) : 28 ≤ daysInMonth year month ∧ daysInMonth year month ≤ 31 := by
  unfold daysInMonth
  split_ifs <;> decide

theorem padNumber_two {day other : ℤ} (hday : 1 ≤ day ∧ day ≤ 31) (hother : 1 ≤ other ∧ other ≤ 31) :
    (padNumber 2 day).toList.length = 2 ∧ (padNumber 2 day = padNumber 2 other → day = other) := by
  have hall : ∀ d e : Fin 32, (padNumber 2 (d.val : ℤ)).toList.length = 2 ∧
      (padNumber 2 (d.val : ℤ) = padNumber 2 (e.val : ℤ) → d = e) := by decide +kernel
  obtain ⟨d, hd⟩ := Int.eq_ofNat_of_zero_le (by omega : 0 ≤ day)
  obtain ⟨e, he⟩ := Int.eq_ofNat_of_zero_le (by omega : 0 ≤ other)
  obtain ⟨hlength, hsame⟩ := hall ⟨d, by omega⟩ ⟨e, by omega⟩
  rw [hd, he]
  refine ⟨hlength, fun htext => ?_⟩
  have hvalues := congrArg Fin.val (hsame htext)
  exact congrArg Int.ofNat hvalues

theorem dayText_ne (hdate : date.Valid) (hother : other.Valid) (h : date.day ≠ other.day) :
    dayText date ≠ dayText other := by
  intro hsame
  have hsplit : ∀ date : Date, ∃ front, (dayText date).toList = front ++ (padNumber 2 date.day).toList :=
    fun date => ⟨_, String.toList_append⟩
  have hbounds : ∀ {date : Date}, date.Valid → 1 ≤ date.day ∧ date.day ≤ 31 := by
    intro date hvalid
    exact ⟨hvalid.day.1, hvalid.day.2.trans (daysInMonth_bounds _ _).2⟩
  obtain ⟨front, hfront⟩ := hsplit date
  obtain ⟨front', hfront'⟩ := hsplit other
  rw [hsame, hfront'] at hfront
  have hlength := (padNumber_two (hbounds hdate) (hbounds hother)).1
  have hlength' := (padNumber_two (hbounds hother) (hbounds hdate)).1
  obtain ⟨-, htext⟩ := List.append_inj' hfront (hlength'.trans hlength.symm)
  exact h ((padNumber_two (hbounds hdate) (hbounds hother)).2 (String.toList_injective htext.symm))

theorem dayText_next_ne (h : date.Valid) : dayText date.next ≠ dayText date := by
  apply dayText_ne h.next.1 h
  have hbounds := daysInMonth_bounds date.year date.month
  obtain ⟨hfirst, hlast⟩ := h.day
  unfold Date.next
  split_ifs <;> simp only <;> omega

theorem strftimeDay_eq (seconds : ℤ) : strftimeDay seconds =
    if -210866760000 ≤ seconds ∧ seconds < 253402300800 then some (dayText (dateOf (seconds / daySeconds))) else none := by
  unfold strftimeDay
  rw [civilFromDays_eq]
  rfl

end Text

theorem offsetFor_eq {pairs : List (ℤ × ℤ)} (hascending : pairs.Pairwise fun x y => x.1 < y.1) {t offset : ℤ}
    (h : LastAt pairs t offset) : offsetFor pairs t = some offset := by
  obtain ⟨front, start, back, rfl, hstart, hback⟩ := h
  obtain ⟨hfront, hrest, hbefore⟩ := List.pairwise_append.mp hascending
  have hearly : ∀ entry ∈ front, entry.1 < start := fun entry hentry => hbefore entry hentry _ List.mem_cons_self
  have hfilter : (front ++ (start, offset) :: back).filter (fun pair => decide (pair.1 ≤ t)) =
      front ++ [(start, offset)] := by
    rw [List.filter_append, List.filter_cons_of_pos (by simpa using hstart), List.filter_eq_self.mpr,
      List.filter_eq_nil_iff.mpr]
    · intro entry hentry
      have hlate := hback entry hentry
      simpa using hlate
    · intro entry hentry
      have hsooner := hearly entry hentry
      exact decide_eq_true (by omega)
  have hdescending : ((start, offset) :: front.reverse).Pairwise fun x y => y.1 < x.1 := by
    refine List.Pairwise.cons (fun entry hentry => hearly entry (List.mem_reverse.mp hentry)) ?_
    exact List.pairwise_reverse.mpr hfront
  have hsorted : sortBy (fun pair : ℤ × ℤ => OrderDual.toDual pair.1) (front ++ [(start, offset)]) =
      (start, offset) :: front.reverse := by
    apply sortBy_eq
    · exact List.perm_append_comm.trans ((List.reverse_perm front).symm.cons _)
    · exact hdescending.imp fun hxy => OrderDual.toDual_le_toDual.mpr hxy.le
    · have hkeys : (((start, offset) :: front.reverse).map Prod.fst).Nodup :=
        List.pairwise_map.mpr (hdescending.imp fun hxy => hxy.ne')
      exact fun x hx y hy hxy => List.inj_on_of_nodup_map hkeys hx hy hxy
  rw [offsetFor, hfilter, hsorted]
  rfl

/-- A fraction of the last second before a midnight, before 1970-01-01. -/
def RoundsToMidnight (localMicros : ℤ) : Prop :=
  localMicros < 0 ∧ localMicros % microsPerSecond ≠ 0 ∧ (localMicros / microsPerSecond + 1) % daySeconds = 0

/-- Times that SQLite has dates of, which end with the year 9999. -/
def HasDate (localMicros : ℤ) : Prop := -210866760001000000 < localMicros ∧ localMicros < 253402300800000000

theorem strftimeDay_tdiv (localMicros : ℤ) : strftimeDay (localMicros.tdiv microsPerSecond) =
    some (dayText (dateOf (localMicros / microsPerSecond / daySeconds))) ↔
      HasDate localMicros ∧ ¬ RoundsToMidnight localMicros := by
  rw [strftimeDay_eq, Int.tdiv_eq_ediv]
  unfold HasDate RoundsToMidnight
  by_cases hwhole : 0 ≤ localMicros ∨ microsPerSecond ∣ localMicros
  · have hrange : -210866760000 ≤ localMicros / microsPerSecond ∧ localMicros / microsPerSecond < 253402300800 ↔
        -210866760001000000 < localMicros ∧ localMicros < 253402300800000000 := by
      unfold microsPerSecond at hwhole ⊢
      omega
    have hnot : ¬ (localMicros < 0 ∧ localMicros % microsPerSecond ≠ 0 ∧
        (localMicros / microsPerSecond + 1) % daySeconds = 0) := by
      unfold microsPerSecond at hwhole ⊢
      omega
    rw [if_pos hwhole, add_zero, and_iff_left hnot, ← hrange]
    simp
  · have hrange : -210866760000 ≤ localMicros / microsPerSecond + 1 ∧
        localMicros / microsPerSecond + 1 < 253402300800 ↔
          -210866760001000000 < localMicros ∧ localMicros < 253402300800000000 := by
      unfold microsPerSecond at hwhole ⊢
      omega
    have hnegative : localMicros < 0 ∧ localMicros % microsPerSecond ≠ 0 := by
      unfold microsPerSecond at hwhole ⊢
      omega
    have hsign : microsPerSecond.sign = 1 := rfl
    generalize localMicros / microsPerSecond = second at hrange ⊢
    rw [if_neg hwhole, hsign, ← hrange, and_iff_right hnegative.1, and_iff_right hnegative.2]
    by_cases hmidnight : (second + 1) % daySeconds = 0
    · have hday : (second + 1) / daySeconds = second / daySeconds + 1 := by
        unfold daySeconds at hmidnight ⊢
        omega
      have hne := dayText_next_ne (dateOf_valid (second / daySeconds)).1
      rw [hday, dateOf_add_one]
      simp [hmidnight, hne]
    · have hday : (second + 1) / daySeconds = second / daySeconds := by
        unfold daySeconds at hmidnight ⊢
        omega
      rw [hday]
      simp [hmidnight]

/-- An event's day is the calendar's, but for what its seconds round to and dates that SQLite does not have. -/
theorem summaryDay_iff [TimeZones] (zone : TimeZones.Tz) (events : Option (ℤ × ℤ))
    (hevents : ∀ range ∈ events, i64Min ≤ range.1 ∧ range.2 ≤ i64Max) {observedAt offset : ℤ}
    (hoffset : LastAt (dayOffsetsJson zone events) observedAt offset) :
    summaryDay (dayOffsetsJson zone events) observedAt =
        some (dayText (dateOf ((observedAt + offset) / microsPerSecond / daySeconds))) ↔
      HasDate (observedAt + offset) ∧ ¬ RoundsToMidnight (observedAt + offset) := by
  rw [summaryDay, offsetFor_eq (dayOffsetsJson_ascending zone events hevents) hoffset]
  exact strftimeDay_tdiv _

section Instants

local instance instantZones : TimeZones := springForward

theorem lastAt_utc {observedAt : ℤ} (h : i64Min ≤ observedAt) :
    LastAt (dayOffsetsJson TimeZones.utc none) observedAt 0 := .head h (by simp)

theorem lastAt_losAngeles {observedAt offset : ℤ} (hfirst : -1500000 ≤ observedAt)
    (hlast : observedAt ≤ 1772964000000000)
    (hoffset : offsetAt losAngeles (observedAt / microsPerSecond) * microsPerSecond = offset) :
    LastAt (dayOffsetsJson losAngeles (some (-1500000, 1772964000000000))) observedAt offset := by
  have := springForward_lawful
  rw [← hoffset]
  exact dayOffsetsJson_lastAt (by decide) (by decide) losAngeles_apart hfirst hlast

/-- Los Angeles before 1970, and where its clocks move. -/
theorem summaryDay_iff_losAngeles :
    (summaryDay (dayOffsetsJson losAngeles (some (-1500000, 1772964000000000))) (-1500000) =
        some (dayText (dateOf ((-1500000 + -28800000000) / microsPerSecond / daySeconds))) ∧
      dayText (dateOf ((-1500000 + -28800000000) / microsPerSecond / daySeconds)) = "1969-12-31") ∧
    summaryDay (dayOffsetsJson losAngeles (some (-1500000, 1772964000000000))) 1772964000000000 =
        some (dayText (dateOf ((1772964000000000 + -25200000000) / microsPerSecond / daySeconds))) := by
  have hrange : ∀ range ∈ some ((-1500000, 1772964000000000) : ℤ × ℤ), i64Min ≤ range.1 ∧ range.2 ≤ i64Max := by
    decide
  refine ⟨⟨?_, by decide⟩, ?_⟩
  · exact (summaryDay_iff losAngeles _ hrange (lastAt_losAngeles (by decide) (by decide) (by decide))).mpr
      ⟨⟨by decide, by decide⟩, fun h => absurd h.2.2 (by decide)⟩
  · exact (summaryDay_iff losAngeles _ hrange (lastAt_losAngeles (by decide) (by decide) (by decide))).mpr
      ⟨⟨by decide, by decide⟩, fun h => absurd h.1 (by decide)⟩

/-- Half a second before 1970 is a day late. -/
theorem summaryDay_rounds : LastAt (dayOffsetsJson TimeZones.utc none) (-500000) 0 ∧
    summaryDay (dayOffsetsJson TimeZones.utc none) (-500000) = some "1970-01-01" ∧
    dayText (dateOf ((-500000 + 0) / microsPerSecond / daySeconds)) = "1969-12-31" :=
  ⟨lastAt_utc (by decide), by decide, by decide⟩

end Instants

end AbyssBackend.Storage
