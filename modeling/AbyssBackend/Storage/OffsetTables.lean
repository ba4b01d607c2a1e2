import AbyssBackend.Library.StepTables
import AbyssBackend.Storage.DayOffsets

namespace AbyssBackend

open StepTables

/-- UTC has no offset, and every offset is less than a day. -/
class LawfulTimeZones [TimeZones] : Prop where
  utc_offset : ∀ second, TimeZones.offsetAt TimeZones.utc second = 0
  offset_bounds : ∀ zone second, -86400 < TimeZones.offsetAt zone second ∧ TimeZones.offsetAt zone second < 86400

namespace Storage

section Changes

variable {offsetAt : ℤ → ℤ} {current low high : ℤ}

/-- The search ends at the one place where the offset changes. -/
theorem narrow_eq {s : ℤ} (hlow : low < s) (hhigh : s ≤ high) (hbefore : ∀ t, low ≤ t → t < s → offsetAt t = current)
    (hafter : ∀ t, s ≤ t → t ≤ high → offsetAt t ≠ current) : narrow offsetAt current low high = s := by
  fun_induction narrow offsetAt current low high with
  | case1 low high hwide middle hsame ih =>
    have hmiddle : low < middle ∧ middle < high := midpoint_bounds hwide
    apply ih
    · by_contra hle
      exact hafter middle (by omega) hmiddle.2.le hsame
    · exact hhigh
    · exact fun t hmt => hbefore t (by omega)
    · exact hafter
  | case2 low high hwide middle hother ih =>
    have hmiddle : low < middle ∧ middle < high := midpoint_bounds hwide
    apply ih hlow
    · by_contra hlt
      exact hother (hbefore middle hmiddle.1.le (by omega))
    · exact hbefore
    · exact fun t hst htm => hafter t hst (by omega)
  | case3 low high hnarrow => omega

def UtcOffsetChange.pair (change : UtcOffsetChange) : ℤ × ℤ := (change.startSecond, change.offsetSeconds)

theorem changesFrom_tableOf {toSecond cursor : ℤ} (h : Apart daySeconds offsetAt)
    (hcurrent : offsetAt cursor = current) :
    TableOf offsetAt cursor toSecond ((changesFrom offsetAt toSecond current cursor).map UtcOffsetChange.pair) := by
  fun_induction changesFrom offsetAt toSecond current cursor with
  | case1 cursor hmore next ih =>
    have hnext : cursor < next ∧ next - cursor ≤ daySeconds := by
      unfold next daySeconds
      omega
    exact (ih rfl).skip h hnext.1 hnext.2 hcurrent.symm
  | case2 current cursor hmore next hother high ih =>
    have hnext : cursor < next ∧ next - cursor ≤ daySeconds := by
      unfold next daySeconds
      omega
    have hdiffers : offsetAt next ≠ offsetAt cursor := by rwa [hcurrent]
    obtain ⟨s, hcursor, hsnext, hchange, hbefore, hafter⟩ := h.one_change hnext.1 hnext.2 hdiffers
    have hhigh : high = s := by
      apply narrow_eq hcursor hsnext
      · exact fun t hct hts => (hbefore t hct hts).trans hcurrent
      · intro t hst htn
        rw [hafter t hst htn]
        exact hother
    rw [hhigh] at ih ⊢
    exact (ih rfl).change hcursor hchange hbefore
  | case3 current cursor hdone => exact .nil (by omega)

/-- Whatever the zone, later entries start later, and none after the end. -/
theorem changesFrom_ascending (toSecond current cursor : ℤ) :
    (changesFrom offsetAt toSecond current cursor).Pairwise (fun x y => x.startSecond < y.startSecond) ∧
    ∀ change ∈ changesFrom offsetAt toSecond current cursor, cursor < change.startSecond ∧
      change.startSecond ≤ toSecond := by
  fun_induction changesFrom offsetAt toSecond current cursor with
  | case1 cursor hmore next ih =>
    have hnext : cursor < next := by
      unfold next daySeconds
      omega
    refine ⟨ih.1, fun change hchange => ?_⟩
    obtain ⟨hlow, hhigh⟩ := ih.2 change hchange
    exact ⟨by omega, hhigh⟩
  | case2 current cursor hmore next hother high ih =>
    have hnext : cursor < next ∧ next ≤ toSecond := by
      unfold next daySeconds
      omega
    have hbounds : cursor < high ∧ high ≤ next := narrow_bounds offsetAt current hnext.1
    refine ⟨List.Pairwise.cons (fun change hchange => (ih.2 change hchange).1) ih.1, ?_⟩
    refine List.forall_mem_cons.mpr ⟨⟨hbounds.1, hbounds.2.trans hnext.2⟩, fun change hchange => ?_⟩
    obtain ⟨hlow, hhigh⟩ := ih.2 change hchange
    exact ⟨by omega, hhigh⟩
  | case3 current cursor hdone => exact ⟨List.Pairwise.nil, by simp⟩

end Changes

section Pairs

variable [TimeZones] [LawfulTimeZones] {zone : TimeZones.Tz} {first last : ℤ}

theorem offsetAt_bounds (zone : TimeZones.Tz) (second : ℤ) :
    -86400 < offsetAt zone second ∧ offsetAt zone second < 86400 := by
  unfold offsetAt
  split
  · exact LawfulTimeZones.offset_bounds zone second
  · omega

theorem offsetAt_utc (second : ℤ) : offsetAt TimeZones.utc second = 0 := by
  unfold offsetAt
  rw [LawfulTimeZones.utc_offset]
  split <;> rfl

omit [LawfulTimeZones] in
theorem changes_le {second : ℤ} (h : Changes (offsetAt zone) second) : second ≤ 8210266876800 := by
  by_contra hlate
  apply h
  have hzero : ∀ s, 8210266876799 < s → offsetAt zone s = 0 := by
    intro s hs
    apply if_neg
    unfold IsInstant
    omega
  rw [hzero second (by omega), hzero (second - 1) (by omega)]

def micros (entry : ℤ × ℤ) : ℤ × ℤ :=
  (saturatingMul entry.1 microsPerSecond, saturatingMul entry.2 microsPerSecond)

omit [LawfulTimeZones] in
theorem dayOffsetsJson_of_zone (h : zone ≠ TimeZones.utc) : dayOffsetsJson zone (some (first, last)) =
    (i64Min, saturatingMul (offsetAt zone (first / microsPerSecond)) microsPerSecond) ::
      ((changesFrom (offsetAt zone) (saturatingAdd (last / microsPerSecond) 1)
        (offsetAt zone (first / microsPerSecond)) (first / microsPerSecond)).map UtcOffsetChange.pair).map micros := by
  unfold dayOffsetsJson
  simp only [if_pos h, utcOffsetChanges, List.map_cons, List.map_map]
  rfl

omit [LawfulTimeZones] in
theorem dayOffsetsJson_ascending (zone : TimeZones.Tz) (events : Option (ℤ × ℤ))
    (hevents : ∀ range ∈ events, i64Min ≤ range.1 ∧ range.2 ≤ i64Max) :
    (dayOffsetsJson zone events).Pairwise fun x y => x.1 < y.1 := by
  cases events with
  | none => exact List.pairwise_singleton _ _
  | some range =>
    by_cases hutc : zone = TimeZones.utc
    · unfold dayOffsetsJson
      simp only [if_neg (not_not.mpr hutc)]
      exact List.pairwise_singleton _ _
    · obtain ⟨hfirst, hlast⟩ := hevents range rfl
      obtain ⟨hascending, hbounds⟩ := @changesFrom_ascending (offsetAt zone)
        (saturatingAdd (range.2 / microsPerSecond) 1) (offsetAt zone (range.1 / microsPerSecond))
        (range.1 / microsPerSecond)
      have hstart : ∀ second, range.1 / microsPerSecond < second → -9223372036854 ≤ second := by
        intro second hsecond
        unfold i64Min at hfirst
        unfold microsPerSecond at hsecond
        omega
      have hend : saturatingAdd (range.2 / microsPerSecond) 1 ≤ 9223372036855 := by
        unfold saturatingAdd microsPerSecond i64Min i64Max
        unfold i64Max at hlast
        omega
      rw [dayOffsetsJson_of_zone hutc, List.map_map]
      refine List.Pairwise.cons ?_ (List.pairwise_map.mpr (hascending.imp_of_mem fun {x y} hx hy hxy => ?_))
      · intro entry hentry
        obtain ⟨change, hchange, rfl⟩ := List.mem_map.mp hentry
        have hlow := hstart change.startSecond (hbounds change hchange).1
        change i64Min < saturatingMul change.startSecond microsPerSecond
        unfold saturatingMul i64Min i64Max microsPerSecond
        omega
      · have hlow := hstart x.startSecond (hbounds x hx).1
        have hhigh := (hbounds y hy).2.trans hend
        change saturatingMul x.startSecond microsPerSecond < saturatingMul y.startSecond microsPerSecond
        unfold saturatingMul i64Min i64Max microsPerSecond
        omega

theorem dayOffsetsJson_lastAt (hfirst : i64Min ≤ first) (hlast : last ≤ i64Max)
    (hapart : Apart daySeconds (offsetAt zone)) {t : ℤ} (hft : first ≤ t) (htl : t ≤ last) :
    LastAt (dayOffsetsJson zone (some (first, last))) t (offsetAt zone (t / microsPerSecond) * microsPerSecond) := by
  by_cases hutc : zone = TimeZones.utc
  · have hpairs : dayOffsetsJson zone (some (first, last)) = [(i64Min, 0)] := by
      unfold dayOffsetsJson
      simp only [if_neg (not_not.mpr hutc)]
      rfl
    rw [hpairs, hutc, offsetAt_utc, zero_mul]
    exact .head (hfirst.trans hft) (by simp)
  · have hnext : saturatingAdd (last / microsPerSecond) 1 = last / microsPerSecond + 1 := by
      unfold saturatingAdd microsPerSecond
      unfold i64Min at hfirst ⊢
      unfold i64Max at hlast ⊢
      omega
    rw [dayOffsetsJson_of_zone hutc, hnext]
    generalize hchanges : (changesFrom _ _ _ _).map UtcOffsetChange.pair = table
    have htable : TableOf (offsetAt zone) (first / microsPerSecond) (last / microsPerSecond + 1) table :=
      hchanges ▸ changesFrom_tableOf hapart rfl
    have hlastAt := htable.lastAt (t / microsPerSecond) (by unfold microsPerSecond; omega)
      (by unfold microsPerSecond; omega)
    -- no start is so late that it saturates, and the first one's may only become the least time
    have hcompare : ∀ entry ∈ (first / microsPerSecond, offsetAt zone (first / microsPerSecond)) :: table,
        saturatingMul entry.1 microsPerSecond ≤ t ↔ entry.1 ≤ t / microsPerSecond := by
      intro entry hentry
      unfold saturatingMul i64Max i64Min microsPerSecond
      unfold i64Min at hfirst
      unfold i64Max at hlast
      obtain rfl | hmem := List.mem_cons.mp hentry
      · unfold microsPerSecond
        omega
      · obtain ⟨hlater, hchange⟩ := htable.changes entry hmem
        have hle := changes_le hchange
        unfold microsPerSecond at hlater
        omega
    have hscaled : saturatingMul (offsetAt zone (t / microsPerSecond)) microsPerSecond =
        offsetAt zone (t / microsPerSecond) * microsPerSecond := by
      have hbounds := offsetAt_bounds zone (t / microsPerSecond)
      generalize offsetAt zone (t / microsPerSecond) = offset at hbounds ⊢
      unfold saturatingMul i64Max i64Min microsPerSecond
      omega
    have hmap := @LastAt.map _ _ _ _ _ hlastAt (saturatingMul · microsPerSecond) (saturatingMul · microsPerSecond) t
      hcompare
    rw [hscaled] at hmap
    apply LastAt.earlier hmap
    exact le_min (le_max_right _ _) (by decide)

/-- The pairs reproduce the zone at every time from the first to the last. -/
theorem dayOffsetsJson_reproduces (hfirst : i64Min ≤ first) (_ : first ≤ last) (hlast : last ≤ i64Max)
    (hapart : Apart daySeconds (offsetAt zone)) :
    (dayOffsetsJson zone (some (first, last))).Pairwise (fun x y => x.1 < y.1) ∧
    ∀ t, first ≤ t → t ≤ last → LastAt (dayOffsetsJson zone (some (first, last))) t
      (offsetAt zone (t / microsPerSecond) * microsPerSecond) := by
  refine ⟨dayOffsetsJson_ascending zone _ fun range hrange => ?_, fun t hft htl => ?_⟩
  · cases hrange
    exact ⟨hfirst, hlast⟩
  · exact dayOffsetsJson_lastAt hfirst hlast hapart hft htl

end Pairs

section Summer

/-- UTC, and a zone that moves its clocks on 2026-03-08 at 10:00. -/
abbrev springForward : TimeZones where
  Tz := Bool
  decEq := inferInstance
  utc := false
  parse name := if name = "America/Los_Angeles" then some true else none
  offsetAt zone second := if zone = true then (if second < 1772964000 then -28800 else -25200) else 0
  debug := String.quote

local instance summerZones : TimeZones := springForward

def losAngeles : TimeZones.Tz := true

theorem springForward_lawful : LawfulTimeZones where
  utc_offset _ := rfl
  offset_bounds zone second := by
    change -86400 < (if zone = true then (if second < 1772964000 then -28800 else -25200) else 0) ∧
      (if zone = true then (if second < 1772964000 then -28800 else -25200) else 0) < 86400
    split_ifs <;> decide

theorem losAngeles_offset (second : ℤ) : offsetAt losAngeles second =
    if IsInstant second then (if second < 1772964000 then -28800 else -25200) else 0 := rfl

theorem losAngeles_apart : Apart daySeconds (offsetAt losAngeles) := by
  have hchange : ∀ s, Changes (offsetAt losAngeles) s →
      s = -8334601228800 ∨ s = 1772964000 ∨ s = 8210266876800 := by
    intro s hs
    unfold Changes at hs
    rw [losAngeles_offset, losAngeles_offset] at hs
    unfold IsInstant at hs
    omega
  intro s s' hlt hs hs'
  have hfirst := hchange s hs
  have hsecond := hchange s' hs'
  unfold daySeconds
  omega

/-- The day of the change has the offset of before it and then the other one. -/
theorem dayOffsetsJson_reproduces_losAngeles :
    LastAt (dayOffsetsJson losAngeles (some (1772960000500000, 1772970000000000))) 1772963999999999 (-28800000000) ∧
    LastAt (dayOffsetsJson losAngeles (some (1772960000500000, 1772970000000000))) 1772964000000000 (-25200000000) := by
  have hlawful : LawfulTimeZones := springForward_lawful
  obtain ⟨-, hlastAt⟩ := @dayOffsetsJson_reproduces summerZones hlawful losAngeles 1772960000500000 1772970000000000
    (by decide) (by decide) (by decide) losAngeles_apart
  exact ⟨hlastAt 1772963999999999 (by decide) (by decide), hlastAt 1772964000000000 (by decide) (by decide)⟩

end Summer

end Storage

end AbyssBackend
