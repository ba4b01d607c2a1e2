import AbyssBackend.Storage.Constraints
import AbyssBackend.Storage.UsageSummary
import AbyssBackend.Usage.TokenTotals

namespace AbyssBackend.Storage

open Attempts Buckets Search Sorting Streams Text TokenCounts

def sessionTotals (store : Store) (sessionPk : Uuid) : TokenCounts := totals ((eventsOf store sessionPk).map eventTokens)

/-- How many groups the summary has before its limit cuts it. -/
def summaryGroups [TimeZones] (store : Store) (userId : Uuid) (query : SummaryQuery) (filters : SummaryFilters)
    (zone : TimeZones.Tz) : ℕ :=
  let dimensions := SummaryDimensions.fromGroupBy (parseGroupBy query.groupBy)
  let offsets := if dimensions.day then dayOffsets store userId zone (summaryFrom query) (summaryTo query) else []
  ((groupedEvents store dimensions offsets (summaryEvents store userId query filters)).map Prod.fst).dedup.length

/-- A session's header, the session lists and the summaries of its events do not fail, and report its exact sums. -/
structure TotalsAgree [TimeZones] [UserTexts] (store : Store) (owners : Uuid → Option OwnerRecord)
    (session : SessionRow) : Prop where
  header : ∃ header, sessionHeader store session.userId session.id = .ok header ∧
    header.tokens = sessionTotals store session.id
  listed : ∀ query validated, SessionListQuery.validate query = .ok validated →
    ∃ response, listSessions store session.userId validated = .ok response ∧ ∀ item ∈ response.items,
      item.sessionPk = session.id → item.totalTokens = (sessionTotals store session.id).total
  summarized : ∀ query defaultLimit zone owner filters, parseTimeZone query.tz = .ok zone →
    owners session.userId = some owner → ownedSummaryFilters session.userId owner query = .ok (some filters) →
    summaryEvents store session.userId query filters = eventsOf store session.id →
    ∃ response, usageSummary store owners session.userId query defaultLimit = .ok response ∧
      (summaryGroups store session.userId query filters zone ≤ normalizeLimit query.limit defaultLimit 100000 →
        totals (response.rows.map SummaryRow.tokens) = sessionTotals store session.id)

section Counters

variable [Sha256] [CaseMapping] {userId : Uuid} {event : IngestUsageEvent}
  {attachments : List Attachments.ValidatedImageAttachment} {draw : EventDraw} {store after : Store}

theorem ingestOneEvent_countable (h : ingestOneEvent userId event attachments draw store = .ok (true, after)) :
    Countable event := by
  by_contra hnot
  rw [ingestOneEvent] at h
  split at h
  · cases h
  · obtain ⟨⟨deviceId, withDevice⟩, -, h⟩ := bind_eq_ok.mp h
    obtain ⟨⟨sessionPk, withSession⟩, -, h⟩ := bind_eq_ok.mp h
    obtain ⟨⟨inserted, withEvent⟩, hinsert, -⟩ := bind_eq_ok.mp h
    rw [insertEvent_rejected hnot] at hinsert
    cases hinsert

omit [Sha256] [CaseMapping] in
theorem Countable.nonneg (h : Countable event) {deviceId sessionPk : Uuid} :
    (eventTokens (newEvent userId deviceId sessionPk event draw)).Nonneg := forall_columns.mpr h

def CountersKept (store : Store) : Prop := ∀ event ∈ store.events, (eventTokens event).Nonneg

theorem CountersKept.ingestOneEvent (h : CountersKept store) (hsound : Sound store) {new : Bool}
    (hok : ingestOneEvent userId event attachments draw store = .ok (new, after)) : CountersKept after := by
  obtain ⟨-, -, rfl⟩ | ⟨rfl, deviceId, sessionPk, texts, refs, hadmitted⟩ :=
    ingestOneEvent_cases hok hsound.index.indexed hsound.index.places
  · exact h
  · intro row hrow
    rw [hadmitted.events] at hrow
    obtain hold | hnew := List.mem_append.mp hrow
    · exact h row hold
    · rw [List.mem_singleton.mp hnew]
      exact (ingestOneEvent_countable hok).nonneg

theorem Reachable.counters [Base64] (h : Reachable store) : CountersKept store := by
  apply h.keeps
  · exact fun users event hevent => absurd hevent List.not_mem_nil
  · exact fun userId event attachments draw before new after hsound hcounters hok =>
      hcounters.ingestOneEvent hsound hok
  · intro userId capture draw before new after hcounters hok
    obtain ⟨-, -, rfl⟩ | ⟨-, -, deviceId, sessionPk, rows, rfl⟩ := ingestOneDiagnosticCapture_cases hok
    · exact hcounters
    · exact hcounters

end Counters

section Sums

variable {counts : List TokenCounts}

theorem sumTokens_ok (h : ∀ count ∈ counts, count.Nonneg) (hfits : (totals counts).Fits) :
    sumTokens counts = .ok (totals counts) := by
  have hsum : ∀ column ∈ columns, sqliteSum (counts.map column) = .ok (column (totals counts)) := by
    intro column hcolumn
    have hle := hfits column hcolumn
    rw [totals_column column hcolumn] at hle ⊢
    have hvalues := map_nonneg h hcolumn
    rw [sqliteSum_eq hvalues, bigint_of_nonneg (List.sum_nonneg hvalues), if_pos hle]
  obtain ⟨hinput, houtput, hread, hwrite, hreasoning, htotal⟩ := forall_columns.mp hsum
  rw [sumTokens, hinput, houtput, hread, hwrite, hreasoning, htotal]
  rfl

/-- Sums over the groups of rows add up to the sums over the rows. -/
theorem totals_buckets {α κ : Type} [LinearOrder κ] {key : α → κ} {rows : List α} {tokens : α → TokenCounts} :
    totals ((buckets key rows).map fun bucket => totals (bucket.2.map tokens)) = totals (rows.map tokens) := by
  apply ext_columns
  intro column hcolumn
  rw [totals_column column hcolumn, totals_column column hcolumn, List.map_map, List.map_map,
    ← @sum_buckets _ _ _ key]
  congr 1
  apply List.map_congr_left
  intro bucket _
  rw [Function.comp_apply, totals_column column hcolumn, List.map_map]

/-- Where the sums over all rows fit, those over each group do. -/
theorem sumTokens_bucket {α κ : Type} [LinearOrder κ] {key : α → κ} {rows : List α} {tokens : α → TokenCounts}
    (h : ∀ row ∈ rows, (tokens row).Nonneg) (hfits : (totals (rows.map tokens)).Fits) {bucket : κ × List α}
    (hbucket : bucket ∈ buckets key rows) :
    sumTokens (bucket.2.map tokens) = .ok (totals (bucket.2.map tokens)) := by
  have hsub : bucket.2.Sublist rows := by
    rw [(mem_buckets.mp hbucket).2]
    exact List.filter_sublist
  have hnonneg : ∀ count ∈ rows.map tokens, count.Nonneg := by
    intro count hcount
    obtain ⟨row, hrow, rfl⟩ := List.mem_map.mp hcount
    exact h row hrow
  apply sumTokens_ok
  · exact fun count hcount => hnonneg count ((hsub.map tokens).subset hcount)
  · exact fun column hcolumn => (totals_le (hsub.map tokens) hnonneg hcolumn).trans (hfits column hcolumn)

end Sums

section Summary

variable {store : Store} {dimensions : SummaryDimensions} {offsets : List (ℤ × ℤ)} {events : List EventRow}

/-- With devices told apart by their ids, each event is in one group. -/
theorem groupedEvents_events (hids : (store.devices.map DeviceRow.id).Nodup) :
    (groupedEvents store dimensions offsets events).map Prod.snd = events := by
  have hone : ∀ event : EventRow, ∃ device,
      Rows.leftJoin (fun device => dimensions.device && device.id == event.deviceContextId) store.devices = [device] := by
    intro event
    apply Rows.leftJoin_one
    apply Rows.filter_length_le_one hids (k := event.deviceContextId)
    intro device _ hon
    exact beq_iff_eq.mp (Bool.and_eq_true_iff.mp hon).2
  unfold groupedEvents
  rw [List.map_flatMap]
  induction events with
  | nil => rfl
  | cons event events ih =>
    obtain ⟨device, hdevice⟩ := hone event
    rw [List.flatMap_cons, ih, hdevice]
    rfl

variable {rows : List (SummaryGroup × EventRow)}

/-- Where the sums over all rows fit, those by group and session do, and add up to them. -/
theorem bySession_ok (hnonneg : ∀ row ∈ rows, (eventTokens row.2).Nonneg)
    (hfits : (totals (rows.map fun row => eventTokens row.2)).Fits) :
    ∃ sessions, bySession rows = .ok sessions ∧
      totals (sessions.map SessionAggregate.tokens) = totals (rows.map fun row => eventTokens row.2) ∧
      (∀ session ∈ sessions, session.tokens.Nonneg) ∧
      ∀ group sessionPk, (∃ session ∈ sessions, session.group = group ∧ session.sessionPk = sessionPk) ↔
        ∃ row ∈ rows, row.1 = group ∧ row.2.sessionPk = sessionPk := by
  have hbuckets : ∀ bucket ∈ buckets (fun row => (toLex (row.1, row.2.sessionPk) : SummaryGroup ×ₗ ℕ)) rows,
      ∃ session, sessionAggregate (ofLex bucket.1).1 (ofLex bucket.1).2 (bucket.2.map Prod.snd) = .ok session ∧
        session.tokens = totals (bucket.2.map fun row => eventTokens row.2) ∧
          toLex (session.group, session.sessionPk) = bucket.1 := by
    intro bucket hbucket
    have hsum := sumTokens_bucket hnonneg hfits hbucket
    refine ⟨_, bind_eq_ok.mpr ⟨_, ?_, rfl⟩, rfl, rfl⟩
    rw [List.map_map]
    exact hsum
  obtain ⟨sessions, hsessions, hrelated⟩ := mapM_all hbuckets
  have htokens : sessions.map SessionAggregate.tokens =
      (buckets (fun row => (toLex (row.1, row.2.sessionPk) : SummaryGroup ×ₗ ℕ)) rows).map fun bucket =>
        totals (bucket.2.map fun row => eventTokens row.2) :=
    (Rows.forall₂_map_eq hrelated fun _ _ _ _ hboth => hboth.1.symm).symm
  refine ⟨sessions, hsessions, ?_, fun session hsession => ?_, fun group sessionPk => ⟨?_, ?_⟩⟩
  · rw [htokens, totals_buckets]
  · obtain ⟨bucket, hbucket, hsame, -⟩ := Rows.forall₂_mem_right hrelated hsession
    rw [hsame]
    apply totals_nonneg
    intro count hcount
    obtain ⟨row, hrow, rfl⟩ := List.mem_map.mp hcount
    rw [(mem_buckets.mp hbucket).2] at hrow
    exact hnonneg row (List.mem_filter.mp hrow).1
  · rintro ⟨session, hsession, rfl, rfl⟩
    obtain ⟨bucket, hbucket, -, hkey⟩ := Rows.forall₂_mem_right hrelated hsession
    obtain ⟨row, hrow, hsame⟩ := List.mem_map.mp (mem_buckets.mp hbucket).1
    obtain ⟨hgroup, hpk⟩ := Prod.mk.inj (toLex_inj.mp (hsame.trans hkey.symm))
    exact ⟨row, hrow, hgroup, hpk⟩
  · rintro ⟨row, hrow, rfl, rfl⟩
    obtain ⟨session, hsession, -, hkey⟩ := Rows.forall₂_mem_left hrelated (bucket_of_mem hrow)
    obtain ⟨hgroup, hpk⟩ := Prod.mk.inj (toLex_inj.mp hkey)
    exact ⟨session, hsession, hgroup, hpk⟩

/-- Where the sums over all events fit, a summary does not fail, and its groups add up to them. -/
theorem summaryAggregates_ok (dimensions : SummaryDimensions) (offsets : List (ℤ × ℤ))
    (hids : (store.devices.map DeviceRow.id).Nodup)
    (hnonneg : ∀ event ∈ events, (eventTokens event).Nonneg) (hfits : (totals (events.map eventTokens)).Fits) :
    ∃ aggregates, summaryAggregates store dimensions offsets events = .ok aggregates ∧
      totals (aggregates.map SummaryAggregateRow.tokens) = totals (events.map eventTokens) ∧
      aggregates.length = ((groupedEvents store dimensions offsets events).map Prod.fst).dedup.length ∧
      ∀ row ∈ aggregates, ∀ session ∈ row.sessionEvents, ∃ event ∈ events, event.sessionPk = session.1 := by
  have hevents : (groupedEvents store dimensions offsets events).map Prod.snd = events := groupedEvents_events hids
  have htokens : ((groupedEvents store dimensions offsets events).map fun row => eventTokens row.2) =
      events.map eventTokens := by
    rw [← congrArg (List.map eventTokens) hevents, List.map_map]
    rfl
  have hrows : ∀ row ∈ groupedEvents store dimensions offsets events, (eventTokens row.2).Nonneg :=
    fun row hrow => hnonneg row.2 (hevents ▸ List.mem_map_of_mem hrow)
  obtain ⟨sessions, hsessions, htotals, hsessionsNonneg, hkeys⟩ := bySession_ok hrows (htokens.symm ▸ hfits)
  rw [htokens] at htotals
  have hbuckets : ∀ bucket ∈ buckets SessionAggregate.group sessions,
      ∃ aggregate, summaryAggregate bucket.1 bucket.2 = .ok aggregate ∧
        aggregate.tokens = totals (bucket.2.map SessionAggregate.tokens) ∧ aggregate.group = bucket.1 ∧
          aggregate.sessionEvents = bucket.2.map fun session => (session.sessionPk, session.eventPks) := by
    intro bucket hbucket
    have hsum := sumTokens_bucket hsessionsNonneg (htotals.symm ▸ hfits) hbucket
    exact ⟨_, bind_eq_ok.mpr ⟨_, hsum, rfl⟩, rfl, rfl, rfl⟩
  obtain ⟨groups, hgroups, hrelated⟩ := mapM_all hbuckets
  have hperm := sortBy_perm SummaryAggregateRow.order groups
  refine ⟨sortBy SummaryAggregateRow.order groups, ?_, ?_, ?_, ?_⟩
  · exact bind_eq_ok.mpr ⟨sessions, hsessions, bind_eq_ok.mpr ⟨groups, hgroups, rfl⟩⟩
  · have hsame : groups.map SummaryAggregateRow.tokens =
        (buckets SessionAggregate.group sessions).map fun bucket => totals (bucket.2.map SessionAggregate.tokens) :=
      (Rows.forall₂_map_eq hrelated fun _ _ _ _ hboth => hboth.1.symm).symm
    rw [← htotals, ← @totals_buckets _ _ _ SessionAggregate.group, ← hsame]
    exact totals_perm (hperm.map _)
  · rw [hperm.length_eq, ← hrelated.length_eq, buckets_length]
    have hgroups : ∀ group, group ∈ (sessions.map SessionAggregate.group).dedup ↔
        group ∈ ((groupedEvents store dimensions offsets events).map Prod.fst).dedup := by
      intro group
      rw [List.mem_dedup, List.mem_dedup, List.mem_map, List.mem_map]
      constructor
      · rintro ⟨session, hsession, hgroup⟩
        obtain ⟨row, hrow, hsame, -⟩ := (hkeys group session.sessionPk).mp ⟨session, hsession, hgroup, rfl⟩
        exact ⟨row, hrow, hsame⟩
      · rintro ⟨row, hrow, hgroup⟩
        obtain ⟨session, hsession, hsame, -⟩ := (hkeys group row.2.sessionPk).mpr ⟨row, hrow, hgroup, rfl⟩
        exact ⟨session, hsession, hsame⟩
    exact ((List.perm_ext_iff_of_nodup (List.nodup_dedup _) (List.nodup_dedup _)).mpr hgroups).length_eq
  · intro row hrow session hsession
    obtain ⟨bucket, hbucket, -, -, hlisted⟩ := Rows.forall₂_mem_right hrelated (mem_sortBy.mp hrow)
    rw [hlisted] at hsession
    obtain ⟨aggregate, haggregate, rfl⟩ := List.mem_map.mp hsession
    rw [(mem_buckets.mp hbucket).2] at haggregate
    obtain ⟨grouped, hgrouped, -, hpk⟩ :=
      (hkeys aggregate.group aggregate.sessionPk).mp ⟨aggregate, (List.mem_filter.mp haggregate).1, rfl, rfl⟩
    exact ⟨grouped.2, hevents ▸ List.mem_map_of_mem hgrouped, hpk⟩

theorem summaryTurns_ok {ε : Type} {groups : List (List (Uuid × List Uuid))}
    {structure' : Uuid → Except ε SessionStructure}
    (h : ∀ sessions ∈ groups, ∀ session ∈ sessions, ∃ derived, structure' session.1 = .ok derived) :
    ∃ turns, SessionStructure.summaryTurns groups structure' = .ok turns ∧ turns.length = groups.length := by
  have hgroups : ∀ sessions ∈ groups, ∃ turns, (sessions.foldlM (fun turns session => do
      let derived ← structure' session.1
      return min (turns + (derived.turnsOf session.2).length) SessionStructure.usizeMax) 0) = .ok turns ∧ True := by
    intro sessions hsessions
    have hstep : ∀ done session rest turns, done ++ session :: rest = sessions → True → ∃ after, (do
        let derived ← structure' session.1
        return min (turns + (derived.turnsOf session.2).length) SessionStructure.usizeMax) = .ok after ∧ True := by
      intro done session rest turns hsplit _
      obtain ⟨derived, hderived⟩ := h sessions hsessions session (hsplit ▸ by simp)
      exact ⟨_, bind_eq_ok.mpr ⟨derived, hderived, rfl⟩, trivial⟩
    obtain ⟨turns, hturns, -⟩ := foldlM_total (P := fun _ _ => True) trivial hstep
    exact ⟨turns, hturns, trivial⟩
  obtain ⟨turns, hturns, hrelated⟩ := mapM_all hgroups
  exact ⟨turns, hturns, hrelated.length_eq.symm⟩

end Summary

section Reads

variable {store : Store} {session : SessionRow}

theorem mem_eventsOf {sessionPk : Uuid} {event : EventRow} :
    event ∈ eventsOf store sessionPk ↔ event ∈ store.events ∧ event.sessionPk = sessionPk := by
  rw [eventsOf, List.mem_filter, beq_iff_eq]

/-- Every session has an event. -/
theorem Hierarchy.event (h : Hierarchy store) (hsession : session ∈ store.sessions) :
    ∃ event ∈ store.events, event.sessionPk = session.id := by
  obtain ⟨event, hevent, hof, -⟩ := (h.sessionSpans.least session hsession).1
  exact ⟨event, hevent, hof⟩

theorem Hierarchy.structure_ok (h : Hierarchy store) (hsession : session ∈ store.sessions) :
    ∃ derived, sessionStructure store session.userId session.id = .ok derived := by
  obtain ⟨event, hevent, hof⟩ := h.event hsession
  have hown := hasOwnSession_of_mem hsession rfl
  exact ⟨_, sessionStructure_of_event hown hevent hof⟩

theorem sessionHeader_tokens (h : Hierarchy store) (hsession : session ∈ store.sessions) :
    ∃ header, sessionHeader store session.userId session.id = .ok header ∧
      header.tokens = ((eventsOf store session.id).map eventTokens).foldl TokenCounts.add {} := by
  obtain ⟨event, hevent, hof⟩ := h.event hsession
  obtain ⟨derived, hderived⟩ := h.structure_ok hsession
  have hown := hasOwnSession_of_mem hsession rfl
  have hevents : (eventsOf store session.id).isEmpty = false := by
    rw [List.isEmpty_eq_false_iff]
    exact List.ne_nil_of_mem (mem_eventsOf.mpr ⟨hevent, hof⟩)
  refine ⟨AbyssBackend.sessionHeader session.id ((eventsOf store session.id).map headerEvent) derived.summary
    (title store session.id), ?_, ?_⟩
  · unfold sessionHeader
    rw [hown, hevents, hderived]
    rfl
  · have htokens : ((eventsOf store session.id).map headerEvent).map HeaderEvent.tokens =
        (eventsOf store session.id).map eventTokens := by
      rw [List.map_map]
      rfl
    exact congrArg (List.foldl TokenCounts.add {}) htokens

theorem sessionTotals_total : (sessionTotals store session.id).total =
    ((eventsOf store session.id).map EventRow.totalTokens).sum := by
  have htotals : (sessionTotals store session.id).total =
      (((eventsOf store session.id).map eventTokens).map TokenCounts.total).sum := rfl
  rw [htotals, List.map_map]
  rfl

theorem activityRow_eq (h : CountersKept store) (session : SessionRow) (device : DeviceRow) :
    (sessionTotals store session.id).total ≤ i64Max ∧ (∃ row, activityRow store session device = .ok row ∧
      row.sessionPk = session.id ∧ row.totalTokens = (sessionTotals store session.id).total) ∨
    ¬(sessionTotals store session.id).total ≤ i64Max ∧
      activityRow store session device = .error (.database .overflow) := by
  have hvalues : ∀ value ∈ (eventsOf store session.id).map EventRow.totalTokens, 0 ≤ value := by
    intro value hvalue
    obtain ⟨event, hevent, rfl⟩ := List.mem_map.mp hvalue
    exact (forall_columns.mp (h event (mem_eventsOf.mp hevent).1)).2.2.2.2.2
  have hsum := sqliteSum_eq hvalues
  rw [← sessionTotals_total, bigint_of_nonneg (sessionTotals_total ▸ List.sum_nonneg hvalues)] at hsum
  unfold activityRow
  rw [hsum]
  split
  · next hle => exact Or.inl ⟨hle, _, rfl, rfl, rfl⟩
  · next hgt => exact Or.inr ⟨hgt, rfl⟩

theorem mem_activeSessions {userId : Uuid} {query : ValidatedSessionListQuery} {pair : SessionRow × DeviceRow}
    (h : pair ∈ activeSessions store userId query) : pair.1 ∈ store.sessions ∧ pair.1.userId = userId := by
  obtain ⟨session, hsession, hdevice⟩ := List.mem_filterMap.mp h
  obtain ⟨device, -, rfl⟩ := Option.map_eq_some_iff.mp hdevice
  obtain ⟨hmem, hactive⟩ := List.mem_filter.mp hsession
  simp only [Bool.and_eq_true, beq_iff_eq] at hactive
  exact ⟨hmem, hactive.1.1.1⟩

/-- Where the totals of all the owner's sessions fit, every list reports them. -/
theorem listSessions_ok (h : Hierarchy store) (hcounters : CountersKept store) {userId : Uuid}
    (hfits : ∀ other ∈ store.sessions, other.userId = userId → (sessionTotals store other.id).total ≤ i64Max)
    (query : ValidatedSessionListQuery) : ∃ response, listSessions store userId query = .ok response ∧
      ∀ item ∈ response.items, item.totalTokens = (sessionTotals store item.sessionPk).total := by
  have hactive : ∀ pair ∈ activeSessions store userId query, ∃ row, activityRow store pair.1 pair.2 = .ok row ∧
      row.sessionPk = pair.1.id ∧ row.totalTokens = (sessionTotals store pair.1.id).total := by
    rintro ⟨session, device⟩ hpair
    obtain ⟨hmem, howner⟩ := mem_activeSessions hpair
    obtain ⟨-, row, hrow, hboth⟩ | ⟨hgt, -⟩ := activityRow_eq hcounters session device
    · exact ⟨row, hrow, hboth⟩
    · exact absurd (hfits session hmem howner) hgt
  obtain ⟨activity, hactivity, hrows⟩ := mapM_all hactive
  have hlisted : ∀ row ∈ page query.offset query.pageSize (sortBy latestFirst (activity.filter (listed query))),
      row.totalTokens = (sessionTotals store row.sessionPk).total ∧
        ∃ derived, sessionStructure store userId row.sessionPk = .ok derived := by
    intro row hrow
    have hmem : row ∈ activity.filter (listed query) :=
      mem_sortBy.mp (List.mem_of_mem_drop (List.mem_of_mem_take hrow))
    obtain ⟨pair, hpair, hpk, htotal⟩ := Rows.forall₂_mem_right hrows (List.mem_filter.mp hmem).1
    obtain ⟨hsession, rfl⟩ := mem_activeSessions hpair
    exact hpk.symm ▸ ⟨htotal, h.structure_ok hsession⟩
  have hpage : ∀ row ∈ page query.offset query.pageSize (sortBy latestFirst (activity.filter (listed query))),
      ∃ item, (do
        let derived ← sessionStructure store userId row.sessionPk
        return row.item derived.summary.turns) = .ok item ∧
        item.sessionPk = row.sessionPk ∧ item.totalTokens = row.totalTokens := by
    intro row hrow
    obtain ⟨-, derived, hderived⟩ := hlisted row hrow
    exact ⟨_, bind_eq_ok.mpr ⟨derived, hderived, rfl⟩, rfl, rfl⟩
  obtain ⟨items, hitems, hrelated⟩ := mapM_all hpage
  refine ⟨.new query (activity.filter (listed query)).length items, ?_, fun item hitem => ?_⟩
  · have hfiltered : filtered store userId query = .ok (activity.filter (listed query)) :=
      bind_eq_ok.mpr ⟨activity, hactivity, rfl⟩
    exact bind_eq_ok.mpr ⟨_, hfiltered, bind_eq_ok.mpr ⟨items, hitems, rfl⟩⟩
  · obtain ⟨row, hrow, hpk, htotal⟩ := Rows.forall₂_mem_right hrelated hitem
    rw [hpk, htotal]
    exact (hlisted row hrow).1

def everySession : SessionListQuery where
  fromTime := none
  toTime := none
  agentName := []
  llmProvider := []
  llmModel := []
  page := none
  pageSize := none

/-- A list of all sessions fails where the total of one of them does not fit. -/
theorem listSessions_fits (h : Hierarchy store) (hcounters : CountersKept store) {userId : Uuid}
    {validated : ValidatedSessionListQuery} (hvalid : everySession.validate = .ok validated)
    {response : SessionListResponse} (hlist : listSessions store userId validated = .ok response)
    {other : SessionRow} (hother : other ∈ store.sessions) (howner : other.userId = userId) :
    (sessionTotals store other.id).total ≤ i64Max := by
  obtain ⟨rows, hrows, -⟩ := bind_eq_ok.mp hlist
  obtain ⟨activity, hactivity, -⟩ := bind_eq_ok.mp hrows
  obtain ⟨device, hdevice, hid, -⟩ := h.sessionDevices other hother
  have hfind : Rows.find DeviceRow.id other.deviceContextId store.devices = some device :=
    hid ▸ Rows.find_of_mem h.deviceIds hdevice
  have hactive : (other, device) ∈ activeSessions store userId validated := by
    cases hvalid
    refine List.mem_filterMap.mpr ⟨other, List.mem_filter.mpr ⟨hother, ?_⟩, ?_⟩
    · have hnone : exactValuesFilter [] = [] := rfl
      rw [howner]
      simp [everySession, hnone]
    · rw [hfind]
      rfl
  obtain ⟨row, -, hrow⟩ := Rows.forall₂_mem_left (mapM_ok hactivity) hactive
  obtain ⟨hle, -⟩ | ⟨-, herror⟩ := activityRow_eq hcounters other device
  · exact hle
  · cases hrow.symm.trans herror

/-- Where a session's totals fit, the summaries of its events report them. -/
theorem usageSummary_ok [TimeZones] [UserTexts] (h : Hierarchy store) (hcounters : CountersKept store)
    (hsession : session ∈ store.sessions) (hfits : (sessionTotals store session.id).Fits)
    {owners : Uuid → Option OwnerRecord} {query : SummaryQuery} {defaultLimit : ℤ} {zone : TimeZones.Tz}
    {owner : OwnerRecord} {filters : SummaryFilters} (hzone : parseTimeZone query.tz = .ok zone)
    (howner : owners session.userId = some owner)
    (hfilters : ownedSummaryFilters session.userId owner query = .ok (some filters))
    (hevents : summaryEvents store session.userId query filters = eventsOf store session.id) :
    ∃ response, usageSummary store owners session.userId query defaultLimit = .ok response ∧
      (summaryGroups store session.userId query filters zone ≤ normalizeLimit query.limit defaultLimit 100000 →
        totals (response.rows.map SummaryRow.tokens) = sessionTotals store session.id) := by
  let dimensions := SummaryDimensions.fromGroupBy (parseGroupBy query.groupBy)
  let offsets :=
    if dimensions.day then dayOffsets store session.userId zone (summaryFrom query) (summaryTo query) else []
  let limit := normalizeLimit query.limit defaultLimit 100000
  have hnonneg : ∀ event ∈ eventsOf store session.id, (eventTokens event).Nonneg :=
    fun event hevent => hcounters event (mem_eventsOf.mp hevent).1
  obtain ⟨aggregates, haggregates, htotals, hlength, hsessions⟩ :=
    summaryAggregates_ok dimensions offsets h.deviceIds hnonneg hfits
  have hstructures : ∀ sessions ∈ (aggregates.take limit.toNat).map SummaryAggregateRow.sessionEvents,
      ∀ listed ∈ sessions, ∃ derived, sessionStructure store session.userId listed.1 = .ok derived := by
    intro sessions hmem listed hlisted
    obtain ⟨row, hrow, rfl⟩ := List.mem_map.mp hmem
    obtain ⟨event, hevent, hof⟩ := hsessions row (List.mem_of_mem_take hrow) listed hlisted
    rw [← hof, (mem_eventsOf.mp hevent).2]
    exact h.structure_ok hsession
  obtain ⟨turns, hturns, hturnsLength⟩ := summaryTurns_ok hstructures
  rw [← hevents] at haggregates
  have howned : loadOwner owners session.userId = .ok owner := by
    unfold loadOwner
    rw [howner]
  refine ⟨_, bind_eq_ok.mpr ⟨zone, hzone, bind_eq_ok.mpr ⟨owner, howned, bind_eq_ok.mpr ⟨some filters, hfilters,
    bind_eq_ok.mpr ⟨aggregates, haggregates, bind_eq_ok.mpr ⟨turns, hturns, rfl⟩⟩⟩⟩⟩, fun hlimit => ?_⟩
  have hall : aggregates.take limit.toNat = aggregates := by
    apply List.take_of_length_le
    have hgroups : (aggregates.length : ℤ) ≤ limit := by
      rw [hlength, ← hevents]
      exact hlimit
    omega
  have hzip : ((aggregates.take limit.toNat).zip turns).map Prod.fst = aggregates := by
    rw [List.length_map] at hturnsLength
    rw [List.map_fst_zip hturnsLength.ge, hall]
  have htokens : (((aggregates.take limit.toNat).zip turns).map fun pair => pair.1.summaryRow pair.2
      (if dimensions.user then some (session.userId, owner) else none)).map SummaryRow.tokens =
      aggregates.map SummaryAggregateRow.tokens := by
    rw [← congrArg (List.map SummaryAggregateRow.tokens) hzip, List.map_map, List.map_map]
    rfl
  exact (congrArg totals htokens).trans htotals

end Reads

section Agreement

variable [Sha256] [CaseMapping] [Base64] [TimeZones] [UserTexts] {store : Store} {session : SessionRow}
  {owners : Uuid → Option OwnerRecord}

/-- A session's header, lists and summaries agree on its exact totals exactly where these fit, and so do the totals of
its owner's other sessions. -/
theorem Reachable.totals_agree_iff (h : Reachable store) (hsession : session ∈ store.sessions) :
    TotalsAgree store owners session ↔ (sessionTotals store session.id).Fits ∧
      ∀ other ∈ store.sessions, other.userId = session.userId → (sessionTotals store other.id).total ≤ i64Max := by
  have hierarchy := h.sound.hierarchy
  have hcounters := h.counters
  obtain ⟨header, hheader, htokens⟩ := sessionHeader_tokens hierarchy hsession
  have hnonneg : ∀ count ∈ (eventsOf store session.id).map eventTokens, count.Nonneg := by
    intro count hcount
    obtain ⟨event, hevent, rfl⟩ := List.mem_map.mp hcount
    exact hcounters event (mem_eventsOf.mp hevent).1
  have hfold := foldl_add_iff hnonneg
  constructor
  · intro hagree
    obtain ⟨header', hheader', htokens'⟩ := hagree.header
    obtain rfl := Except.ok.inj (hheader.symm.trans hheader')
    refine ⟨hfold.mp (htokens.symm.trans htokens'), fun other hother howner => ?_⟩
    obtain ⟨response, hresponse, -⟩ := hagree.listed everySession _ rfl
    exact listSessions_fits hierarchy hcounters rfl hresponse hother howner
  · rintro ⟨hfits, hothers⟩
    refine ⟨⟨header, hheader, htokens.trans (hfold.mpr hfits)⟩, fun query validated _ => ?_, ?_⟩
    · obtain ⟨response, hresponse, hitems⟩ := listSessions_ok hierarchy hcounters hothers validated
      exact ⟨response, hresponse, fun item hitem hpk => hpk ▸ hitems item hitem⟩
    · intro query defaultLimit zone owner filters hzone howner hfilters hevents
      exact usageSummary_ok hierarchy hcounters hsession hfits hzone howner hfilters hevents

end Agreement

section Overflow

open Fixtures

local instance totalsDigest : Sha256 := cargoDigest

local instance totalsContent : Base64 := noContent

local instance totalsCase : CaseMapping := asciiCase

local instance totalsZones : TimeZones := utcZone

local instance totalsTexts : UserTexts := asciiTexts

def totalsStore (request : IngestEventsRequest) : Store := afterIngest request 1 10 (draws 100) { users := [1] }

theorem Reachable.totals_agree_batch : ∃ session, (totalsStore batch).sessions = [session] ∧
    TotalsAgree (totalsStore batch) (fun _ => some ⟨"alice@example.com", none⟩) session := by
  obtain ⟨session, hsession⟩ := List.length_eq_one_iff.mp (show (totalsStore batch).sessions.length = 1 from rfl)
  have hmem : session ∈ (totalsStore batch).sessions := hsession ▸ List.mem_singleton_self session
  refine ⟨session, hsession, (Reachable.totals_agree_iff (.ingest (.start [1]) batch 1 10 (draws 100)) hmem).mpr ?_⟩
  have hall : ∀ other ∈ (totalsStore batch).sessions, (sessionTotals (totalsStore batch) other.id).Fits := by decide
  exact ⟨hall session hmem, fun other hother _ => hall other hother TokenCounts.total (by simp [columns])⟩

/-- Two responses of one session, the first of which alone counts as many tokens as an `i64` holds. -/
def overflowing : IngestEventsRequest where
  events := [{ event "e1" 1 .response [] with tokenUsage := ⟨none, none, none, none, none, some i64Max⟩ },
    { event "e2" 2 .response [] with tokenUsage := ⟨none, none, none, none, none, some 1⟩ }]
  diagnosticCaptures := []

theorem overflowing_disagrees : Reachable (totalsStore overflowing) ∧
    (totalsStore overflowing).sessions.map SessionRow.id = [101] ∧
    (sessionHeader (totalsStore overflowing) 1 101).toOption.map (fun header => header.tokens.total) = some i64Max ∧
    ∃ session ∈ (totalsStore overflowing).sessions,
      ¬TotalsAgree (totalsStore overflowing) (fun _ => some ⟨"alice@example.com", none⟩) session := by
  refine ⟨.ingest (.start [1]) overflowing 1 10 (draws 100), rfl, rfl, ?_⟩
  obtain ⟨session, hsession⟩ := List.length_eq_one_iff.mp (show (totalsStore overflowing).sessions.length = 1 from rfl)
  have hmem : session ∈ (totalsStore overflowing).sessions := hsession ▸ List.mem_singleton_self session
  refine ⟨session, hmem, fun hagree => ?_⟩
  have howner : ∀ other ∈ (totalsStore overflowing).sessions, other.userId = 1 := by decide
  have hvalid : everySession.validate = .ok ⟨none, none, [], [], [], 1, 20, 0⟩ := rfl
  have herror : listSessions (totalsStore overflowing) 1 ⟨none, none, [], [], [], 1, 20, 0⟩ =
      .error (.database .overflow) := rfl
  obtain ⟨response, hresponse, -⟩ := hagree.listed everySession _ hvalid
  rw [howner session hmem] at hresponse
  cases hresponse.symm.trans herror

end Overflow

end AbyssBackend.Storage
