import AbyssBackend.Storage.Comparison
import AbyssBackend.Storage.Owners
import AbyssBackend.Storage.TokenTotals

namespace AbyssBackend.Storage

open Attempts Buckets Search Sorting Streams Text

section Aggregates

theorem sumTokens_perm {counts counts' : List TokenCounts} (h : counts.Perm counts')
    (hnonneg : ∀ count ∈ counts, count.Nonneg) : sumTokens counts = sumTokens counts' := by
  have hsum : ∀ column ∈ TokenCounts.columns, sqliteSum (counts.map column) = sqliteSum (counts'.map column) :=
    fun column hcolumn => sqliteSum_perm (h.map column) (TokenCounts.map_nonneg hnonneg hcolumn)
  obtain ⟨hinput, houtput, hread, hwrite, hreasoning, htotal⟩ := TokenCounts.forall_columns.mp hsum
  unfold sumTokens
  rw [hinput, houtput, hread, hwrite, hreasoning, htotal]

/-- Rows of the inner select that name the same events, in any order. -/
structure SameAggregate (x y : SessionAggregate) : Prop where
  group : x.group = y.group
  session : x.sessionPk = y.sessionPk ∧ x.eventPks.Perm y.eventPks
  requests : x.requests = y.requests
  responses : x.responses = y.responses
  tokens : x.tokens = y.tokens

structure SameSummary (x y : SummaryAggregateRow) : Prop where
  group : x.group = y.group
  sessions : x.sessions = y.sessions
  sessionEvents : List.Forall₂ (fun a b => a.1 = b.1 ∧ a.2.Perm b.2) x.sessionEvents y.sessionEvents
  requests : x.requests = y.requests
  responses : x.responses = y.responses
  tokens : x.tokens = y.tokens

theorem countType_perm {events events' : List EventRow} (h : events.Perm events') (eventType : String) :
    countType eventType events = countType eventType events' := by
  unfold countType
  rw [(h.filter _).length_eq]

theorem sessionAggregate_perm {events events' : List EventRow} (h : events.Perm events')
    (hnonneg : ∀ event ∈ events, (eventTokens event).Nonneg) (group : SummaryGroup) (sessionPk : Uuid) :
    Alike SameAggregate (sessionAggregate group sessionPk events) (sessionAggregate group sessionPk events') := by
  have htokens : sumTokens (events.map eventTokens) = sumTokens (events'.map eventTokens) :=
    sumTokens_perm (h.map eventTokens) (List.forall_mem_map.mpr hnonneg)
  unfold sessionAggregate
  rw [← htokens]
  apply (alike_eq.mpr rfl).bind
  rintro tokens _ rfl
  exact .ok ⟨rfl, ⟨rfl, h.map EventRow.id⟩, countType_perm h "request", countType_perm h "response", rfl⟩

theorem summaryAggregate_same {sessions sessions' : List SessionAggregate}
    (h : List.Forall₂ SameAggregate sessions sessions') (group : SummaryGroup) :
    Alike SameSummary (summaryAggregate group sessions) (summaryAggregate group sessions') := by
  have htokens : sessions.map SessionAggregate.tokens = sessions'.map SessionAggregate.tokens :=
    Rows.forall₂_map_eq h fun _ _ _ _ hsame => hsame.tokens
  have hrequests : sessions.map SessionAggregate.requests = sessions'.map SessionAggregate.requests :=
    Rows.forall₂_map_eq h fun _ _ _ _ hsame => hsame.requests
  have hresponses : sessions.map SessionAggregate.responses = sessions'.map SessionAggregate.responses :=
    Rows.forall₂_map_eq h fun _ _ _ _ hsame => hsame.responses
  unfold summaryAggregate
  rw [← htokens, ← hrequests, ← hresponses, ← h.length_eq]
  apply (alike_eq.mpr rfl).bind
  rintro tokens _ rfl
  refine .ok ⟨rfl, rfl, ?_, rfl, rfl, rfl⟩
  rw [List.forall₂_map_left_iff, List.forall₂_map_right_iff]
  exact h.imp fun _ _ hsame => hsame.session

theorem bySession_perm {rows rows' : List (SummaryGroup × EventRow)} (h : rows.Perm rows')
    (hnonneg : ∀ row ∈ rows, (eventTokens row.2).Nonneg) :
    Alike (List.Forall₂ SameAggregate) (bySession rows) (bySession rows') := by
  apply mapM_alike (buckets_congr h)
  rintro ⟨key, members⟩ hbucket ⟨_, members'⟩ - ⟨rfl, hperm⟩
  refine sessionAggregate_perm (hperm.map Prod.snd) (List.forall_mem_map.mpr fun row hrow => ?_) _ _
  obtain ⟨-, hmembers⟩ := mem_buckets.mp hbucket
  rw [hmembers] at hrow
  exact hnonneg row (List.mem_filter.mp hrow).1

theorem SameSummary.order {x y : SummaryAggregateRow} (h : SameSummary x y) : x.order = y.order := by
  unfold SummaryAggregateRow.order
  rw [h.tokens, h.group]

theorem SameSummary.summaryRow {x y : SummaryAggregateRow} (h : SameSummary x y) (turns : ℕ)
    (user : Option (Uuid × OwnerRecord)) : x.summaryRow turns user = y.summaryRow turns user := by
  unfold SummaryAggregateRow.summaryRow
  rw [h.group, h.sessions, h.requests, h.responses, h.tokens]

theorem summaryRows_same {rows rows' : List SummaryAggregateRow} (h : List.Forall₂ SameSummary rows rows')
    (turns : List ℕ) (user : Option (Uuid × OwnerRecord)) :
    ((rows.zip turns).map fun (row, turns) => row.summaryRow turns user) =
      (rows'.zip turns).map fun (row, turns) => row.summaryRow turns user := by
  have hrows : rows.map (fun row turns => row.summaryRow turns user) =
      rows'.map fun row turns => row.summaryRow turns user :=
    Rows.forall₂_map_eq h fun _ _ _ _ hsame => funext fun turns => hsame.summaryRow turns user
  have happly : ∀ rows : List SummaryAggregateRow,
      ((rows.zip turns).map fun (row, turns) => row.summaryRow turns user) =
        ((rows.map fun row turns => row.summaryRow turns user).zip turns).map fun (row, turns) => row turns := by
    intro rows
    rw [List.zip_map_left, List.map_map]
    rfl
  rw [happly, happly, hrows]

theorem turnsOf_perm (derived : SessionStructure) {pks pks' : List Uuid} (h : pks.Perm pks') :
    (derived.turnsOf pks).length = (derived.turnsOf pks').length :=
  ((h.filterMap _).dedup).length_eq

theorem summaryTurns_same {ε : Type} {groups groups' : List (List (Uuid × List Uuid))}
    (h : List.Forall₂ (List.Forall₂ fun a b => a.1 = b.1 ∧ a.2.Perm b.2) groups groups')
    (structure' : Uuid → Except ε SessionStructure) :
    SessionStructure.summaryTurns groups structure' = SessionStructure.summaryTurns groups' structure' := by
  apply mapM_congr h
  rintro sessions - sessions' - hsessions
  generalize 0 = turns
  induction hsessions generalizing turns with
  | nil => rfl
  | @cons session session' sessions sessions' hsession _ ih =>
    have hturns : ∀ derived : SessionStructure, (derived.turnsOf session.2).length =
        (derived.turnsOf session'.2).length := fun derived => turnsOf_perm derived hsession.2
    rw [List.foldlM_cons, List.foldlM_cons, hsession.1]
    simp only [hturns, ih]

end Aggregates

section Compared

theorem comparisonRow_perm {rows rows' : List ComparedEvent} (h : rows.Perm rows')
    (hnonneg : ∀ row ∈ rows, 0 ≤ row.event.totalTokens) (key : ℤ ×ₗ String) :
    comparisonRow key rows = comparisonRow key rows' := by
  have htotal : sqliteSum (rows.map fun row => row.event.totalTokens) =
      sqliteSum (rows'.map fun row => row.event.totalTokens) :=
    sqliteSum_perm (h.map _) (List.forall_mem_map.mpr hnonneg)
  unfold comparisonRow
  rw [htotal, (h.filter _).length_eq]

theorem ComparisonOption.order_injective {x y : ComparisonOption}
    (h : ComparisonOption.order x = ComparisonOption.order y) : x = y := by
  obtain ⟨hdimension, hvalue⟩ := Prod.mk.inj (toLex_inj.mp h)
  cases x
  cases y
  subst hdimension hvalue
  rfl

end Compared

variable [Sha256] [CaseMapping]

namespace Agree

variable {owner : Uuid} {store store' : Store}

section Summary

theorem summaryEvents (h : Agree owner store store') (query : SummaryQuery) (filters : SummaryFilters) :
    (summaryEvents store owner query filters).Perm (Storage.summaryEvents store' owner query filters) := by
  apply h.ownEvents
  intro event hall
  simp only [Bool.and_eq_true] at hall
  exact beq_iff_eq.mp hall.1.1.1.1.1.1.1

theorem eventTokens_nonneg (h : Agree owner store store') {event : EventRow} (hevent : event ∈ store.events) :
    (eventTokens event).Nonneg :=
  h.counters event hevent

/-- An event has the same device in both stores. -/
theorem eventDevices (h : Agree owner store store') {event : EventRow} (hevent : event ∈ store.events)
    (howner : event.userId = owner) {p : DeviceRow → Bool}
    (hp : ∀ device, p device = true ↔ device.id = event.deviceContextId) :
    store.devices.filter p = store'.devices.filter p := by
  obtain ⟨device, hdevice, hon⟩ := h.sound.hierarchy.devices event hevent
  exact h.devices hdevice (hon.userId.trans howner) fun other => by rw [hp, hon.id]

theorem groupedEvents (h : Agree owner store store') (dimensions : SummaryDimensions) (offsets : List (ℤ × ℤ))
    {events events' : List EventRow} (hperm : events.Perm events')
    (hown : ∀ event ∈ events, event ∈ store.events ∧ event.userId = owner) :
    (groupedEvents store dimensions offsets events).Perm (Storage.groupedEvents store' dimensions offsets events') := by
  apply Rows.flatMap_perm_of hperm
  intro event hevent
  obtain ⟨hmem, howner⟩ := hown event hevent
  have hjoin : (store.devices.filter fun device => dimensions.device && device.id == event.deviceContextId) =
      store'.devices.filter fun device => dimensions.device && device.id == event.deviceContextId := by
    cases dimensions.device with
    | false => simp
    | true => exact h.eventDevices hmem howner fun device => by simp
  rw [Rows.leftJoin_congr hjoin]

theorem summaryAggregates (h : Agree owner store store') (dimensions : SummaryDimensions) (offsets : List (ℤ × ℤ))
    {events events' : List EventRow} (hperm : events.Perm events')
    (hown : ∀ event ∈ events, event ∈ store.events ∧ event.userId = owner) :
    Alike (List.Forall₂ SameSummary) (summaryAggregates store dimensions offsets events)
      (Storage.summaryAggregates store' dimensions offsets events') := by
  have hnonneg : ∀ row ∈ Storage.groupedEvents store dimensions offsets events, (eventTokens row.2).Nonneg := by
    intro row hrow
    obtain ⟨event, hevent, hjoined⟩ := List.mem_flatMap.mp hrow
    obtain ⟨device, -, rfl⟩ := List.mem_map.mp hjoined
    exact h.eventTokens_nonneg (hown event hevent).1
  apply (bySession_perm (h.groupedEvents dimensions offsets hperm hown) hnonneg).bind
  intro sessions sessions' hsessions
  have hgroups : Alike (List.Forall₂ SameSummary)
      ((buckets SessionAggregate.group sessions).mapM fun pair => summaryAggregate pair.1 pair.2)
      ((buckets SessionAggregate.group sessions').mapM fun pair => summaryAggregate pair.1 pair.2) := by
    apply mapM_alike (buckets_related hsessions fun _ _ hsame => hsame.group)
    rintro ⟨group, members⟩ - ⟨_, members'⟩ - ⟨rfl, hmembers⟩
    exact summaryAggregate_same hmembers group
  exact hgroups.bind fun groups groups' hsame => .ok (forall₂_sortBy hsame fun _ _ hsame => hsame.order)

variable [TimeZones] [UserTexts]

omit [UserTexts] in
theorem dayOffsets (h : Agree owner store store') (zone : TimeZones.Tz) (fromTime toTime : ℤ) :
    dayOffsets store owner zone fromTime toTime = Storage.dayOffsets store' owner zone fromTime toTime := by
  have hevents : (store.events.filter fun event => event.userId == owner && fromTime ≤ event.observedAt &&
      event.observedAt < toTime).Perm (store'.events.filter fun event => event.userId == owner &&
        fromTime ≤ event.observedAt && event.observedAt < toTime) := by
    apply h.ownEvents
    intro event hall
    simp only [Bool.and_eq_true] at hall
    exact beq_iff_eq.mp hall.1.1
  have htimes := fun time => (hevents.map EventRow.observedAt).mem_iff (a := time)
  unfold Storage.dayOffsets
  simp only [min?_congr htimes, max?_congr htimes]

theorem usageSummary (h : Agree owner store store') (owners : Uuid → Option OwnerRecord) (query : SummaryQuery)
    (defaultLimit : ℤ) :
    usageSummary store owners owner query defaultLimit =
      Storage.usageSummary store' owners owner query defaultLimit := by
  have hstructure : Storage.sessionStructure store owner = Storage.sessionStructure store' owner :=
    funext h.sessionStructure
  unfold Storage.usageSummary
  rw [hstructure]
  apply (alike_eq.mpr rfl).bind_eq
  rintro zone _ rfl
  apply (alike_eq.mpr rfl).bind_eq
  rintro record _ rfl
  apply (alike_eq.mpr rfl).bind_eq
  rintro found _ rfl
  cases found with
  | none => rfl
  | some filters =>
    have hoffsets := h.dayOffsets zone (summaryFrom query) (summaryTo query)
    have hown : ∀ event ∈ Storage.summaryEvents store owner query filters,
        event ∈ store.events ∧ event.userId = owner := by
      intro event hevent
      obtain ⟨hmem, hall⟩ := List.mem_filter.mp hevent
      simp only [Bool.and_eq_true, beq_iff_eq] at hall
      exact ⟨hmem, hall.1.1.1.1.1.1.1⟩
    simp only [hoffsets]
    apply (h.summaryAggregates _ _ (h.summaryEvents query filters) hown).bind_eq
    intro rows rows' hrows
    have htaken := List.forall₂_take (normalizeLimit query.limit defaultLimit 100000).toNat hrows
    generalize rows.take (normalizeLimit query.limit defaultLimit 100000).toNat = rows at htaken ⊢
    generalize rows'.take (normalizeLimit query.limit defaultLimit 100000).toNat = rows' at htaken ⊢
    have hturns : SessionStructure.summaryTurns (rows.map SummaryAggregateRow.sessionEvents)
        (Storage.sessionStructure store' owner) = SessionStructure.summaryTurns
          (rows'.map SummaryAggregateRow.sessionEvents) (Storage.sessionStructure store' owner) := by
      apply summaryTurns_same
      rw [List.forall₂_map_left_iff, List.forall₂_map_right_iff]
      exact htaken.imp fun _ _ hsame => hsame.sessionEvents
    rw [hturns]
    apply (alike_eq.mpr rfl).bind_eq
    rintro turns _ rfl
    rw [summaryRows_same htaken]

end Summary

section Comparison

theorem devicesOf (h : Agree owner store store') {event : EventRow} (hevent : event ∈ store.events)
    (howner : event.userId = owner) : devicesOf store event = Storage.devicesOf store' event :=
  h.eventDevices hevent howner fun _ => beq_iff_eq

theorem comparedEvents (h : Agree owner store store') (query : ComparisonQuery) (fromTime toTime : ℤ) :
    (comparedEvents store owner query fromTime toTime).Perm
      (Storage.comparedEvents store' owner query fromTime toTime) := by
  apply Rows.flatMap_perm_of (.refl _)
  intro bucket _
  have hevents : (store.events.filter fun event => event.userId == owner &&
      event.observedAt ≥ timestampToMicros bucket.start && event.observedAt < timestampToMicros bucket.end_).Perm
      (store'.events.filter fun event => event.userId == owner &&
        event.observedAt ≥ timestampToMicros bucket.start && event.observedAt < timestampToMicros bucket.end_) := by
    apply h.ownEvents
    intro event hall
    simp only [Bool.and_eq_true] at hall
    exact beq_iff_eq.mp hall.1.1
  apply Rows.flatMap_perm_of hevents
  intro event hevent
  obtain ⟨hmem, hall⟩ := List.mem_filter.mp hevent
  simp only [Bool.and_eq_true, beq_iff_eq] at hall
  rw [h.devicesOf hmem hall.1.1]

theorem comparedEvents_nonneg (h : Agree owner store store') {query : ComparisonQuery} {fromTime toTime : ℤ}
    {row : ComparedEvent} (hrow : row ∈ Storage.comparedEvents store owner query fromTime toTime) :
    0 ≤ row.event.totalTokens := by
  obtain ⟨bucket, -, hrow⟩ := List.mem_flatMap.mp hrow
  obtain ⟨event, hevent, hrow⟩ := List.mem_flatMap.mp hrow
  obtain ⟨device, -, rfl⟩ := List.mem_map.mp hrow
  exact (TokenCounts.forall_columns.mp (h.counters event (List.mem_filter.mp hevent).1)).2.2.2.2.2

theorem comparisonOptions (h : Agree owner store store') (fromTime toTime : ℤ) :
    comparisonOptions store owner fromTime toTime = Storage.comparisonOptions store' owner fromTime toTime := by
  apply sortBy_congr ?_ fun x _ y _ hsame => ComparisonOption.order_injective hsame
  apply List.Perm.dedup
  have hevents : (store.events.filter fun event => event.userId == owner && event.observedAt ≥ fromTime &&
      event.observedAt < toTime).Perm (store'.events.filter fun event => event.userId == owner &&
        event.observedAt ≥ fromTime && event.observedAt < toTime) := by
    apply h.ownEvents
    intro event hall
    simp only [Bool.and_eq_true] at hall
    exact beq_iff_eq.mp hall.1.1
  apply Rows.flatMap_perm_of hevents
  intro event hevent
  obtain ⟨hmem, hall⟩ := List.mem_filter.mp hevent
  simp only [Bool.and_eq_true, beq_iff_eq] at hall
  rw [h.devicesOf hmem hall.1.1]

theorem comparisonRows (h : Agree owner store store') (query : ComparisonQuery) (fromTime toTime : ℤ) :
    ((buckets (fun row => (toLex (row.bucket, comparedValue query.groupBy row) : ℤ ×ₗ String))
      (Storage.comparedEvents store owner query fromTime toTime)).mapM fun (key, rows) => comparisonRow key rows) =
    (buckets (fun row => (toLex (row.bucket, comparedValue query.groupBy row) : ℤ ×ₗ String))
      (Storage.comparedEvents store' owner query fromTime toTime)).mapM fun (key, rows) => comparisonRow key rows := by
  apply mapM_congr (buckets_congr (h.comparedEvents query fromTime toTime))
  rintro ⟨key, members⟩ hbucket ⟨_, members'⟩ - ⟨rfl, hperm⟩
  refine comparisonRow_perm hperm (fun row hrow => ?_) key
  obtain ⟨-, hmembers⟩ := mem_buckets.mp hbucket
  rw [hmembers] at hrow
  exact h.comparedEvents_nonneg (List.mem_filter.mp hrow).1

theorem compare (h : Agree owner store store') (query : ComparisonQuery) :
    compare store owner query = Storage.compare store' owner query := by
  unfold Storage.compare
  apply (alike_eq.mpr rfl).bind_eq
  rintro _ _ rfl
  split
  · dsimp only
    rw [h.comparisonRows, h.comparisonOptions]
  · rfl

end Comparison

end Agree

end AbyssBackend.Storage
