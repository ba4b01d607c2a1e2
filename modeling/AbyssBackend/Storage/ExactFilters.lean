import AbyssBackend.Storage.Events
import AbyssBackend.Storage.Replays
import AbyssBackend.Storage.TokenTotals

namespace AbyssBackend.Storage

open Attempts Search Sorting Streams Text

/-- A field that queries filter exactly. -/
inductive ExactField
  | agentName
  | sessionId
  | llmProvider
  | llmModel
deriving DecidableEq, Repr

namespace ExactField

def stored : ExactField → EventRow → String
  | agentName, event => event.agentName
  | sessionId, event => event.sessionId
  | llmProvider, event => event.llmProvider
  | llmModel, event => event.llmModel

def returned : ExactField → UsageEventResponse → String
  | agentName, response => response.agent.name
  | sessionId, response => response.sessionId
  | llmProvider, response => response.llm.provider
  | llmModel, response => response.llm.model

def ofRaw : ExactField → RawEventsQuery → List String
  | agentName, query => query.agentName
  | sessionId, query => query.sessionId
  | llmProvider, query => query.llmProvider
  | llmModel, query => query.llmModel

def ofSummary : ExactField → SummaryQuery → List String
  | agentName, query => query.agentName
  | sessionId, query => query.sessionId
  | llmProvider, query => query.llmProvider
  | llmModel, query => query.llmModel

/-- The query's only filter is that of the field. -/
structure OnlyRaw (field : ExactField) (values : List String) (query : RawEventsQuery) : Prop where
  fromTime : query.fromTime = none
  toTime : query.toTime = none
  sessionPk : query.sessionPk = none
  eventType : query.eventType = none
  filter : field.ofRaw query = values
  others : ∀ other : ExactField, other ≠ field → other.ofRaw query = []

structure OnlySummary (field : ExactField) (values : List String) (query : SummaryQuery) : Prop where
  fromTime : query.fromTime = none
  toTime : query.toTime = none
  userFilter : query.userFilter = none
  eventType : query.eventType = none
  filter : field.ofSummary query = values
  others : ∀ other : ExactField, other ≠ field → other.ofSummary query = []

end ExactField

/-- An event is on some page of the query. -/
def RawMatches (store : Store) (owner : Uuid) (query : RawEventsQuery) (defaultLimit : ℤ) (pk : Uuid) : Prop :=
  ∃ limit offset response, rawEvents store owner { query with limit, offset } defaultLimit = .ok response ∧
    pk ∈ response.events.map UsageEventResponse.id

/-- An event is among those that the query's summary is of. -/
def SummaryMatches [UserTexts] (store : Store) (owner : Uuid) (record : OwnerRecord) (query : SummaryQuery)
    (pk : Uuid) : Prop :=
  ∃ filters, ownedSummaryFilters owner record query = .ok (some filters) ∧
    pk ∈ (summaryEvents store owner query filters).map EventRow.id

/-- What matches is the event and no event with another value. -/
structure FindsExactly (store : Store) (field : ExactField) (event : EventRow) (matched : Uuid → Prop) : Prop where
  found : matched event.id
  exact : ∀ other ∈ store.events, matched other.id → field.stored other = field.stored event

/-- A value that trimming leaves as it is, or a blank one that all of the owner's events have. -/
def Findable (store : Store) (field : ExactField) (event : EventRow) : Prop :=
  if trim (field.stored event) = "" then
    ∀ other ∈ store.events, other.userId = event.userId → field.stored other = field.stored event
  else trim (field.stored event) = field.stored event

/-- A time that chrono has, in microseconds. -/
def Timely (event : EventRow) : Prop := IsInstant (event.observedAt / microsPerSecond)

instance (event : EventRow) : Decidable (Timely event) := inferInstanceAs (Decidable (IsInstant _))

/-- What a filter of one value leaves. -/
def Selected (value stored : String) : Prop := trim value = "" ∨ stored = trim value

section Filters

variable {field : ExactField} {value stored : String} {store : Store} {owner pk : Uuid} {event : EventRow}
  {query : RawEventsQuery}

theorem anyOf_exact (value stored : String) :
    anyOf (exactValuesFilter [value]) stored = true ↔ Selected value stored := by
  by_cases hblank : trim value = ""
  · have hnone : exactValuesFilter [value] = [] := by simp [exactValuesFilter, nonEmpty, hblank, distinct, sortBy]
    simp [hnone, anyOf, Selected, hblank]
  · have hone : exactValuesFilter [value] = [trim value] := by
      simp [exactValuesFilter, nonEmpty, hblank, distinct, sortBy]
    simp [hone, anyOf, Selected, hblank]

theorem anyOf_nil (stored : String) : anyOf (exactValuesFilter []) stored = true := rfl

theorem findable_iff {matched : Uuid → Prop} (hevent : event ∈ store.events)
    (hids : (store.events.map EventRow.id).Nodup)
    (h : ∀ pk, matched pk ↔ ∃ other ∈ store.events, other.id = pk ∧ other.userId = event.userId ∧
      Selected (field.stored event) (field.stored other)) :
    FindsExactly store field event matched ↔ Findable store field event := by
  have hmatched : ∀ other ∈ store.events, matched other.id ↔
      other.userId = event.userId ∧ Selected (field.stored event) (field.stored other) := by
    intro other hother
    rw [h]
    constructor
    · rintro ⟨same, hsame, hid, hmatch⟩
      rw [← List.inj_on_of_nodup_map hids hsame hother hid]
      exact hmatch
    · intro hmatch
      exact ⟨other, hother, rfl, hmatch⟩
  unfold Findable
  split_ifs with hblank
  · constructor
    · intro hfinds other hother howner
      exact hfinds.exact other hother ((hmatched other hother).mpr ⟨howner, .inl hblank⟩)
    · intro hall
      refine ⟨(hmatched event hevent).mpr ⟨rfl, .inl hblank⟩, fun other hother hmatch => ?_⟩
      exact hall other hother ((hmatched other hother).mp hmatch).1
  · constructor
    · intro hfinds
      obtain ⟨-, hempty | hsame⟩ := (hmatched event hevent).mp hfinds.found
      · exact absurd hempty hblank
      · exact hsame.symm
    · intro hplain
      refine ⟨(hmatched event hevent).mpr ⟨rfl, .inr hplain.symm⟩, fun other hother hmatch => ?_⟩
      obtain ⟨-, hempty | hsame⟩ := (hmatched other hother).mp hmatch
      · exact absurd hempty hblank
      · exact hsame.trans hplain

/-- A list for one of the fields, and none for the others. -/
theorem selected_iff {lists : ExactField → List String} (hfield : lists field = [value])
    (hothers : ∀ other, other ≠ field → lists other = []) (event : EventRow) :
    (∀ other, anyOf (exactValuesFilter (lists other)) (other.stored event) = true) ↔
      Selected value (field.stored event) := by
  constructor
  · intro hall
    have hselected := hall field
    rw [hfield] at hselected
    exact (anyOf_exact value _).mp hselected
  · intro hselected other
    by_cases hother : other = field
    · rw [hother, hfield]
      exact (anyOf_exact value _).mpr hselected
    · rw [hothers other hother]
      exact anyOf_nil _

/-- The events that a query with one filter is answered from, the newest first. -/
def selectedEvents (store : Store) (owner : Uuid) (field : ExactField) (value : String) : List EventRow :=
  sortBy newestFirst (store.events.filter fun event => event.userId == owner &&
    anyOf (exactValuesFilter [value]) (field.stored event))

theorem mem_selectedEvents : event ∈ selectedEvents store owner field value ↔
    event ∈ store.events ∧ event.userId = owner ∧ Selected value (field.stored event) := by
  rw [selectedEvents, mem_sortBy, List.mem_filter, Bool.and_eq_true, beq_iff_eq, anyOf_exact]

theorem eventResponses_ids (store : Store) (events : List EventRow) (includeContent : Bool) :
    (eventResponses store events includeContent).map UsageEventResponse.id = events.map EventRow.id := by
  rw [eventResponses, List.map_map]
  rfl

theorem ExactField.OnlyRaw.admits (h : field.OnlyRaw [value] query) (limit offset : ℤ) (event : EventRow) :
    EventFilters.admits
      { userId := owner
        fromTime := query.fromTime
        toTime := query.toTime
        agentNames := query.agentName
        sessionIds := query.sessionId
        sessionPk := query.sessionPk
        llmProviders := query.llmProvider
        llmModels := query.llmModel
        eventType := query.eventType
        limit
        offset } none event =
      (event.userId == owner && anyOf (exactValuesFilter [value]) (field.stored event)) := by
  rw [Bool.eq_iff_iff, Bool.and_eq_true, anyOf_exact, ← selected_iff h.filter h.others event]
  simp only [EventFilters.admits, h.fromTime, h.toTime, h.sessionPk, Option.all_none, Bool.and_true, Bool.and_eq_true]
  constructor
  · rintro ⟨⟨⟨⟨howner, hagent⟩, hsession⟩, hprovider⟩, hmodel⟩
    refine ⟨howner, fun other => ?_⟩
    cases other with
    | agentName => exact hagent
    | sessionId => exact hsession
    | llmProvider => exact hprovider
    | llmModel => exact hmodel
  · rintro ⟨howner, hall⟩
    exact ⟨⟨⟨⟨howner, hall .agentName⟩, hall .sessionId⟩, hall .llmProvider⟩, hall .llmModel⟩

theorem ids_withoutContent (includeContent : Bool) (rows : List EventRow) :
    (if includeContent then rows else rows.map EventRow.withoutContent).map EventRow.id = rows.map EventRow.id := by
  cases includeContent with
  | true => rfl
  | false => exact List.map_map

theorem take_of_longer {α : Type} (size : ℕ) (rows : List α) :
    (if rows.length > size then rows.take size else rows) = rows.take size := by
  split
  · rfl
  · next hlength => exact (List.take_of_length_le (not_lt.mp hlength)).symm

theorem rawEvents_page (h : field.OnlyRaw [value] query) (limit offset : Option ℤ) (defaultLimit : ℤ) :
    ∃ response, rawEvents store owner { query with limit, offset } defaultLimit = .ok response ∧
      response.events.map UsageEventResponse.id =
        ((page (max (offset.getD 0) 0) (normalizeLimit limit defaultLimit 1000).toNat
          (selectedEvents store owner field value)).map EventRow.id) := by
  have hlimit : saturatingAdd (normalizeLimit limit defaultLimit 1000) 1 =
      normalizeLimit limit defaultLimit 1000 + 1 := by
    unfold saturatingAdd normalizeLimit i64Min i64Max
    omega
  have hpositive : 0 < normalizeLimit limit defaultLimit 1000 := by
    unfold normalizeLimit
    omega
  have hrows : store.events.filter (EventFilters.admits
      { userId := owner
        fromTime := query.fromTime
        toTime := query.toTime
        agentNames := query.agentName
        sessionIds := query.sessionId
        sessionPk := query.sessionPk
        llmProviders := query.llmProvider
        llmModels := query.llmModel
        eventType := query.eventType
        limit := saturatingAdd (normalizeLimit limit defaultLimit 1000) 1
        offset := max (offset.getD 0) 0 } none) = store.events.filter fun event => event.userId == owner &&
          anyOf (exactValuesFilter [value]) (field.stored event) :=
    List.filter_congr fun event _ => h.admits _ _ event
  refine ⟨_, bind_eq_ok.mpr ⟨_, bind_eq_ok.mpr ⟨none, by rw [h.eventType]; rfl, rfl⟩, rfl⟩, ?_⟩
  simp only [eventResponses_ids, take_of_longer, List.map_take, ids_withoutContent]
  rw [hrows, ← List.map_take, page, hlimit, page, List.take_take, Nat.min_eq_left]
  · rfl
  · omega

theorem rawMatches_iff (h : field.OnlyRaw [value] query) (defaultLimit : ℤ) (pk : Uuid) :
    RawMatches store owner query defaultLimit pk ↔
      ∃ event ∈ store.events, event.id = pk ∧ event.userId = owner ∧ Selected value (field.stored event) := by
  constructor
  · rintro ⟨limit, offset, response, hresponse, hpk⟩
    obtain ⟨response', hresponse', hids⟩ := @rawEvents_page field value store owner query h limit offset defaultLimit
    cases hresponse.symm.trans hresponse'
    rw [hids] at hpk
    obtain ⟨event, hevent, hid⟩ := List.mem_map.mp hpk
    obtain ⟨hmem, hselected⟩ := mem_selectedEvents.mp (List.mem_of_mem_drop (List.mem_of_mem_take hevent))
    exact ⟨event, hmem, hid, hselected⟩
  · rintro ⟨event, hevent, rfl, hselected⟩
    obtain ⟨i, hi, hat⟩ := List.mem_iff_getElem.mp
      ((@mem_selectedEvents field value store owner event).mpr ⟨hevent, hselected⟩)
    obtain ⟨response, hresponse, hids⟩ :=
      @rawEvents_page field value store owner query h (some 1) (some i) defaultLimit
    refine ⟨some 1, some i, response, hresponse, ?_⟩
    rw [hids]
    apply List.mem_map_of_mem
    have hpage : page (max ((some (i : ℤ)).getD 0) 0) (normalizeLimit (some 1) defaultLimit 1000).toNat
        (selectedEvents store owner field value) = [event] := by
      have hoffset : (max ((some (i : ℤ)).getD 0) 0).toNat = i := by
        simp
      rw [page, hoffset, List.drop_eq_getElem_cons hi, hat]
      rfl
    rw [hpage]
    exact List.mem_singleton.mpr rfl

theorem Timely.within (h : Timely event) : i64Min ≤ event.observedAt ∧ event.observedAt < i64Max := by
  obtain ⟨hfirst, hlast⟩ := h
  unfold microsPerSecond at hfirst hlast
  unfold i64Min i64Max
  omega

variable [UserTexts] {summary : SummaryQuery} {record : OwnerRecord}

theorem ExactField.OnlySummary.filters (h : field.OnlySummary [value] summary) :
    ownedSummaryFilters owner record summary = .ok (some
      { agentNames := exactValuesFilter summary.agentName
        sessionIds := exactValuesFilter summary.sessionId
        providers := exactValuesFilter summary.llmProvider
        models := exactValuesFilter summary.llmModel
        eventType := none }) := by
  rw [ownedSummaryFilters, ownerMatchesFilter, h.userFilter, summaryFilters, h.eventType]
  rfl

theorem summaryMatches_iff (h : field.OnlySummary [value] summary) (htimes : ∀ event ∈ store.events, Timely event)
    (record : OwnerRecord) (pk : Uuid) : SummaryMatches store owner record summary pk ↔
      ∃ event ∈ store.events, event.id = pk ∧ event.userId = owner ∧ Selected value (field.stored event) := by
  have hmem : ∀ event, event ∈ summaryEvents store owner summary
      { agentNames := exactValuesFilter summary.agentName
        sessionIds := exactValuesFilter summary.sessionId
        providers := exactValuesFilter summary.llmProvider
        models := exactValuesFilter summary.llmModel
        eventType := none } ↔ event ∈ store.events ∧ event.userId = owner ∧ Selected value (field.stored event) := by
    intro event
    rw [summaryEvents, List.mem_filter]
    apply and_congr_right
    intro hevent
    obtain ⟨hfirst, hlast⟩ := (htimes event hevent).within
    rw [← selected_iff h.filter h.others event]
    simp only [summaryFrom, summaryTo, h.fromTime, h.toTime, Option.map_none, Option.getD_none, hfirst, hlast,
      decide_true, Bool.and_true, Option.all_none, Bool.and_eq_true, beq_iff_eq]
    constructor
    · rintro ⟨⟨⟨⟨howner, hagent⟩, hsession⟩, hprovider⟩, hmodel⟩
      refine ⟨howner, fun other => ?_⟩
      cases other with
      | agentName => exact hagent
      | sessionId => exact hsession
      | llmProvider => exact hprovider
      | llmModel => exact hmodel
    · rintro ⟨howner, hall⟩
      exact ⟨⟨⟨⟨howner, hall .agentName⟩, hall .sessionId⟩, hall .llmProvider⟩, hall .llmModel⟩
  constructor
  · rintro ⟨filters, hfilters, hpk⟩
    cases h.filters.symm.trans hfilters
    obtain ⟨event, hevent, hid⟩ := List.mem_map.mp hpk
    obtain ⟨hstored, hselected⟩ := (hmem event).mp hevent
    exact ⟨event, hstored, hid, hselected⟩
  · rintro ⟨event, hevent, rfl, hselected⟩
    exact ⟨_, h.filters, List.mem_map_of_mem ((hmem event).mpr ⟨hevent, hselected⟩)⟩

end Filters

section Claims

variable [Sha256] [CaseMapping] [Base64] [UserTexts] {store : Store} {field : ExactField} {event : EventRow}
  {raw : RawEventsQuery} {summary : SummaryQuery}

omit [Sha256] [CaseMapping] [Base64] [UserTexts] in
/-- The event API returns each field as it is stored. -/
theorem Hierarchy.usageEvent_returns (h : Hierarchy store) (hevent : event ∈ store.events) :
    ∃ response, SqliteFtsBackend.usageEvent store event.userId event.id = .ok response ∧
      ∀ field : ExactField, field.returned response = field.stored event := by
  obtain ⟨session, hsession, hof⟩ := h.sessions event hevent
  have hown := hasOwnSession_of_mem hsession rfl
  have hstructure := sessionStructure_of_event hown hevent hof.id.symm
  rw [hof.userId, hof.id] at hstructure
  have hfind : (store.events.find? fun other => other.id == event.id && other.userId == event.userId) = some event := by
    obtain ⟨other, hother⟩ := Option.isSome_iff_exists.mp ((@List.find?_isSome _ store.events
      fun other => other.id == event.id && other.userId == event.userId).mpr ⟨event, hevent, by simp⟩)
    have hboth := List.find?_some hother
    obtain ⟨hid, -⟩ := Bool.and_eq_true_iff.mp hboth
    rw [hother, List.inj_on_of_nodup_map h.eventPks (List.mem_of_find?_eq_some hother) hevent (beq_iff_eq.mp hid)]
  refine ⟨_, bind_eq_ok.mpr ⟨_, by rw [usageEvent, hfind]; rfl, bind_eq_ok.mpr ⟨_, hstructure, rfl⟩⟩, fun field => ?_⟩
  cases field
  all_goals rfl

/-- The lists that hold just an event's value find it and no event with another one exactly where the value is
findable: trimmed, or blank and the only one there is. -/
theorem Reachable.finds_exactly_iff (h : Reachable store) (hevent : event ∈ store.events)
    (htimes : ∀ event ∈ store.events, Timely event) (hraw : field.OnlyRaw [field.stored event] raw)
    (hsummary : field.OnlySummary [field.stored event] summary) (defaultLimit : ℤ) (record : OwnerRecord) :
    (∃ response, SqliteFtsBackend.usageEvent store event.userId event.id = .ok response ∧
      field.returned response = field.stored event) ∧
    (FindsExactly store field event (RawMatches store event.userId raw defaultLimit) ↔ Findable store field event) ∧
    (FindsExactly store field event (SummaryMatches store event.userId record summary) ↔
      Findable store field event) := by
  have hhierarchy := h.sound.hierarchy
  obtain ⟨response, hresponse, hreturned⟩ := hhierarchy.usageEvent_returns hevent
  refine ⟨⟨response, hresponse, hreturned field⟩, ?_, ?_⟩
  · exact findable_iff hevent hhierarchy.eventPks (rawMatches_iff hraw defaultLimit)
  · exact findable_iff hevent hhierarchy.eventPks (summaryMatches_iff hsummary htimes record)

end Claims

section Padded

open Fixtures

local instance paddedDigest : Sha256 := cargoDigest

local instance paddedContent : Base64 := noContent

local instance paddedCase : CaseMapping := asciiCase

local instance paddedTexts : UserTexts := asciiTexts

def agentEvents (agent : String) : RawEventsQuery where
  fromTime := none
  toTime := none
  agentName := [agent]
  sessionId := []
  sessionPk := none
  llmProvider := []
  llmModel := []
  eventType := none
  limit := none
  offset := none
  fields := none
  locate := false

def agentSummary (agent : String) : SummaryQuery where
  fromTime := none
  toTime := none
  groupBy := none
  tz := none
  fields := none
  userFilter := none
  agentName := [agent]
  sessionId := []
  llmProvider := []
  llmModel := []
  eventType := none
  limit := none

theorem agentEvents_only (agent : String) : ExactField.agentName.OnlyRaw [agent] (agentEvents agent) := by
  refine ⟨rfl, rfl, rfl, rfl, rfl, fun other hother => ?_⟩
  cases other with
  | agentName => exact absurd rfl hother
  | sessionId => rfl
  | llmProvider => rfl
  | llmModel => rfl

theorem agentSummary_only (agent : String) : ExactField.agentName.OnlySummary [agent] (agentSummary agent) := by
  refine ⟨rfl, rfl, rfl, rfl, rfl, fun other hother => ?_⟩
  cases other with
  | agentName => exact absurd rfl hother
  | sessionId => rfl
  | llmProvider => rfl
  | llmModel => rfl

set_option maxRecDepth 4000 in
theorem Reachable.findable_batch : ∃ event ∈ batchStore.events, event.agentName = "codex_exec" ∧
    FindsExactly batchStore .agentName event (RawMatches batchStore event.userId (agentEvents "codex_exec") 100) ∧
    FindsExactly batchStore .agentName event
      (SummaryMatches batchStore event.userId ⟨"alice@example.com", none⟩ (agentSummary "codex_exec")) := by
  have hreachable : Reachable batchStore := .ingest (.start [1]) batch 1 10 (draws 100)
  obtain ⟨event, hevent, hagent⟩ : ∃ event ∈ batchStore.events, event.agentName = "codex_exec" := by decide
  have hfindable : Findable batchStore .agentName event := by
    have hplain : ¬ trim "codex_exec" = "" ∧ trim "codex_exec" = "codex_exec" := by decide
    rw [Findable, ExactField.stored, hagent, if_neg hplain.1]
    exact hplain.2
  have hraw := agentEvents_only event.agentName
  have hsummary := agentSummary_only event.agentName
  obtain ⟨-, hevents, hsummarized⟩ := Reachable.finds_exactly_iff hreachable hevent (by decide) hraw hsummary 100
    ⟨"alice@example.com", none⟩
  rw [hagent] at hevents hsummarized
  exact ⟨event, hevent, hagent, hevents.mpr hfindable, hsummarized.mpr hfindable⟩

def paddedBatch : IngestEventsRequest where
  events := [{ Fixtures.event "e1" 1 .request [] with agent := ⟨" codex ", none⟩ }]
  diagnosticCaptures := []

def paddedStore : Store := afterIngest paddedBatch 1 10 (draws 100) emptyStore

set_option maxRecDepth 4000 in
/-- An agent's name with blanks around it is stored so, and a filter of it finds nothing. -/
theorem paddedAgent_not_found : Reachable paddedStore ∧ ∃ event ∈ paddedStore.events, event.agentName = " codex " ∧
    ¬ FindsExactly paddedStore .agentName event (RawMatches paddedStore event.userId (agentEvents " codex ") 100) ∧
    ¬ FindsExactly paddedStore .agentName event
      (SummaryMatches paddedStore event.userId ⟨"alice@example.com", none⟩ (agentSummary " codex ")) := by
  have hreachable : Reachable paddedStore := .ingest (.start [1]) paddedBatch 1 10 (draws 100)
  refine ⟨hreachable, ?_⟩
  obtain ⟨event, hevent, hagent⟩ : ∃ event ∈ paddedStore.events, event.agentName = " codex " := by decide
  have hnot : ¬ Findable paddedStore .agentName event := by
    have hpadded : ¬ trim " codex " = "" ∧ trim " codex " ≠ " codex " := by decide
    rw [Findable, ExactField.stored, hagent, if_neg hpadded.1]
    exact hpadded.2
  have hids := hreachable.sound.hierarchy.eventPks
  have hraw := agentEvents_only event.agentName
  have hsummary := agentSummary_only event.agentName
  have hevents := @findable_iff .agentName paddedStore event _ hevent hids (rawMatches_iff hraw 100)
  have hsummarized := @findable_iff .agentName paddedStore event _ hevent hids
    (summaryMatches_iff hsummary (by decide) ⟨"alice@example.com", none⟩)
  rw [hagent] at hevents hsummarized
  exact ⟨event, hevent, hagent, fun hfinds => hnot (hevents.mp hfinds), fun hfinds => hnot (hsummarized.mp hfinds)⟩

end Padded

end AbyssBackend.Storage
