import AbyssBackend.Postgres.Ingest
import AbyssBackend.Storage.SessionList

namespace AbyssBackend.Postgres

open Sorting Storage Streams

/-- The `streamEvent` of joined columns, whose lists are read; an absent fact reads as its default. -/
def joinedEvent (event : EventRow) (facts : Option StreamFactsRow) : StreamEvent where
  pk := event.id
  eventId := event.eventId
  observedAt := event.observedAt
  responseId := event.responseId
  previousResponseId := event.previousResponseId
  subagentId := facts.bind StreamFactsRow.subagentId
  parentSubagentId := facts.bind StreamFactsRow.parentSubagentId
  turnId := facts.bind StreamFactsRow.turnId
  facts :=
    if event.eventType = UsageEventType.request.asStr then
      .request
        { newFrom := (facts.bind StreamFactsRow.newFrom).getD 0
          startsTurn := (facts.bind StreamFactsRow.startsTurn).getD false
          lastIdentity := facts.bind StreamFactsRow.lastIdentity
          previousIdentity := facts.bind StreamFactsRow.previousIdentity
          trailing := (facts.bind StreamFactsRow.trailing).getD []
          resultIds := (facts.bind StreamFactsRow.resultIds).getD []
          label := Label.fromColumns (facts.bind StreamFactsRow.labelIndex) (facts.bind StreamFactsRow.labelText)
            (facts.bind StreamFactsRow.labelLength) }
    else
      .response
        { emittedIds := (facts.bind StreamFactsRow.emittedIds).getD []
          outputSkeleton := (facts.bind StreamFactsRow.outputSkeleton).getD [] }

section Reads

variable (tables : Tables)

/-- Every event, with its stream facts or without any. -/
def joinedFacts : List (EventRow × Option StreamFactsRow) :=
  tables.events.flatMap fun event =>
    (Rows.leftJoin (fun facts => facts.eventPk == event.id) tables.streamFacts).map (event, ·)

def streamEvents (sessionPk : Uuid) : List StreamEvent :=
  let rows := (joinedFacts tables).filter fun row => row.1.sessionPk == sessionPk
  (sortBy (fun row => sessionOrder row.1) rows).map fun row => joinedEvent row.1 row.2

def ownSession (userId sessionPk : Uuid) : Option Uuid :=
  (tables.sessions.find? fun session => session.userId == userId && session.id == sessionPk).map SessionRow.id

def sessionStructure (userId sessionPk : Uuid) : Except AppError SessionStructure :=
  match ownSession tables userId sessionPk with
  | none => .error (sessionNotFound sessionPk)
  | some _ =>
    match streamEvents tables sessionPk with
    | [] => .error (sessionNotFound sessionPk)
    | events => .ok (SessionStructure.derive events)

def eventsOf (sessionPk : Uuid) : List EventRow := tables.events.filter fun event => event.sessionPk == sessionPk

def title (sessionPk : Uuid) : Option EntryLabel := do
  let title ← Rows.find SessionTitle.sessionPk sessionPk tables.sessionTitles
  let facts := tables.streamFacts.find? fun facts => some facts.eventPk == title.titleEventPk
  EntryLabel.fromColumns title.titleEventPk (facts.bind StreamFactsRow.labelIndex)
    (facts.bind StreamFactsRow.labelText) (facts.bind StreamFactsRow.labelLength)

def sessionHeader (userId sessionPk : Uuid) : Except AppError SessionHeaderResponse :=
  match ownSession tables userId sessionPk with
  | none => .error (sessionNotFound sessionPk)
  | some _ =>
    match (eventsOf tables sessionPk).map headerEvent with
    | [] => .error (sessionNotFound sessionPk)
    | events => do
      let derived ← sessionStructure tables userId sessionPk
      return AbyssBackend.sessionHeader sessionPk events derived.summary (title tables sessionPk)

/-- The sessions with their devices, as far as the filters of the query that come before the grouping leave them. -/
def activeSessions (userId : Uuid) (query : ValidatedSessionListQuery) : List (SessionRow × DeviceRow) :=
  let joined := tables.sessions.filterMap fun session =>
    (Rows.find DeviceRow.id session.deviceContextId tables.devices).map (session, ·)
  joined.filter fun (session, _) =>
    session.userId == userId &&
    (query.agentNames.isEmpty || query.agentNames.contains session.agentName) &&
    (query.llmProviders.isEmpty || (eventsOf tables session.id).any fun event =>
      query.llmProviders.contains event.llmProvider) &&
    (query.llmModels.isEmpty || (eventsOf tables session.id).any fun event =>
      query.llmModels.contains event.llmModel)

def activityRow (session : SessionRow) (device : DeviceRow) : Except AppError SessionListRow := do
  let totalTokens ← bigint ((eventsOf tables session.id).map EventRow.totalTokens).sum
  return {
    sessionPk := session.id
    sessionId := session.sessionId
    agentName := session.agentName
    agentVersion := session.agentVersion
    hostName := device.hostName
    platform := device.platform
    startedAt := session.startedAt
    endedAt := session.endedAt
    lastActivityAt := ((eventsOf tables session.id).map EventRow.observedAt).max?.getD session.startedAt
    events := (eventsOf tables session.id).length
    totalTokens
    title := title tables session.id }

def listed (query : ValidatedSessionListQuery) (row : SessionListRow) : Bool :=
  (query.fromTime.all fun fromTime => timestamptz fromTime ≤ row.lastActivityAt) &&
    query.toTime.all fun toTime => row.startedAt < timestamptz toTime

def filtered (userId : Uuid) (query : ValidatedSessionListQuery) : Except AppError (List SessionListRow) := do
  let activity ← (activeSessions tables userId query).mapM fun (session, device) => activityRow tables session device
  return activity.filter (listed query)

def listSessions (userId : Uuid) (query : ValidatedSessionListQuery) : Except AppError SessionListResponse := do
  let rows ← filtered tables userId query
  let shown := page query.offset query.pageSize (sortBy latestFirst rows)
  let turns ← shown.mapM fun row => do
    let derived ← sessionStructure tables userId row.sessionPk
    return derived.summary.turns
  return .new query rows.length ((shown.zip turns).map fun (row, turns) => row.item turns)

end Reads

/-! Both databases hold the same tables, and these reads of them agree. -/

section Shared

variable {tables : Tables}

/-- Joining every event and sorting then finds what sorting the session's events and joining them finds. -/
theorem streamEvents_shared (sessionPk : Uuid) :
    streamEvents tables sessionPk = Storage.streamEvents tables.shared sessionPk := by
  have hfiltered : (joinedFacts tables).filter (fun row => row.1.sessionPk == sessionPk) =
      (eventsOf tables sessionPk).flatMap fun event => (factsOf tables.shared event.id).map (event, ·) :=
    Rows.filter_joined (fun event : EventRow => event.sessionPk == sessionPk)
      (fun event => factsOf tables.shared event.id) _
  have horder : ∀ event ∈ eventsOf tables sessionPk, ∀ row ∈ (factsOf tables.shared event.id).map (event, ·),
      sessionOrder row.1 = sessionOrder event := by
    intro event _ row hrow
    obtain ⟨facts, -, rfl⟩ := List.mem_map.mp hrow
    rfl
  unfold streamEvents
  dsimp only
  rw [hfiltered, sortBy_flatMap horder]
  simp only [List.map_flatMap, List.map_map]
  rfl

theorem ownSession_isSome (userId sessionPk : Uuid) :
    (ownSession tables userId sessionPk).isSome = hasOwnSession tables.shared userId sessionPk := by
  rw [ownSession, Option.isSome_map, List.isSome_find?]
  rfl

theorem ownSession_of_mem {session : SessionRow} {owner : Uuid} (h : session ∈ tables.sessions)
    (howner : session.userId = owner) : ∃ found, ownSession tables owner session.id = some found :=
  Option.isSome_iff_exists.mp ((ownSession_isSome owner session.id).trans (hasOwnSession_of_mem h howner))

theorem sessionStructure_shared (userId sessionPk : Uuid) :
    sessionStructure tables userId sessionPk = Storage.sessionStructure tables.shared userId sessionPk := by
  unfold sessionStructure Storage.sessionStructure
  rw [← ownSession_isSome, ← streamEvents_shared]
  cases ownSession tables userId sessionPk with
  | none => rfl
  | some found => cases streamEvents tables sessionPk <;> rfl

theorem mem_activeSessions {userId : Uuid} {query : ValidatedSessionListQuery} {session : SessionRow}
    {device : DeviceRow} (h : (session, device) ∈ activeSessions tables userId query) :
    session ∈ tables.sessions ∧ session.userId = userId := by
  obtain ⟨hjoined, hactive⟩ := List.mem_filter.mp h
  obtain ⟨other, hother, hdevice⟩ := List.mem_filterMap.mp hjoined
  obtain ⟨_, -, hpair⟩ := Option.map_eq_some_iff.mp hdevice
  obtain ⟨rfl, rfl⟩ := Prod.mk.inj hpair
  simp only [Bool.and_eq_true, beq_iff_eq] at hactive
  exact ⟨hother, hactive.1.1.1⟩

theorem activeSessions_shared (userId : Uuid) (query : ValidatedSessionListQuery) :
    activeSessions tables userId query = Storage.activeSessions tables.shared userId query := by
  unfold activeSessions Storage.activeSessions
  dsimp only
  rw [List.filter_filterMap, List.filterMap_filter]
  refine congrArg (List.filterMap · tables.sessions) (funext fun session => ?_)
  cases hdevice : Rows.find DeviceRow.id session.deviceContextId tables.devices with
  | none => simp [Tables.shared, hdevice]
  | some device =>
    simp only [Tables.shared, hdevice, Option.map_some, Option.filter_some]
    rfl

end Shared

end AbyssBackend.Postgres
