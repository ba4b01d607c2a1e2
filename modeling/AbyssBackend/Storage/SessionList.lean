import AbyssBackend.Storage.Reads
import AbyssBackend.Usage.SessionHeader
import AbyssBackend.Usage.SessionList

namespace AbyssBackend.Storage

open Sorting Streams

/-- A session's row of the activity query, before its turns are counted. -/
structure SessionListRow where
  sessionPk : Uuid
  sessionId : String
  agentName : String
  agentVersion : Option String
  hostName : String
  platform : String
  startedAt : ℤ
  endedAt : Option ℤ
  lastActivityAt : ℤ
  events : ℤ
  totalTokens : ℤ
  title : Option EntryLabel
deriving DecidableEq, Repr

def headerEvent (event : EventRow) : HeaderEvent where
  sessionId := event.sessionId
  agentName := event.agentName
  agentVersion := event.agentVersion
  provider := event.llmProvider
  model := event.llmModel
  observedAt := timestampFromMicros event.observedAt
  tokens :=
    { input := event.inputTokens
      output := event.outputTokens
      cacheRead := event.cacheReadTokens
      cacheWrite := event.cacheWriteTokens
      reasoning := event.reasoningTokens
      total := event.totalTokens }

def latestFirst (row : SessionListRow) : (ℤ ×ₗ ℕ)ᵒᵈ := OrderDual.toDual (toLex (row.lastActivityAt, row.sessionPk))

def page {α : Type} (offset : ℤ) (limit : ℕ) (rows : List α) : List α := (rows.drop offset.toNat).take limit

def SessionListRow.item (row : SessionListRow) (turns : ℕ) : SessionListItem where
  sessionPk := row.sessionPk
  sessionId := row.sessionId
  agentName := row.agentName
  agentVersion := row.agentVersion
  hostName := row.hostName
  platform := row.platform
  startedAt := timestampFromMicros row.startedAt
  endedAt := row.endedAt.map timestampFromMicros
  lastActivityAt := timestampFromMicros row.lastActivityAt
  turns
  events := row.events
  totalTokens := row.totalTokens
  title := row.title
  purpose := none -- nothing ever writes a session's purpose

section Reads

variable (store : Store)

def eventsOf (sessionPk : Uuid) : List EventRow := store.events.filter fun event => event.sessionPk == sessionPk

/-- The label of the request that a session's title names, in whichever session that is asked for. -/
def title (sessionPk : Uuid) : Option EntryLabel := do
  let session ← Rows.find SessionRow.id sessionPk store.sessions
  let title ← store.sessionTitles.find? fun title =>
    title.sessionPk == session.id && title.userId == session.userId
  let event := store.events.find? fun event => some event.id == title.titleEventPk && event.sessionPk == session.id &&
    event.eventType == "request"
  let facts := store.streamFacts.find? fun facts => some facts.eventPk == event.map EventRow.id
  EntryLabel.fromColumns (event.map EventRow.id) (facts.bind StreamFactsRow.labelIndex)
    (facts.bind StreamFactsRow.labelText) (facts.bind StreamFactsRow.labelLength)

def sessionHeader (userId sessionPk : Uuid) : Except AppError SessionHeaderResponse :=
  if !hasOwnSession store userId sessionPk then .error (sessionNotFound sessionPk)
  else if (eventsOf store sessionPk).isEmpty then .error (sessionNotFound sessionPk)
  else do
    let derived ← sessionStructure store userId sessionPk
    return AbyssBackend.sessionHeader sessionPk ((eventsOf store sessionPk).map headerEvent) derived.summary
      (title store sessionPk)

/-- The sessions of the owner that the filters on agents, providers and models leave, each with its device. -/
def activeSessions (userId : Uuid) (query : ValidatedSessionListQuery) : List (SessionRow × DeviceRow) :=
  (store.sessions.filter fun session => session.userId == userId &&
    (query.agentNames.isEmpty || query.agentNames.contains session.agentName) &&
    (query.llmProviders.isEmpty || (eventsOf store session.id).any fun event =>
      query.llmProviders.contains event.llmProvider) &&
    (query.llmModels.isEmpty || (eventsOf store session.id).any fun event =>
      query.llmModels.contains event.llmModel)).filterMap fun session =>
    (Rows.find DeviceRow.id session.deviceContextId store.devices).map (session, ·)

def activityRow (session : SessionRow) (device : DeviceRow) : Except AppError SessionListRow := do
  let totalTokens ← sqliteSum ((eventsOf store session.id).map EventRow.totalTokens)
  return {
    sessionPk := session.id
    sessionId := session.sessionId
    agentName := session.agentName
    agentVersion := session.agentVersion
    hostName := device.hostName
    platform := device.platform
    startedAt := session.startedAt
    endedAt := session.endedAt
    lastActivityAt := ((eventsOf store session.id).map EventRow.observedAt).max?.getD session.startedAt
    events := (eventsOf store session.id).length
    totalTokens
    title := title store session.id }

def listed (query : ValidatedSessionListQuery) (row : SessionListRow) : Bool :=
  (query.fromTime.all fun fromTime => timestampToMicros fromTime ≤ row.lastActivityAt) &&
    query.toTime.all fun toTime => row.startedAt < timestampToMicros toTime

def filtered (userId : Uuid) (query : ValidatedSessionListQuery) : Except AppError (List SessionListRow) := do
  let activity ← (activeSessions store userId query).mapM fun (session, device) => activityRow store session device
  return activity.filter (listed query)

def listSessions (userId : Uuid) (query : ValidatedSessionListQuery) : Except AppError SessionListResponse := do
  let rows ← filtered store userId query
  let items ← (page query.offset query.pageSize (sortBy latestFirst rows)).mapM fun row => do
    let derived ← sessionStructure store userId row.sessionPk
    return row.item derived.summary.turns
  return .new query rows.length items

end Reads

section Found

variable {store : Store}

/-- A session of the owner with an event has a structure. -/
theorem sessionStructure_of_event {userId sessionPk : Uuid} (hown : hasOwnSession store userId sessionPk = true)
    {event : EventRow} (hevent : event ∈ store.events) (hsession : event.sessionPk = sessionPk) :
    sessionStructure store userId sessionPk = .ok (.derive (streamEvents store sessionPk)) := by
  have hmem : event ∈ sortBy sessionOrder (store.events.filter fun event => event.sessionPk == sessionPk) := by
    apply mem_sortBy.mpr
    exact List.mem_filter.mpr ⟨hevent, beq_iff_eq.mpr hsession⟩
  have hstream : (streamEvents store sessionPk).isEmpty = false := by
    rw [List.isEmpty_eq_false_iff]
    intro hnil
    have hnone := List.flatMap_eq_nil_iff.mp hnil event hmem
    exact Rows.leftJoin_ne_nil _ _ (List.map_eq_nil_iff.mp hnone)
  rw [sessionStructure, hown, hstream]
  rfl

theorem streamEvents_pks (hevents : (store.events.map EventRow.id).Nodup)
    (hfacts : (store.streamFacts.map StreamFactsRow.eventPk).Nodup) (sessionPk : Uuid) :
    ((streamEvents store sessionPk).map StreamEvent.pk).Nodup := by
  have hone : ∀ event, ((factsOf store event.id).map (intoStreamEvent event)).length ≤ 1 := by
    intro event
    obtain ⟨facts, hjoin⟩ := Rows.leftJoin_one (Rows.filter_length_le_one hfacts fun row _ hpk => beq_iff_eq.mp hpk)
    rw [factsOf, hjoin, List.map_singleton, List.length_singleton]
  have hkeys : ((streamEvents store sessionPk).map StreamEvent.pk).Sublist
      ((sortBy sessionOrder (store.events.filter fun event => event.sessionPk == sessionPk)).map EventRow.id) :=
    Rows.flatMap_keys_sublist (fun event _ => hone event) (by simp +contextual [intoStreamEvent])
  have hperm := (sortBy_perm sessionOrder (store.events.filter fun event => event.sessionPk == sessionPk)).map EventRow.id
  exact (hperm.nodup_iff.mpr (hevents.sublist (List.filter_sublist.map EventRow.id))).sublist hkeys

theorem streamEvents_mem {event : EventRow} (hevent : event ∈ store.events) :
    ∃ streamEvent ∈ streamEvents store event.sessionPk, streamEvent.pk = event.id := by
  obtain ⟨facts, hfacts⟩ := List.exists_mem_of_ne_nil _ (Rows.leftJoin_ne_nil
    (fun row : StreamFactsRow => row.eventPk == event.id) store.streamFacts)
  refine ⟨intoStreamEvent event facts, List.mem_flatMap.mpr ⟨event, ?_, List.mem_map_of_mem hfacts⟩, rfl⟩
  exact mem_sortBy.mpr (List.mem_filter.mpr ⟨hevent, beq_iff_eq.mpr rfl⟩)

end Found

end AbyssBackend.Storage
