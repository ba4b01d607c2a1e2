import AbyssBackend.Storage.Search
import AbyssBackend.Storage.SessionList
import AbyssBackend.Storage.SummaryFilters
import AbyssBackend.Usage.Segments

namespace AbyssBackend.Storage

open Conversation Groups Search Sorting Streams Tables Text

structure EventFilters where
  userId : Uuid
  fromTime : Option DateTime
  toTime : Option DateTime
  agentNames : List String
  sessionIds : List String
  sessionPk : Option Uuid
  llmProviders : List String
  llmModels : List String
  eventType : Option String
  limit : ℤ
  offset : ℤ

def EventFilters.admits (filters : EventFilters) (eventType : Option String) (event : EventRow) : Bool :=
  event.userId == filters.userId &&
  (filters.fromTime.all fun fromTime => event.observedAt ≥ timestampToMicros fromTime) &&
  (filters.toTime.all fun toTime => event.observedAt < timestampToMicros toTime) &&
  anyOf (exactValuesFilter filters.agentNames) event.agentName &&
  anyOf (exactValuesFilter filters.sessionIds) event.sessionId &&
  (filters.sessionPk.all fun sessionPk => event.sessionPk == sessionPk) &&
  anyOf (exactValuesFilter filters.llmProviders) event.llmProvider &&
  anyOf (exactValuesFilter filters.llmModels) event.llmModel &&
  eventType.all fun eventType => event.eventType == eventType

def newestFirst (event : EventRow) : ℤᵒᵈ ×ₗ String ×ₗ ℕᵒᵈ :=
  toLex (OrderDual.toDual event.observedAt, toLex (event.eventType, OrderDual.toDual event.id))

def EventRow.withoutContent (event : EventRow) : EventRow :=
  { event with
    metadata := .object []
    conversation := none }

def AttachmentRow.response (row : AttachmentRow) : UsageEventAttachmentResponse where
  id := row.id
  position := row.position
  mediaType := row.mediaType
  byteSize := row.byteSize
  sha256 := hexEncode row.sha256
  contentAvailable := row.content.isSome

def StreamFactsRow.declared (row : StreamFactsRow) : DeclaredIds where
  subagentId := row.subagentId
  parentSubagentId := row.parentSubagentId
  turnId := row.turnId

def AttachmentRow.order (row : AttachmentRow) : ℕ ×ₗ ℤ := toLex (row.eventPk, row.position)

def eventDevice (device : Option DeviceRow) : EventDevice where
  hostName := device.map DeviceRow.hostName
  platform := device.map DeviceRow.platform
  osVersion := device.bind DeviceRow.osVersion

def eventResponse (event : EventRow) (device : Option DeviceRow) (declared : DeclaredIds)
    (attachments : List UsageEventAttachmentResponse) : UsageEventResponse :=
  let recorded := RecordedMetadata.read event.metadata
  { id := event.id
    eventId := event.eventId
    sessionPk := event.sessionPk
    sessionId := event.sessionId
    location := none
    observedAt := timestampFromMicros event.observedAt
    eventType := event.eventType
    agent := ⟨event.agentName, event.agentVersion⟩
    device := eventDevice device
    llm := ⟨event.llmProvider, event.llmModel⟩
    purpose := recorded.purpose
    declared
    responseId := event.responseId
    previousResponseId := event.previousResponseId
    http := recorded.http
    tokenUsage := ⟨event.inputTokens, event.outputTokens, event.cacheReadTokens, event.cacheWriteTokens,
      event.reasoningTokens, event.totalTokens⟩
    omitted := recorded.omitted
    conversation := event.conversation
    attachments }

section Reads

variable (store : Store)

/-- The events that the filters leave, the newest first. -/
def loadFilteredEvents (filters : EventFilters) (includeContent : Bool) : Except AppError (List EventRow) := do
  let eventType ← (filters.eventType.bind nonEmpty).mapM validateEventType
  let rows := page filters.offset filters.limit.toNat
    (sortBy newestFirst (store.events.filter (filters.admits eventType)))
  return if includeContent then rows else rows.map EventRow.withoutContent

def loadDeviceContexts (events : List EventRow) : Table Uuid DeviceRow :=
  ofPairs ((store.devices.filter fun device => (events.map EventRow.deviceContextId).contains device.id).map
    fun device => (device.id, device))

def loadDeclaredIds (events : List EventRow) : Table Uuid DeclaredIds :=
  ofPairs ((store.streamFacts.filter fun row => (events.map EventRow.id).contains row.eventPk).map
    fun row => (row.eventPk, row.declared))

def loadAttachments (events : List EventRow) : Table Uuid (List UsageEventAttachmentResponse) :=
  let rows := sortBy AttachmentRow.order
    (store.attachments.filter fun row => (events.map EventRow.id).contains row.eventPk)
  ofPairs ((groupBy AttachmentRow.eventPk rows).map fun (eventPk, rows) => (eventPk, rows.map AttachmentRow.response))

def eventResponses (events : List EventRow) (includeContent : Bool) : List UsageEventResponse :=
  let devices := loadDeviceContexts store events
  let declared := if includeContent then loadDeclaredIds store events else empty
  let attachments := if includeContent then loadAttachments store events else empty
  -- no event is there twice, so taking one's ids and attachments out leaves the others' in
  events.map fun event => eventResponse event (devices event.deviceContextId) ((declared event.id).getD {})
    ((attachments event.id).getD [])

def rawEvents (userId : Uuid) (query : RawEventsQuery) (defaultLimit : ℤ) : Except AppError RawEventsResponse := do
  let pageSize := normalizeLimit query.limit defaultLimit 1000
  let offset := max (query.offset.getD 0) 0
  let events ← loadFilteredEvents store
    { userId
      fromTime := query.fromTime
      toTime := query.toTime
      agentNames := query.agentName
      sessionIds := query.sessionId
      sessionPk := query.sessionPk
      llmProviders := query.llmProvider
      llmModels := query.llmModel
      eventType := query.eventType
      limit := saturatingAdd pageSize 1
      offset } query.includesContent
  let hasNextPage := events.length > pageSize.toNat
  return {
    events := eventResponses store (if hasNextPage then events.take pageSize.toNat else events) query.includesContent
    nextPageToken := if hasNextPage then some (toString (saturatingAdd offset pageSize)) else none }

def usageEvent (userId eventPk : Uuid) : Except AppError UsageEventResponse :=
  match store.events.find? fun event => event.id == eventPk && event.userId == userId with
  | none => .error (.notFound s!"usage event not found: {uuidText eventPk}")
  | some event =>
    match (eventResponses store [event] true).getLast? with
    | some response => .ok response
    | none => .error (.internal "loaded event has no response")

def imageAttachment (userId attachmentId : Uuid) : Except AppError StoredImageAttachment :=
  match store.attachments.find? fun row => row.id == attachmentId && row.userId == userId with
  | none => .error (.notFound s!"image attachment not found: {uuidText attachmentId}")
  | some row =>
    match row.content with
    | none => .error (.notFound s!"image attachment content not found: {uuidText attachmentId}")
    | some content =>
      if (content.length : ℤ) ≠ row.byteSize then
        .error (.internal s!"stored image attachment byte size mismatch: {uuidText attachmentId}")
      else .ok ⟨row.mediaType, hexEncode row.sha256, content⟩

def sessionStreams (userId sessionPk : Uuid) : Except AppError SessionStreamsResponse := do
  let derived ← sessionStructure store userId sessionPk
  return ⟨sessionPk, derived.sessionStreams⟩

def sessionTurns (userId sessionPk : Uuid) : Except AppError SessionTurnsResponse := do
  let derived ← sessionStructure store userId sessionPk
  return ⟨sessionPk, derived.sessionTurns⟩

def eventLocation (userId eventPk : Uuid) : Except AppError EventLocationResponse :=
  match store.events.find? fun event => event.userId == userId && event.id == eventPk with
  | none => .error (.notFound s!"event not found: {uuidText eventPk}")
  | some event => do
    let derived ← sessionStructure store userId event.sessionPk
    match derived.eventPosition eventPk with
    | none => throw (.notFound s!"event not found: {uuidText eventPk}")
    | some location => return ⟨event.sessionPk, eventPk, location⟩

def usageEvents (userId : Uuid) (pks : List Uuid) : Table Uuid UsageEventResponse :=
  ofPairs ((eventResponses store (store.events.filter fun event => pks.contains event.id && event.userId == userId)
    true).map fun event => (event.id, event))

/-- The exchanges of a segment from `head` on, with a preview of each event. -/
def sessionSegment (userId sessionPk : Uuid) (head : String) (window : Window) : Except AppError SegmentResponse := do
  let derived ← sessionStructure store userId sessionPk
  match derived.segmentRun head with
  | none => throw (.notFound s!"exchange not found in session {uuidText sessionPk}: {head}")
  | some run => return segmentResponse sessionPk run (usageEvents store userId (runEventPks run)) window

def eventConversation (userId eventPk : Uuid) (window : Window) : Except AppError ConversationPreview :=
  (preview · window) <$> usageEvent store userId eventPk

end Reads

def locateEvents (events : List UsageEventResponse) (structure' : Uuid → Except AppError SessionStructure) :
    Except AppError (List UsageEventResponse) :=
  events.mapM fun event => do
    let derived ← structure' event.sessionPk
    return { event with location := derived.eventPosition event.id }

def locateSearchMatches (response : SessionSearchResponse) (structure' : Uuid → Except AppError SessionStructure) :
    Except AppError SessionSearchResponse := do
  let items ← response.items.mapM fun item =>
    if item.matches'.isEmpty then .ok item
    else do
      let derived ← structure' item.sessionPk
      return { item with matches' := item.matches'.map fun hit =>
        { hit with location := derived.eventPosition hit.eventPk } }
  return { response with items }

/-! The reads of the backend that take more than one of the above. -/

namespace SqliteFtsBackend

variable (store : Store)

def rawEvents (userId : Uuid) (query : RawEventsQuery) (defaultPageSize : ℤ) : Except AppError RawEventsResponse := do
  let response ← Storage.rawEvents store userId query defaultPageSize
  if query.locate then
    let events ← locateEvents response.events (sessionStructure store userId)
    return { response with events }
  else return response

def usageEvent (userId eventPk : Uuid) : Except AppError UsageEventResponse := do
  let event ← Storage.usageEvent store userId eventPk
  let derived ← sessionStructure store userId event.sessionPk
  return { event with location := derived.eventPosition event.id }

def sessionSearch [CaseMapping] [TrigramIndex] [Iteration] (userId : Uuid) (query : SessionSearchQuery) :
    Except AppError SessionSearchResponse := do
  let response ← Storage.sessionSearch userId query store
  locateSearchMatches response (sessionStructure store userId)

end SqliteFtsBackend

end AbyssBackend.Storage
