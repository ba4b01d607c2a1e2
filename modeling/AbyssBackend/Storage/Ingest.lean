import AbyssBackend.Search.Fold
import AbyssBackend.Search.Pieces
import AbyssBackend.Storage.Schema
import AbyssBackend.Streams.Facts
import AbyssBackend.Usage.Persistence

namespace AbyssBackend.Storage

open Attachments Conversation Search Streams Text

/-- What ingesting one event takes from outside: the times and the keys it draws. -/
structure EventDraw where
  now : ℤ
  deviceId : Uuid
  sessionPk : Uuid
  eventPk : Uuid
  attachmentIds : ℕ → Uuid
  titledAt : ℤ

structure CaptureDraw where
  capturePk : Uuid
  now : ℤ

structure Draws where
  event : ℕ → EventDraw
  capture : ℕ → CaptureDraw

def newDevice (userId : Uuid) (event : IngestUsageEvent) (observedAt : ℤ) (draw : EventDraw) : DeviceRow where
  id := draw.deviceId
  userId
  hostName := event.device.hostName
  platform := event.device.platform
  osVersion := event.device.osVersion
  firstSeenAt := observedAt
  lastSeenAt := observedAt
  createdAt := draw.now
  updatedAt := draw.now

def seenDevice (existing : DeviceRow) (event : IngestUsageEvent) (observedAt : ℤ) (draw : EventDraw)
    (row : DeviceRow) : DeviceRow :=
  { row with
    osVersion := event.device.osVersion <|> existing.osVersion
    firstSeenAt := min existing.firstSeenAt observedAt
    lastSeenAt := max existing.lastSeenAt observedAt
    updatedAt := draw.now }

def upsertDevice (userId : Uuid) (event : IngestUsageEvent) (observedAt : ℤ) (draw : EventDraw) (store : Store) :
    Except AppError (Uuid × Store) :=
  match Rows.find DeviceRow.key (userId, event.device.hostName, event.device.platform) store.devices with
  | some existing => .ok (existing.id, { store with
      devices := Rows.update DeviceRow.id existing.id (seenDevice existing event observedAt draw) store.devices })
  | none => do
    let store ← store.insertDevice (newDevice userId event observedAt draw)
    return (draw.deviceId, store)

def newSession (userId deviceId : Uuid) (event : IngestUsageEvent) (observedAt : ℤ) (draw : EventDraw) :
    SessionRow where
  id := draw.sessionPk
  userId
  deviceContextId := deviceId
  agentName := event.agent.name
  agentVersion := event.agent.version
  sessionId := event.sessionId
  startedAt := observedAt
  endedAt := some observedAt
  createdAt := draw.now
  updatedAt := draw.now
  structureRevision := 1

def seenSession (existing : SessionRow) (deviceId : Uuid) (event : IngestUsageEvent) (observedAt : ℤ)
    (draw : EventDraw) (row : SessionRow) : SessionRow :=
  { row with
    deviceContextId := deviceId
    agentVersion := event.agent.version <|> existing.agentVersion
    startedAt := min existing.startedAt observedAt
    endedAt := some (max (existing.endedAt.getD observedAt) observedAt)
    updatedAt := draw.now
    structureRevision := row.structureRevision + 1 }

def upsertSession (userId deviceId : Uuid) (event : IngestUsageEvent) (observedAt : ℤ) (draw : EventDraw)
    (store : Store) : Except AppError (Uuid × Store) :=
  match Rows.find SessionRow.key (userId, event.agent.name, event.sessionId) store.sessions with
  | some existing => do
    let store ← Store.write false false (!store.hasDevice deviceId) { store with
      sessions := Rows.update SessionRow.id existing.id
        (seenSession existing deviceId event observedAt draw) store.sessions }
    return (existing.id, store)
  | none => do
    let store ← store.insertSession (newSession userId deviceId event observedAt draw)
    return (draw.sessionPk, store)

def newEvent (userId deviceId sessionPk : Uuid) (event : IngestUsageEvent) (draw : EventDraw) : EventRow where
  id := draw.eventPk
  userId
  deviceContextId := deviceId
  sessionPk
  eventId := event.eventId
  agentName := event.agent.name
  agentVersion := event.agent.version
  sessionId := event.sessionId
  llmProvider := event.llm.provider
  llmModel := event.llm.model
  eventType := event.eventType.asStr
  inputTokens := event.tokenUsage.inputTokens.getD 0
  outputTokens := event.tokenUsage.outputTokens.getD 0
  cacheReadTokens := event.tokenUsage.cacheReadTokens.getD 0
  cacheWriteTokens := event.tokenUsage.cacheWriteTokens.getD 0
  reasoningTokens := event.tokenUsage.reasoningTokens.getD 0
  totalTokens := event.tokenUsage.totalTokens.getD 0
  observedAt := timestampToMicros event.observedAt
  metadata := event.metadata
  createdAt := draw.now
  responseId := event.responseId
  previousResponseId := event.previousResponseId
  conversation := event.conversation

section Facts

variable [Sha256]

def StreamFactsRow.ofRequest (eventPk : Uuid) (facts : RequestFacts) (namesPrevious : Bool) : StreamFactsRow where
  eventPk
  newFrom := some facts.newFrom
  continuesContext := some (facts.newFrom > 0 || namesPrevious)
  startsTurn := some facts.startsTurn
  lastIdentity := facts.lastIdentity
  previousIdentity := facts.previousIdentity
  trailing := some facts.trailing
  resultIds := some facts.resultIds
  labelIndex := facts.label.map Label.index
  labelText := facts.label.map Label.text
  labelLength := facts.label.map Label.length

def StreamFactsRow.ofResponse (eventPk : Uuid) (facts : ResponseFacts) : StreamFactsRow where
  eventPk
  emittedIds := some facts.emittedIds
  outputSkeleton := some facts.outputSkeleton

def StreamFactsRow.read (eventPk : Uuid) (eventType : String) (conversation : Option Value)
    (namesPrevious : Bool) : StreamFactsRow :=
  if eventType = UsageEventType.request.asStr then .ofRequest eventPk (RequestFacts.read conversation) namesPrevious
  else .ofResponse eventPk (ResponseFacts.read conversation)

def newFacts (eventPk : Uuid) (event : IngestUsageEvent) : StreamFactsRow :=
  { StreamFactsRow.read eventPk event.eventType.asStr event.conversation event.previousResponseId.isSome with
    subagentId := event.subagentId
    parentSubagentId := event.parentSubagentId
    turnId := event.turnId }

def insertStreamFacts (eventPk : Uuid) (event : IngestUsageEvent) (store : Store) : Except AppError Store :=
  store.insertFacts (newFacts eventPk event)

end Facts

def newAttachment (userId eventPk : Uuid) (attachment : ValidatedImageAttachment) (draw : EventDraw)
    (index : ℕ) : AttachmentRow where
  id := draw.attachmentIds index
  userId
  eventPk
  position := attachment.position
  mediaType := attachment.mediaType
  byteSize := attachment.byteSize
  sha256 := attachment.sha256
  content := attachment.content
  createdAt := draw.now

def insertAttachments (userId eventPk : Uuid) (attachments : List ValidatedImageAttachment) (draw : EventDraw)
    (store : Store) : Except AppError Store :=
  attachments.zipIdx.foldlM (fun (store : Store) (attachment, index) =>
    store.insertAttachment (newAttachment userId eventPk attachment draw index)) store

section Index

variable [Sha256] [CaseMapping]

/-- The id of the text among the owner's texts. A new text is inserted, and its folded form enters
the trigram index under the same id. -/
def textId (owner : Uuid) (text : String) (store : Store) : Except AppError (ℕ × Store) :=
  let sha256 := Sha256.digest text
  match store.insertOrIgnoreText owner sha256 text with
  | (some id, store) => .ok (id, store.insertTrigram ⟨id, fold text⟩)
  | (none, store) =>
    match Rows.find SearchText.hash (owner, sha256) store.searchTexts with
    | some found => .ok (found.id, store)
    | none => .error (.database .notFound)

def pieceRefs (owner eventPk : Uuid) : List Piece → Store → Except AppError (List SearchRef × Store)
  | [], store => .ok ([], store)
  | piece :: rest, store => do
    if piece.entryIndex > i32Max then
      throw (.validation "conversation has too many entries: out of range integral type conversion attempted")
    let (id, store) ← textId owner piece.text store
    let (refs, store) ← pieceRefs owner eventPk rest store
    return (⟨eventPk, piece.entryIndex, piece.field.asStr, id⟩ :: refs, store)

def indexEvent (owner eventPk : Uuid) (conversation : Option Value) (store : Store) : Except AppError Store := do
  let (refs, store) ← pieceRefs owner eventPk (pieces conversation) store
  refs.foldlM (fun (store : Store) ref => store.insertRef ref) store

end Index

def storedTitle (sessionPk : Uuid) (titles : List SessionTitle) : Option (ℤ × Uuid) := do
  let title ← Rows.find SessionTitle.sessionPk sessionPk titles
  return (← title.titleObservedAt, ← title.titleEventPk)

def registeredLe (x y : ℤ × Uuid) : Bool := x.1 < y.1 || (x.1 == y.1 && x.2 ≤ y.2)

def capture (userId sessionPk eventPk : Uuid) (eventType : String) (observedAt now : ℤ) (store : Store) :
    Except AppError (Bool × Store) :=
  if eventType ≠ "request" then .ok (false, store)
  else if (storedTitle sessionPk store.sessionTitles).any fun stored => registeredLe stored (observedAt, eventPk) then
    .ok (false, store)
  else do
    let store ← store.upsertTitle ⟨sessionPk, userId, none, some eventPk, some observedAt, now⟩
    return (true, store)

section Ingest

variable [Sha256] [Base64] [CaseMapping]

/-- Whether the event is new; an event whose id is stored changes nothing. -/
def ingestOneEvent (userId : Uuid) (event : IngestUsageEvent) (attachments : List ValidatedImageAttachment)
    (draw : EventDraw) (store : Store) : Except AppError (Bool × Store) :=
  if store.events.any fun row => row.eventId == event.eventId then .ok (false, store)
  else do
    let observedAt := timestampToMicros event.observedAt
    let (deviceId, store) ← upsertDevice userId event observedAt draw store
    let (sessionPk, store) ← upsertSession userId deviceId event observedAt draw store
    let (inserted, store) ← store.insertEvent (newEvent userId deviceId sessionPk event draw)
    if inserted ≠ 1 then return (false, store)
    let store ← insertStreamFacts draw.eventPk event store
    let store ← insertAttachments userId draw.eventPk attachments draw store
    let store ← indexEvent userId draw.eventPk event.conversation store
    let (_, store) ← capture userId sessionPk draw.eventPk event.eventType.asStr observedAt draw.titledAt store
    return (true, store)

def newCapture (userId deviceId sessionPk : Uuid) (capture : IngestDiagnosticCapture) (draw : CaptureDraw) :
    DiagnosticCapture where
  id := draw.capturePk
  userId
  deviceContextId := deviceId
  sessionPk
  captureId := normalizeText capture.captureId
  flowId := normalizeText capture.flowId
  capturedAt := timestampToMicros capture.capturedAt
  collectorVersion := normalizeText capture.collectorVersion
  payload := capture.payload
  createdAt := draw.now

def ingestOneDiagnosticCapture (userId : Uuid) (capture : IngestDiagnosticCapture) (draw : CaptureDraw)
    (store : Store) : Except AppError (Bool × Store) :=
  let events := store.events.filter fun row => row.userId == userId && capture.eventIds.contains row.eventId
  if events.length ≠ capture.eventIds.length then
    .error (.validation "diagnostic capture events were not ingested for the authenticated user")
  else match events.head? with
  | none => .error (.validation "diagnostic capture must reference at least one event")
  | some first =>
    if events.any fun row => row.deviceContextId != first.deviceContextId || row.sessionPk != first.sessionPk then
      .error (.validation "diagnostic capture events must belong to one session and device")
    else do
      let (inserted, store) ← store.insertCapture
        (newCapture userId first.deviceContextId first.sessionPk capture draw)
      if inserted = 1 then
        let store ← events.foldlM (fun (store : Store) row => store.insertCaptureEvent ⟨draw.capturePk, row.id⟩) store
        return (true, store)
      else return (false, store)

structure Tally where
  accepted : ℕ
  duplicates : ℕ
  store : Store

def Tally.count (tally : Tally) (outcome : Bool × Store) : Tally :=
  if outcome.1 then { tally with accepted := tally.accepted + 1, store := outcome.2 }
  else { tally with duplicates := tally.duplicates + 1, store := outcome.2 }

def ingestAll {ι : Type} (one : ι → ℕ → Store → Except AppError (Bool × Store)) (items : List ι) (store : Store) :
    Except AppError Tally :=
  items.zipIdx.foldlM (fun (tally : Tally) (item, index) => do
    let outcome ← one item index tally.store
    return tally.count outcome) ⟨0, 0, store⟩

/-- Ingests a batch in one transaction: an error leaves the store as it was. -/
def ingestEvents (request : IngestEventsRequest) (userId : Uuid) (maxBatchSize : ℕ) (draws : Draws)
    (store : Store) : Except AppError (IngestEventsResponse × Store) := do
  let validatedAttachments ← validateBatch request maxBatchSize
  let events ← ingestAll (fun (event, attachments) index =>
    ingestOneEvent userId event attachments (draws.event index)) (request.events.zip validatedAttachments) store
  let captures ← ingestAll (fun capture index =>
    ingestOneDiagnosticCapture userId capture (draws.capture index)) request.diagnosticCaptures events.store
  return ({
    accepted := events.accepted
    duplicates := events.duplicates
    rejected := 0
    errors := []
    acceptedDiagnosticCaptures := captures.accepted
    duplicateDiagnosticCaptures := captures.duplicates }, captures.store)

def afterIngest (request : IngestEventsRequest) (userId : Uuid) (maxBatchSize : ℕ) (draws : Draws)
    (store : Store) : Store :=
  match ingestEvents request userId maxBatchSize draws store with
  | .ok (_, after) => after
  | .error _ => store

/-- The stores that ingests of any owners' batches lead to. -/
inductive Reachable : Store → Prop
  | start (users : List Uuid) : Reachable { users }
  | ingest {store : Store} (h : Reachable store) (request : IngestEventsRequest) (userId : Uuid)
      (maxBatchSize : ℕ) (draws : Draws) : Reachable (afterIngest request userId maxBatchSize draws store)

end Ingest

end AbyssBackend.Storage
