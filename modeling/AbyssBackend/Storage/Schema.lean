import AbyssBackend.Library.Rows
import AbyssBackend.Usage.Contract

namespace AbyssBackend.Storage

open Attachments Conversation Streams

structure DeviceRow where
  id : Uuid
  userId : Uuid
  hostName : String
  platform : String
  osVersion : Option String
  firstSeenAt : ℤ
  lastSeenAt : ℤ
  createdAt : ℤ
  updatedAt : ℤ

structure SessionRow where
  id : Uuid
  userId : Uuid
  deviceContextId : Uuid
  agentName : String
  agentVersion : Option String
  sessionId : String
  startedAt : ℤ
  endedAt : Option ℤ
  createdAt : ℤ
  updatedAt : ℤ
  structureRevision : ℤ

structure EventRow where
  id : Uuid
  userId : Uuid
  deviceContextId : Uuid
  sessionPk : Uuid
  eventId : String
  agentName : String
  agentVersion : Option String
  sessionId : String
  llmProvider : String
  llmModel : String
  eventType : String
  inputTokens : ℤ
  outputTokens : ℤ
  cacheReadTokens : ℤ
  cacheWriteTokens : ℤ
  reasoningTokens : ℤ
  totalTokens : ℤ
  observedAt : ℤ
  metadata : Value
  createdAt : ℤ
  responseId : Option String
  previousResponseId : Option String
  conversation : Option Value

structure StreamFactsRow where
  eventPk : Uuid
  newFrom : Option ℤ := none
  startsTurn : Option Bool := none
  lastIdentity : Option String := none
  trailing : Option (List String) := none
  resultIds : Option (List String) := none
  emittedIds : Option (List String) := none
  outputSkeleton : Option (List SkeletonEntry) := none
  labelIndex : Option ℤ := none
  labelText : Option String := none
  labelLength : Option ℤ := none
  subagentId : Option String := none
  parentSubagentId : Option String := none
  turnId : Option String := none
  continuesContext : Option Bool := none
  previousIdentity : Option String := none

structure AttachmentRow where
  id : Uuid
  userId : Uuid
  eventPk : Uuid
  position : ℤ
  mediaType : ImageMediaType
  byteSize : ℤ
  sha256 : List UInt8
  content : Option (List UInt8)
  createdAt : ℤ

structure SearchText where
  id : ℕ
  userId : Uuid
  sha256 : List UInt8
  text : String
deriving DecidableEq, Repr

structure TrigramRow where
  rowid : ℕ
  folded : String
deriving DecidableEq, Repr

structure SearchRef where
  eventPk : Uuid
  entryIndex : ℤ
  field : String
  textId : ℕ
deriving DecidableEq, Repr

structure SessionTitle where
  sessionPk : Uuid
  userId : Uuid
  title : Option String
  titleEventPk : Option Uuid
  titleObservedAt : Option ℤ
  updatedAt : ℤ

structure DiagnosticCapture where
  id : Uuid
  userId : Uuid
  deviceContextId : Uuid
  sessionPk : Uuid
  captureId : String
  flowId : String
  capturedAt : ℤ
  collectorVersion : String
  payload : Value
  createdAt : ℤ

structure DiagnosticCaptureEvent where
  capturePk : Uuid
  eventPk : Uuid
deriving DecidableEq, Repr

def DeviceRow.key (row : DeviceRow) : Uuid × String × String := (row.userId, row.hostName, row.platform)

def SessionRow.key (row : SessionRow) : Uuid × String × String := (row.userId, row.agentName, row.sessionId)

def AttachmentRow.place (row : AttachmentRow) : Uuid × ℤ := (row.eventPk, row.position)

def SearchText.hash (row : SearchText) : Uuid × List UInt8 := (row.userId, row.sha256)

def SearchRef.place (row : SearchRef) : Uuid × ℤ × String := (row.eventPk, row.entryIndex, row.field)

def DiagnosticCapture.key (row : DiagnosticCapture) : Uuid × String := (row.userId, row.captureId)

def SessionTitle.set (row other : SessionTitle) : SessionTitle :=
  { other with
    title := row.title
    titleEventPk := row.titleEventPk
    titleObservedAt := row.titleObservedAt
    updatedAt := row.updatedAt }

def SessionTitle.upsert (row : SessionTitle) (titles : List SessionTitle) : List SessionTitle :=
  if titles.any fun other => other.sessionPk == row.sessionPk then
    Rows.update SessionTitle.sessionPk row.sessionPk row.set titles
  else titles ++ [row]

structure Store where
  users : List Uuid
  devices : List DeviceRow := []
  sessions : List SessionRow := []
  events : List EventRow := []
  streamFacts : List StreamFactsRow := []
  attachments : List AttachmentRow := []
  searchTexts : List SearchText := []
  searchTextsTrigram : List TrigramRow := []
  searchRefs : List SearchRef := []
  sessionTitles : List SessionTitle := []
  captures : List DiagnosticCapture := []
  captureEvents : List DiagnosticCaptureEvent := []

namespace Store

/-- A statement's outcome: a broken constraint, or the store after it. -/
def write (rejected taken missing : Bool) (after : Store) : Except AppError Store :=
  if rejected then .error (.database .check)
  else if taken then .error (.database .unique)
  else if missing then .error (.database .foreignKey)
  else .ok after

theorem write_eq_ok {rejected taken missing : Bool} {after store : Store} :
    write rejected taken missing after = .ok store ↔
      rejected = false ∧ taken = false ∧ missing = false ∧ after = store := by
  cases rejected <;> cases taken <;> cases missing <;> simp [write]

variable (store : Store)

def hasUser (id : Uuid) : Bool := store.users.contains id

def hasDevice (id : Uuid) : Bool := store.devices.any fun row => row.id == id

def hasSession (id : Uuid) : Bool := store.sessions.any fun row => row.id == id

def hasEvent (id : Uuid) : Bool := store.events.any fun row => row.id == id

def insertDevice (row : DeviceRow) : Except AppError Store :=
  write false (store.devices.any fun other => other.id == row.id || other.key == row.key)
    (!store.hasUser row.userId) { store with devices := store.devices ++ [row] }

def insertSession (row : SessionRow) : Except AppError Store :=
  write false (store.sessions.any fun other => other.id == row.id || other.key == row.key)
    (!store.hasUser row.userId || !store.hasDevice row.deviceContextId)
    { store with sessions := store.sessions ++ [row] }

def insertEvent (row : EventRow) : Except AppError (ℕ × Store) :=
  if row.eventType ∉ ["request", "response"] ∨ row.inputTokens < 0 ∨ row.outputTokens < 0 ∨
      row.cacheReadTokens < 0 ∨ row.cacheWriteTokens < 0 ∨ row.reasoningTokens < 0 ∨ row.totalTokens < 0 then
    .error (.database .check)
  else if store.events.any fun other => other.eventId == row.eventId then .ok (0, store)
  else do
    let store ← write false (store.hasEvent row.id)
      (!store.hasUser row.userId || !store.hasDevice row.deviceContextId || !store.hasSession row.sessionPk)
      { store with events := store.events ++ [row] }
    return (1, store)

def insertFacts (row : StreamFactsRow) : Except AppError Store :=
  write false (store.streamFacts.any fun other => other.eventPk == row.eventPk) (!store.hasEvent row.eventPk)
    { store with streamFacts := store.streamFacts ++ [row] }

def insertAttachment (row : AttachmentRow) : Except AppError Store :=
  write (row.position < 0 || row.byteSize ≤ 0 || 8388608 < row.byteSize || row.sha256.length != 32 ||
      row.content.any fun content => (content.length : ℤ) != row.byteSize)
    (store.attachments.any fun other => other.id == row.id || other.place == row.place)
    (!store.hasUser row.userId || !store.hasEvent row.eventPk)
    { store with attachments := store.attachments ++ [row] }

def nextTextId : ℕ := (store.searchTexts.map SearchText.id).foldr max 0 + 1

def insertOrIgnoreText (userId : Uuid) (sha256 : List UInt8) (text : String) : Option ℕ × Store :=
  if store.searchTexts.any fun other => other.hash == (userId, sha256) then (none, store)
  else (some store.nextTextId,
    { store with searchTexts := store.searchTexts ++ [⟨store.nextTextId, userId, sha256, text⟩] })

def insertTrigram (row : TrigramRow) : Store :=
  { store with searchTextsTrigram := store.searchTextsTrigram ++ [row] }

def insertRef (row : SearchRef) : Except AppError Store :=
  write (!(["text", "name"].contains row.field)) (store.searchRefs.any fun other => other.place == row.place) false
    { store with searchRefs := store.searchRefs ++ [row] }

def upsertTitle (row : SessionTitle) : Except AppError Store :=
  write false false (!store.hasSession row.sessionPk || !store.hasUser row.userId ||
      row.titleEventPk.any fun eventPk => !store.hasEvent eventPk)
    { store with sessionTitles := row.upsert store.sessionTitles }

def insertCapture (row : DiagnosticCapture) : Except AppError (ℕ × Store) :=
  if store.captures.any fun other => other.id == row.id then .error (.database .unique)
  else if store.captures.any fun other => other.key == row.key then .ok (0, store)
  else do
    let store ← write false false
      (!store.hasUser row.userId || !store.hasDevice row.deviceContextId || !store.hasSession row.sessionPk)
      { store with captures := store.captures ++ [row] }
    return (1, store)

def insertCaptureEvent (row : DiagnosticCaptureEvent) : Except AppError Store :=
  write false (store.captureEvents.any fun other => other == row)
    (!(store.captures.any fun capture => capture.id == row.capturePk) || !store.hasEvent row.eventPk)
    { store with captureEvents := store.captureEvents ++ [row] }

end Store

end AbyssBackend.Storage
