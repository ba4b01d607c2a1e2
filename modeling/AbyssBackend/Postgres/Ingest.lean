import AbyssBackend.Postgres.Schema
import AbyssBackend.Storage.Ingest

namespace AbyssBackend.Postgres

open Attachments Drafts Storage Streams Text

def postgresEpoch : DateTime := 946684800000000000

/-- A moment as a `timestamptz` keeps it: whole microseconds, counted towards the year 2000. -/
def timestamptz (moment : DateTime) : ℤ := (moment - postgresEpoch).tdiv 1000 + postgresEpoch / 1000

/-- One event of a batch, with the times and the keys its statements draw. -/
structure Delivery where
  event : IngestUsageEvent
  attachments : List ValidatedImageAttachment
  draw : EventDraw
  outboxId : ℤ

def Delivery.observedAt (delivery : Delivery) : ℤ := timestamptz delivery.event.observedAt

inductive Statement
  | selectEvent (delivery : Delivery)
  | upsertDevice (delivery : Delivery)
  | upsertSession (deviceId : Uuid) (delivery : Delivery)
  | insertEvent (deviceId sessionPk : Uuid) (delivery : Delivery)
  | insertAttachments (delivery : Delivery)
  | insertStreamFacts (delivery : Delivery)
  | insertOutboxTask (delivery : Delivery)
  | captureTitle (sessionPk : Uuid) (delivery : Delivery)
  | selectCaptureEvents (capture : IngestDiagnosticCapture) (draw : CaptureDraw)
  | insertCapture (capture : IngestDiagnosticCapture) (draw : CaptureDraw) (first : EventRow) (events : List EventRow)
  | insertCaptureEvents (draw : CaptureDraw) (events : List EventRow)

/-- An ingest's transaction: what it has written, the statements it still has to run, and the times that its
upserts gave devices and sessions. -/
structure Transaction where
  userId : Uuid
  begunAt : ℤ
  own : Tables := {}
  todo : List Statement
  deviceTimes : List (Uuid × ℤ) := []
  sessionTimes : List (Uuid × ℤ) := []
  running : Bool := true

def EventRow.accepted (row : EventRow) : Bool :=
  ["request", "response"].contains row.eventType && 0 ≤ row.inputTokens && 0 ≤ row.outputTokens &&
    0 ≤ row.cacheReadTokens && 0 ≤ row.cacheWriteTokens && 0 ≤ row.reasoningTokens && 0 ≤ row.totalTokens

def AttachmentRow.accepted (row : AttachmentRow) : Bool :=
  0 ≤ row.position && 0 < row.byteSize && row.byteSize ≤ 8388608 && row.sha256.length == 32 &&
    row.content.all fun content => (content.length : ℤ) == row.byteSize

def newEvent (userId deviceId sessionPk : Uuid) (delivery : Delivery) : EventRow :=
  { Storage.newEvent userId deviceId sessionPk delivery.event delivery.draw with
    observedAt := delivery.observedAt }

def newSearchOutboxTask (transaction : Transaction) (delivery : Delivery) : OutboxRow where
  id := delivery.outboxId
  eventPk := delivery.draw.eventPk
  userId := transaction.userId
  operation := .upsert
  attemptCount := 0
  availableAt := transaction.begunAt
  claimedAt := none
  claimedBy := none
  processedAt := none
  deadLetteredAt := none
  lastError := none
  createdAt := delivery.draw.now

def newCapture (userId : Uuid) (capture : IngestDiagnosticCapture) (draw : CaptureDraw) (first : EventRow) :
    DiagnosticCapture :=
  { Storage.newCapture userId first.deviceContextId first.sessionPk capture draw with
    capturedAt := timestamptz capture.capturedAt }

section Statements

-- `others` are the rows that other transactions have written and not yet committed
variable (others : List Tables) (committed : Tables)

def pending {ρ : Type} (table : Tables → List ρ) (p : ρ → Bool) : Bool := others.any fun own => (table own).any p

/-- No row of the table anywhere satisfies the predicate. -/
def unused {ρ : Type} (own : Tables) (table : Tables → List ρ) (p : ρ → Bool) : Bool :=
  !(((own :: committed :: others).any fun tables => (table tables).any p))

variable (transaction : Transaction)

def view : Tables := transaction.own.over committed

/-- The device's row as the upsert leaves it; an uncommitted row of the same key is waited for. -/
def upsertDevice (delivery : Delivery) : Option DeviceRow :=
  let key := (transaction.userId, delivery.event.device.hostName, delivery.event.device.platform)
  if pending others Tables.devices fun row => row.key == key then none
  else match Rows.find DeviceRow.key key (view committed transaction).devices with
  | some existing => some (seenDevice existing delivery.event delivery.observedAt delivery.draw existing)
  | none =>
    if unused others committed transaction.own Tables.devices fun row => row.id == delivery.draw.deviceId then
      some (newDevice transaction.userId delivery.event delivery.observedAt delivery.draw)
    else none

def upsertSession (deviceId : Uuid) (delivery : Delivery) : Option SessionRow :=
  let key := (transaction.userId, delivery.event.agent.name, delivery.event.sessionId)
  if pending others Tables.sessions fun row => row.key == key then none
  else match Rows.find SessionRow.key key (view committed transaction).sessions with
  | some existing =>
    some (seenSession existing deviceId delivery.event delivery.observedAt delivery.draw existing)
  | none =>
    if unused others committed transaction.own Tables.sessions fun row => row.id == delivery.draw.sessionPk then
      some (newSession transaction.userId deviceId delivery.event delivery.observedAt delivery.draw)
    else none

/-- Whether the event is inserted: `ON CONFLICT DO NOTHING` skips an event id that is taken, after waiting for the
transaction that holds it. -/
def insertEvent (row : EventRow) : Option Bool :=
  if !EventRow.accepted row || pending others Tables.events fun other => other.eventId == row.eventId then none
  else if (view committed transaction).events.any fun other => other.eventId == row.eventId then some false
  else if unused others committed transaction.own Tables.events fun other => other.id == row.id then some true
  else none

def attachmentRows (delivery : Delivery) : List AttachmentRow :=
  delivery.attachments.zipIdx.map fun (attachment, index) =>
    newAttachment transaction.userId delivery.draw.eventPk attachment delivery.draw index

def insertAttachments (rows : List AttachmentRow) : Bool :=
  rows.all AttachmentRow.accepted && (rows.map AttachmentRow.id).Nodup && (rows.map AttachmentRow.place).Nodup &&
    rows.all fun row => unused others committed transaction.own Tables.attachments fun other =>
      other.id == row.id || other.place == row.place

/-- The session's title row as the capture leaves it, if it changes. -/
def captureTitle (sessionPk : Uuid) (delivery : Delivery) : Option (Option SessionTitle) :=
  if delivery.event.eventType ≠ .request then some none
  else if pending others Tables.sessionTitles fun row => row.sessionPk == sessionPk then none
  else
    let eventPk := delivery.draw.eventPk
    let titles := (view committed transaction).sessionTitles
    let row : SessionTitle :=
      ⟨sessionPk, transaction.userId, none, some eventPk, some delivery.observedAt, transaction.begunAt⟩
    if (storedTitle sessionPk titles).any fun stored => registeredLe stored (delivery.observedAt, eventPk) then
      some none
    else match Rows.find SessionTitle.sessionPk sessionPk titles with
    | some existing => some (some (row.set existing))
    | none => some (some row)

/-- The events a capture names, if they make one. -/
def selectCaptureEvents (capture : IngestDiagnosticCapture) : Option (EventRow × List EventRow) :=
  let events := (view committed transaction).events.filter fun row =>
    row.userId == transaction.userId && capture.eventIds.contains row.eventId
  if events.length ≠ capture.eventIds.length then none
  else match events.head? with
  | none => none
  | some first =>
    if events.any fun row => row.sessionPk != first.sessionPk || row.deviceContextId != first.deviceContextId then none
    else some (first, events)

def insertCapture (row : DiagnosticCapture) : Option Bool :=
  if pending others Tables.captures fun other => other.key == row.key then none
  else if (view committed transaction).captures.any fun other => other.key == row.key then some false
  else if unused others committed transaction.own Tables.captures fun other => other.id == row.id then some true
  else none

variable [Sha256]

/-- Runs one statement of a transaction; it may have to wait, or fail. -/
def execute : Statement → Option Transaction
  | .selectEvent delivery =>
    if (view committed transaction).events.any fun row => row.eventId == delivery.event.eventId then some transaction
    else some { transaction with todo := .upsertDevice delivery :: transaction.todo }
  | .upsertDevice delivery => (upsertDevice others committed transaction delivery).map fun row =>
    { transaction with
      own.devices := overlay DeviceRow.id [row] transaction.own.devices
      todo := .upsertSession row.id delivery :: transaction.todo
      deviceTimes := transaction.deviceTimes ++ [(row.id, delivery.observedAt)] }
  | .upsertSession deviceId delivery => (upsertSession others committed transaction deviceId delivery).map fun row =>
    { transaction with
      own.sessions := overlay SessionRow.id [row] transaction.own.sessions
      todo := .insertEvent deviceId row.id delivery :: transaction.todo
      sessionTimes := transaction.sessionTimes ++ [(row.id, delivery.observedAt)] }
  | .insertEvent deviceId sessionPk delivery =>
    let row := newEvent transaction.userId deviceId sessionPk delivery
    (insertEvent others committed transaction row).map fun inserted =>
      if inserted then
        { transaction with
          own.events := transaction.own.events ++ [row]
          todo := (if delivery.attachments.isEmpty then [] else [.insertAttachments delivery]) ++
            [.insertStreamFacts delivery, .insertOutboxTask delivery, .captureTitle sessionPk delivery] ++
            transaction.todo }
      else transaction
  | .insertAttachments delivery =>
    let rows := attachmentRows transaction delivery
    if insertAttachments others committed transaction rows then
      some { transaction with own.attachments := transaction.own.attachments ++ rows }
    else none
  | .insertStreamFacts delivery =>
    if unused others committed transaction.own Tables.streamFacts fun row => row.eventPk == delivery.draw.eventPk then
      some { transaction with
        own.streamFacts := transaction.own.streamFacts ++ [newFacts delivery.draw.eventPk delivery.event] }
    else none
  | .insertOutboxTask delivery =>
    let row := newSearchOutboxTask transaction delivery
    if unused others committed transaction.own Tables.outbox fun other => other.id == row.id || other.key == row.key then
      some { transaction with own.outbox := transaction.own.outbox ++ [row] }
    else none
  | .captureTitle sessionPk delivery => (captureTitle others committed transaction sessionPk delivery).map fun title =>
    { transaction with
      own.sessionTitles := overlay SessionTitle.sessionPk title.toList transaction.own.sessionTitles }
  | .selectCaptureEvents capture draw => (selectCaptureEvents committed transaction capture).map fun found =>
    { transaction with todo := .insertCapture capture draw found.1 found.2 :: transaction.todo }
  | .insertCapture capture draw first events =>
    let row := newCapture transaction.userId capture draw first
    (insertCapture others committed transaction row).map fun inserted =>
      if inserted then
        { transaction with
          own.captures := transaction.own.captures ++ [row]
          todo := .insertCaptureEvents draw events :: transaction.todo }
      else transaction
  | .insertCaptureEvents draw events =>
    let rows := events.map fun row => ⟨draw.capturePk, row.id⟩
    if rows.Nodup && rows.all fun row => unused others committed transaction.own Tables.captureEvents fun other =>
        other == row then
      some { transaction with own.captureEvents := transaction.own.captureEvents ++ rows }
    else none

end Statements

end AbyssBackend.Postgres
