import AbyssBackend.Library.Drafts
import AbyssBackend.Storage.Schema

namespace AbyssBackend.Postgres

open Drafts Storage Streams

inductive SearchOutboxOperation
  | upsert
  | delete
deriving DecidableEq, Repr

structure OutboxRow where
  id : ℤ
  eventPk : Uuid
  userId : Uuid
  operation : SearchOutboxOperation
  attemptCount : ℤ
  availableAt : ℤ
  claimedAt : Option ℤ
  claimedBy : Option String
  processedAt : Option ℤ
  deadLetteredAt : Option ℤ
  lastError : Option String
  createdAt : ℤ
deriving DecidableEq, Repr

def OutboxRow.key (row : OutboxRow) : Uuid × SearchOutboxOperation := (row.eventPk, row.operation)

structure Tables where
  devices : List DeviceRow := []
  sessions : List SessionRow := []
  events : List EventRow := []
  streamFacts : List StreamFactsRow := []
  attachments : List AttachmentRow := []
  sessionTitles : List SessionTitle := []
  captures : List DiagnosticCapture := []
  captureEvents : List DiagnosticCaptureEvent := []
  outbox : List OutboxRow := []

/-- The tables as a transaction sees them: what it wrote itself, over what others have committed. -/
def Tables.over (own committed : Tables) : Tables where
  devices := overlay DeviceRow.id own.devices committed.devices
  sessions := overlay SessionRow.id own.sessions committed.sessions
  events := committed.events ++ own.events
  streamFacts := committed.streamFacts ++ own.streamFacts
  attachments := committed.attachments ++ own.attachments
  sessionTitles := overlay SessionTitle.sessionPk own.sessionTitles committed.sessionTitles
  captures := committed.captures ++ own.captures
  captureEvents := committed.captureEvents ++ own.captureEvents
  outbox := committed.outbox ++ own.outbox

/-- The tables that the SQLite store has too. -/
def Tables.shared (tables : Tables) : Store where
  users := []
  devices := tables.devices
  sessions := tables.sessions
  events := tables.events
  streamFacts := tables.streamFacts
  attachments := tables.attachments
  sessionTitles := tables.sessionTitles
  captures := tables.captures
  captureEvents := tables.captureEvents

end AbyssBackend.Postgres
