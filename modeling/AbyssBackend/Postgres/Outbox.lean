import Mathlib.Algebra.Ring.Int.Defs
import AbyssBackend.Library.Sorting
import AbyssBackend.Postgres.Elasticsearch

namespace AbyssBackend.Postgres

open Sorting Storage Streams

/-- Times are in microseconds. -/
def seconds (count : ℤ) : ℤ := count * 1000000

def outboxLease : ℤ := seconds 120

def maxOutboxAttempts : ℤ := 10

def maxRetryDelaySeconds : ℤ := 300

def maxErrorCharacters : ℕ := 2000

structure ClaimedOutboxTask where
  id : ℤ
  eventPk : Uuid
  operation : SearchOutboxOperation
  attemptCount : ℤ
deriving DecidableEq, Repr

structure PreparedOutboxTask where
  id : ℤ
  attemptCount : ℤ
  operation : BulkOperation

structure OutboxTaskResult where
  id : ℤ
  attemptCount : ℤ
  result : Except String Unit

def queued (outbox : List OutboxRow) (event : EventRow) : Bool :=
  outbox.any fun row => row.eventPk == event.id && row.operation == .upsert

/-- The events a backfill batch selects: the first ones that have no upsert row. -/
def unqueued (outbox : List OutboxRow) (events : List EventRow) (batchSize : ℕ) : List EventRow :=
  (sortBy EventRow.id (events.filter fun event => !queued outbox event)).take batchSize

/-- The rows a backfill batch inserts: those whose key is not taken by then. -/
def backfillRows (outbox : List OutboxRow) (selected : List EventRow) (ids : ℕ → ℤ) (availableAt : ℤ) :
    List OutboxRow :=
  (selected.filter fun event => !queued outbox event).zipIdx.map fun (event, index) =>
    { id := ids index
      eventPk := event.id
      userId := event.userId
      operation := .upsert
      attemptCount := 0
      availableAt
      claimedAt := none
      claimedBy := none
      processedAt := none
      deadLetteredAt := none
      lastError := none
      createdAt := event.createdAt }

def OutboxRow.terminal (row : OutboxRow) : Bool := row.processedAt.isSome || row.deadLetteredAt.isSome

def OutboxRow.claimable (row : OutboxRow) (now : ℤ) : Bool :=
  row.processedAt.isNone && row.deadLetteredAt.isNone && row.availableAt ≤ now &&
    row.claimedAt.all fun claimedAt => claimedAt < now - outboxLease

/-- The rows a claim leases; it skips those another transaction has locked. -/
def claimRows (outbox : List OutboxRow) (now : ℤ) (skipped : List ℤ) (batchSize : ℕ) : List OutboxRow :=
  ((sortBy OutboxRow.id outbox).filter fun row => row.claimable now && !skipped.contains row.id).take batchSize

def OutboxRow.task (row : OutboxRow) : ClaimedOutboxTask where
  id := row.id
  eventPk := row.eventPk
  operation := row.operation
  attemptCount := row.attemptCount

def OutboxRow.lease (row : OutboxRow) (workerId : String) (now : ℤ) : OutboxRow :=
  { row with
    claimedAt := some now
    claimedBy := some workerId }

def lease (outbox : List OutboxRow) (tasks : List ClaimedOutboxTask) (workerId : String) (now : ℤ) : List OutboxRow :=
  outbox.map fun row => if (tasks.map ClaimedOutboxTask.id).contains row.id then row.lease workerId now else row

/-- The operation a leased row asks for, by the events loaded; an event that is gone is deleted from the index. -/
def prepare (events : List EventRow) (task : ClaimedOutboxTask) : PreparedOutboxTask where
  id := task.id
  attemptCount := task.attemptCount
  operation :=
    match task.operation with
    | .upsert =>
      match Rows.find EventRow.id task.eventPk events with
      | some event => .index event
      | none => .delete task.eventPk
    | .delete => .delete task.eventPk

def retryDelay (attemptCount : ℤ) : ℤ := min (2 ^ (min (max attemptCount 1) 8).toNat) maxRetryDelaySeconds

def truncateError (error : String) : String := String.ofList (error.toList.take maxErrorCharacters)

def OutboxRow.release (row : OutboxRow) : OutboxRow :=
  { row with
    claimedAt := none
    claimedBy := none }

def OutboxTaskResult.attempts (task : OutboxTaskResult) : ℤ := min (task.attemptCount + 1) i32Max

/-- A row as the result of its task leaves it. -/
def OutboxRow.recorded (task : OutboxTaskResult) (now : ℤ) (row : OutboxRow) : OutboxRow :=
  match task.result with
  | .ok () =>
    { row.release with
      processedAt := some now
      lastError := none }
  | .error error =>
    if task.attempts ≥ maxOutboxAttempts then
      { row.release with
        attemptCount := task.attempts
        deadLetteredAt := some now
        lastError := some (truncateError error) }
    else
      { row.release with
        attemptCount := task.attempts
        availableAt := now + seconds (retryDelay task.attempts)
        lastError := some (truncateError error) }

def recordResult (outbox : List OutboxRow) (task : OutboxTaskResult) (now : ℤ) : List OutboxRow :=
  Rows.update OutboxRow.id task.id (OutboxRow.recorded task now) outbox

/-- The results that a bulk request gives its tasks, matched by position. -/
def taskResults (tasks : List PreparedOutboxTask) (reply : BulkReply) : List OutboxTaskResult :=
  let results :=
    match applyBulk (tasks.map PreparedOutboxTask.operation) reply with
    | .ok results => results
    | .error message => tasks.map fun _ => .error message
  List.zipWith (fun task result => ⟨task.id, task.attemptCount, result⟩) tasks results

end AbyssBackend.Postgres
