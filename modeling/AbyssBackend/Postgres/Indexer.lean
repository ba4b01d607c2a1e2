import AbyssBackend.Postgres.Database
import AbyssBackend.Postgres.Outbox

namespace AbyssBackend.Postgres

open Drafts Storage Streams Text

/-- Where an indexer is in its iteration: `advance_backfill_batch` selects, inserts and checks, `claim_and_prepare`
claims and prepares, a bulk request gives results, and these are recorded one by one. -/
inductive Phase
  | idle
  | selecting
  | inserting (selected : List EventRow)
  | checking
  | ready
  | claimed (tasks : List ClaimedOutboxTask)
  | prepared (tasks : List PreparedOutboxTask)
  | recording (results : List OutboxTaskResult)
  | stopped

structure Worker where
  workerId : String
  batchSize : ℕ
  indexReady : Bool := false
  backfillComplete : Bool := false
  phase : Phase := .idle

structure Lease where
  taskId : ℤ
  workerId : String
  claimedAt : ℤ
deriving DecidableEq, Repr

/-- What has happened so far: what Elasticsearch has answered, the claims whose results their workers have not yet
recorded, the results recorded, and whether a backfill has been found complete. -/
structure History where
  answers : List (BulkOperation × Option BulkItem) := []
  leases : List Lease := []
  recorded : List OutboxTaskResult := []
  backfilled : Bool := false

structure World where
  database : Database
  workers : List Worker := []
  clock : ℤ
  history : History := {}

inductive WorkerAction
  | start (indexAvailable : Bool)
  | selectBackfill
  | insertBackfill (ids : ℕ → ℤ) (availableAt : ℤ)
  | checkBackfill
  | claim (startedAt : ℤ) (skipped : List ℤ)
  | prepare
  | bulk (reply : BulkReply)
  | record (now : ℤ)
  | fail
  | crash

inductive Action
  | ingest (action : IngestAction)
  | spawn (workerId : String) (batchSize : ℕ)
  | work (index : ℕ) (action : WorkerAction)
  | tick (now : ℤ)

namespace World

variable (world : World)

def outbox : List OutboxRow := world.database.committed.outbox

def events : List EventRow := world.database.committed.events

def pendingOutbox : List OutboxRow := world.database.transactions.flatMap fun transaction => transaction.own.outbox

def setOutbox (rows : List OutboxRow) : World := { world with database.committed.outbox := rows }

/-- Whether rows can be inserted: no row anywhere, committed or not, has an id or a key of theirs. -/
def insertable (rows : List OutboxRow) : Bool :=
  (rows.map OutboxRow.id).Nodup && (rows.map OutboxRow.key).Nodup &&
    rows.all fun row => (world.outbox ++ world.pendingOutbox).all fun other => other.id != row.id && other.key != row.key

def recordLease (tasks : List ClaimedOutboxTask) (workerId : String) (now : ℤ) : World :=
  { world with history.leases := world.history.leases ++ tasks.map fun task => ⟨task.id, workerId, now⟩ }

def recordAnswers (operations : List BulkOperation) (reply : BulkReply) : World :=
  { world with history.answers := world.history.answers ++ reply.answers operations }

def recordOutcome (task : OutboxTaskResult) (workerId : String) : World :=
  { world with
    history.recorded := world.history.recorded ++ [task]
    history.leases := world.history.leases.filter fun lease => lease.taskId != task.id || lease.workerId != workerId }

/-- One step of one worker. -/
def work (worker : Worker) (action : WorkerAction) : Option (Worker × World) :=
  match action, worker.phase with
  | .start indexAvailable, .idle =>
    if worker.indexReady || indexAvailable then
      some ({ worker with
        indexReady := true
        phase := if worker.backfillComplete then .ready else .selecting }, world)
    else none
  | .selectBackfill, .selecting =>
    some ({ worker with phase := .inserting (unqueued world.outbox world.events worker.batchSize) }, world)
  | .insertBackfill ids availableAt, .inserting selected =>
    let rows := backfillRows world.outbox selected ids availableAt
    if world.insertable rows then
      some ({ worker with phase := if rows.length ≥ worker.batchSize then .ready else .checking },
        world.setOutbox (world.outbox ++ rows))
    else none
  | .checkBackfill, .checking =>
    let complete := world.events.all (queued world.outbox)
    some ({ worker with
      backfillComplete := complete
      phase := .ready }, { world with history.backfilled := world.history.backfilled || complete })
  | .claim startedAt skipped, .ready =>
    if startedAt ≤ world.clock then
      let tasks := (claimRows world.outbox startedAt skipped worker.batchSize).map OutboxRow.task
      some ({ worker with phase := if tasks.isEmpty then .idle else .claimed tasks },
        (world.setOutbox (lease world.outbox tasks worker.workerId startedAt)).recordLease tasks worker.workerId
          startedAt)
    else none
  | .prepare, .claimed tasks => some ({ worker with phase := .prepared (tasks.map (Postgres.prepare world.events)) }, world)
  | .bulk reply, .prepared tasks =>
    let results := taskResults tasks reply
    some ({ worker with
      indexReady := worker.indexReady && results.all fun task => task.result.isOk
      phase := .recording results }, world.recordAnswers (tasks.map PreparedOutboxTask.operation) reply)
  | .record now, .recording (task :: rest) =>
    some ({ worker with phase := if rest.isEmpty then .idle else .recording rest },
      (world.setOutbox (recordResult world.outbox task now)).recordOutcome task worker.workerId)
  -- an error of the database ends the iteration
  | .fail, .selecting | .fail, .inserting _ | .fail, .checking | .fail, .ready | .fail, .claimed _
  | .fail, .recording _ => some ({ worker with phase := .idle }, world)
  | .crash, _ => some ({ worker with phase := .stopped }, world)
  | _, _ => none

end World

section Step

variable [Sha256] [Base64]

/-- One step of an ingest, of an indexer, or of the clock. -/
def World.step (world : World) : Action → Option World
  | .ingest action => (world.database.step action).map fun database => { world with database }
  | .spawn workerId batchSize =>
    if batchSize ≠ 0 && !(world.workers.any fun worker => worker.workerId == workerId) then
      some { world with workers := world.workers ++ [{ workerId, batchSize }] }
    else none
  | .work index action =>
    match world.workers[index]? with
    | none => none
    | some worker => (world.work worker action).map fun (worker, after) =>
      { after with workers := world.workers.set index worker }
  | .tick now => if world.clock ≤ now then some { world with clock := now } else none

end Step

end AbyssBackend.Postgres
