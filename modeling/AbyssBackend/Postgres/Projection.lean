import AbyssBackend.Postgres.Retries

namespace AbyssBackend.Postgres

open Drafts Runs Storage Streams Text

def upsertKey (eventPk : Uuid) : Uuid × SearchOutboxOperation := (eventPk, .upsert)

/-- Exactly one row of the outbox asks for the event to be indexed. -/
def World.QueuedOnce (world : World) (event : EventRow) : Prop :=
  (world.outbox.map OutboxRow.key).count (upsertKey event.id) = 1

def Worker.prepared (worker : Worker) : List PreparedOutboxTask :=
  match worker.phase with
  | .prepared tasks => tasks
  | _ => []

/-- A claim comes when the row is due, and neither a lock nor the size of its batch keeps it from the row. -/
structure Due (world : World) (worker : Worker) (row : OutboxRow) (startedAt : ℤ) (skipped : List ℤ) : Prop where
  ready : worker.phase = .ready
  started : startedAt ≤ world.clock
  available : row.availableAt ≤ startedAt
  expired : ∀ claimedAt, row.claimedAt = some claimedAt → claimedAt + outboxLease < startedAt
  unlocked : row.id ∉ skipped
  batch : (world.outbox.filter fun row => row.claimable startedAt).length ≤ worker.batchSize

/-- No event is lost: what ingests have committed is queued, and so is all that is older once a backfill has been
found complete; only what Elasticsearch has confirmed is processed; and a row that is due is claimed and prepared. -/
structure Projected [Sha256] [Base64] (start world : World) : Prop where
  ingested : ∃ committed, world.events = start.events ++ committed ∧ ∀ event ∈ committed, world.QueuedOnce event
  backfilled : world.history.backfilled = true → ∀ event ∈ world.events, world.QueuedOnce event
  processed : ∀ row ∈ world.outbox, row.processedAt ≠ none → Confirmed world.history.answers row.eventPk
  claims : ∀ row ∈ world.outbox, row.terminal = false → ∀ index worker startedAt skipped,
    world.workers[index]? = some worker → Due world worker row startedAt skipped →
    ∃ after worker', world.step (.work index (.claim startedAt skipped)) = some after ∧
      after.workers[index]? = some worker' ∧ row.task ∈ worker'.tasks
  prepares : ∀ index worker, world.workers[index]? = some worker → ∀ task ∈ worker.tasks,
    ∃ after worker', world.step (.work index .prepare) = some after ∧ after.workers[index]? = some worker' ∧
      ∃ prepared ∈ worker'.prepared, prepared.id = task.id ∧ prepared.operation.documentId = task.eventPk

/-- Each event that the transaction has inserted has its row, or is to be given it. -/
def Transaction.Enqueues (transaction : Transaction) : Prop :=
  ∀ event ∈ transaction.own.events, upsertKey event.id ∈ transaction.own.outbox.map OutboxRow.key ∨
    ∃ delivery, .insertOutboxTask delivery ∈ transaction.todo ∧ delivery.draw.eventPk = event.id

structure Enqueuing (start world : World) : Prop where
  own : ∀ transaction ∈ world.database.transactions, transaction.Enqueues
  ingested : ∃ committed, world.events = start.events ++ committed ∧
    ∀ event ∈ committed, upsertKey event.id ∈ world.outbox.map OutboxRow.key
  backfilled : world.history.backfilled = true →
    ∀ event ∈ world.events, upsertKey event.id ∈ world.outbox.map OutboxRow.key

section Rows

variable {outbox : List OutboxRow} {event : EventRow}

theorem queued_iff : queued outbox event = true ↔ upsertKey event.id ∈ outbox.map OutboxRow.key := by
  simp only [queued, List.any_eq_true, Bool.and_eq_true, beq_iff_eq, List.mem_map, OutboxRow.key, upsertKey,
    Prod.mk.injEq]

/-- A batch that can take every claimable row leases each one that is not locked. -/
theorem claimRows_complete {now : ℤ} {skipped : List ℤ} {batchSize : ℕ} {row : OutboxRow} (hrow : row ∈ outbox)
    (hclaimable : row.claimable now = true) (hskipped : row.id ∉ skipped)
    (hbatch : (outbox.filter fun row => row.claimable now).length ≤ batchSize) :
    row ∈ claimRows outbox now skipped batchSize := by
  have hsize : ((Sorting.sortBy OutboxRow.id outbox).filter fun row =>
      row.claimable now && !skipped.contains row.id).length ≤ batchSize := by
    apply le_trans _ hbatch
    rw [← ((Sorting.sortBy_perm OutboxRow.id outbox).filter _).length_eq]
    apply List.Sublist.length_le
    apply List.monotone_filter_right
    intro row hboth
    exact (Bool.and_eq_true_iff.mp hboth).1
  unfold claimRows
  rw [List.take_of_length_le hsize, List.mem_filter, Sorting.mem_sortBy]
  refine ⟨hrow, ?_⟩
  rw [hclaimable, Bool.true_and]
  simpa using hskipped

end Rows

section Execute

variable {others : List Tables} {committed : Tables} {transaction after : Transaction} {statement : Statement}
  {rest : List Statement}

theorem Enqueued.enqueues (h : Enqueued others committed { transaction with todo := rest } statement after)
    (htodo : transaction.todo = statement :: rest) (hbefore : transaction.Enqueues) : after.Enqueues := by
  cases h with
  | task delivery after hstatement hunused houtbox hevents hafter =>
    intro event hevent
    rw [houtbox, List.map_append]
    obtain hown | ⟨other, hother, hid⟩ := hbefore event (hevents ▸ hevent)
    · exact Or.inl (List.mem_append_left _ hown)
    · rw [htodo, hstatement] at hother
      obtain hhead | hrest := List.mem_cons.mp hother
      · obtain rfl := Statement.insertOutboxTask.inj hhead
        left
        apply List.mem_append_right
        exact List.mem_singleton.mpr (congrArg upsertKey hid.symm)
      · exact Or.inr ⟨other, hafter ▸ hrest, hid⟩
  | event row delivery after hid houtbox hevents hafter htask hstatement =>
    intro event hevent
    rw [hevents] at hevent
    obtain hold | hnew := List.mem_append.mp hevent
    · obtain hown | ⟨other, hother, hsame⟩ := hbefore event hold
      · exact Or.inl (houtbox ▸ hown)
      · rw [htodo] at hother
        obtain hhead | hrest := List.mem_cons.mp hother
        · exact absurd hhead.symm (hstatement other)
        · exact Or.inr ⟨other, hafter _ hrest, hsame⟩
    · obtain rfl := List.mem_singleton.mp hnew
      exact Or.inr ⟨delivery, htask, hid.symm⟩
  | other after houtbox hevents hafter hstatement =>
    intro event hevent
    obtain hown | ⟨other, hother, hid⟩ := hbefore event (hevents ▸ hevent)
    · exact Or.inl (houtbox ▸ hown)
    · rw [htodo] at hother
      obtain hhead | hrest := List.mem_cons.mp hother
      · exact absurd hhead.symm (hstatement other)
      · exact Or.inr ⟨other, hafter _ hrest, hid⟩

end Execute

section Step

variable {start before after : World} {worker worker' : Worker} {index : ℕ}

theorem World.Worked.keys {action : WorkerAction} (h : before.Worked worker action worker' after) :
    ∀ key ∈ before.outbox.map OutboxRow.key, key ∈ after.outbox.map OutboxRow.key := by
  intro key hkey
  cases h with
  | insertBackfill =>
    rw [World.setOutbox, World.outbox, List.map_append]
    exact List.mem_append_left _ hkey
  | claim startedAt skipped tasks =>
    have hkeys : (lease before.outbox tasks worker.workerId startedAt).map OutboxRow.key =
        before.outbox.map OutboxRow.key :=
      keyed_key.map_eq lease_keys
    exact hkeys.symm ▸ hkey
  | record now task =>
    have hkeys : (recordResult before.outbox task now).map OutboxRow.key = before.outbox.map OutboxRow.key :=
      keyed_key.map_eq recordResult_keys
    exact hkeys.symm ▸ hkey
  | _ => exact hkey

theorem World.Worked.database {action : WorkerAction} (h : before.Worked worker action worker' after) :
    after.events = before.events ∧ after.database.transactions = before.database.transactions := by
  cases h <;> exact ⟨rfl, rfl⟩

theorem World.Worked.backfilled {action : WorkerAction} (h : before.Worked worker action worker' after)
    (hafter : after.history.backfilled = true) : before.history.backfilled = true ∨
      ∀ event ∈ after.events, upsertKey event.id ∈ after.outbox.map OutboxRow.key := by
  cases h with
  | checkBackfill complete hcomplete =>
    obtain hbefore | hfound := Bool.or_eq_true_iff.mp hafter
    · exact Or.inl hbefore
    · right
      intro event hevent
      rw [hcomplete, List.all_eq_true] at hfound
      exact queued_iff.mp (hfound event hevent)
  | _ => exact Or.inl hafter

theorem Enqueuing.work {action : WorkerAction} (h : Enqueuing start before)
    (hworked : before.Worked worker action worker' after) : Enqueuing start after := by
  obtain ⟨hevents, htransactions⟩ := hworked.database
  obtain ⟨committed, hcommitted, hqueued⟩ := h.ingested
  refine ⟨htransactions ▸ h.own, ⟨committed, hevents.trans hcommitted, fun event hevent => ?_⟩,
    fun hafter event hevent => ?_⟩
  · exact hworked.keys _ (hqueued event hevent)
  · obtain hbefore | hfound := hworked.backfilled hafter
    · exact hworked.keys _ (h.backfilled hbefore event (hevents ▸ hevent))
    · exact hfound event hevent

section Ingest

variable [Sha256] [Base64]

theorem Enqueuing.ingest {action : IngestAction} {database : Database} (h : Enqueuing start before)
    (hstep : before.database.Stepped action database) : Enqueuing start { before with database } := by
  cases hstep with
  | begin request userId maxBatchSize draws begunAt validatedAttachments hvalid huser =>
    refine ⟨fun transaction hmem => ?_, h.ingested, h.backfilled⟩
    obtain hold | hnew := List.mem_append.mp hmem
    · exact h.own transaction hold
    · obtain rfl := List.mem_singleton.mp hnew
      exact fun event hevent => absurd hevent List.not_mem_nil
  | statement index transaction after statement rest hget htodo hexecute =>
    refine ⟨fun other hmem => ?_, h.ingested, h.backfilled⟩
    obtain hold | rfl := List.mem_or_eq_of_mem_set hmem
    · exact h.own other hold
    · exact (enqueued hexecute).enqueues htodo (h.own transaction (List.mem_of_getElem? hget))
  | commit index transaction hget hrunning htodo =>
    have hown : ∀ event ∈ transaction.own.events, upsertKey event.id ∈ transaction.own.outbox.map OutboxRow.key := by
      intro event hevent
      obtain hqueued | ⟨delivery, hdelivery, -⟩ := h.own transaction (List.mem_of_getElem? hget) event hevent
      · exact hqueued
      · rw [htodo] at hdelivery
        exact absurd hdelivery List.not_mem_nil
    have hkeys : ∀ key, key ∈ before.outbox.map OutboxRow.key ∨ key ∈ transaction.own.outbox.map OutboxRow.key →
        key ∈ (before.outbox ++ transaction.own.outbox).map OutboxRow.key := by
      intro key hkey
      rw [List.map_append]
      exact List.mem_append.mpr hkey
    obtain ⟨committed, hcommitted, hqueued⟩ := h.ingested
    refine ⟨fun other hmem => ?_, ⟨committed ++ transaction.own.events, ?_, fun event hevent => ?_⟩,
      fun hbackfilled event hevent => ?_⟩
    · obtain hold | rfl := List.mem_or_eq_of_mem_set hmem
      · exact h.own other hold
      · exact fun event hevent => absurd hevent List.not_mem_nil
    · rw [← List.append_assoc, ← hcommitted]
      rfl
    · obtain hold | hnew := List.mem_append.mp hevent
      · exact hkeys _ (Or.inl (hqueued event hold))
      · exact hkeys _ (Or.inr (hown event hnew))
    · have hevent' : event ∈ before.events ++ transaction.own.events := hevent
      obtain hold | hnew := List.mem_append.mp hevent'
      · exact hkeys _ (Or.inl (h.backfilled hbackfilled event hold))
      · exact hkeys _ (Or.inr (hown event hnew))
  | abort index transaction hget hrunning =>
    refine ⟨fun other hmem => ?_, h.ingested, h.backfilled⟩
    obtain hold | rfl := List.mem_or_eq_of_mem_set hmem
    · exact h.own other hold
    · exact fun event hevent => absurd hevent List.not_mem_nil

theorem Enqueuing.step {action : Action} (h : Enqueuing start before) (hstep : before.Stepped action after) :
    Enqueuing start after := by
  cases hstep with
  | ingest action database hdatabase => exact h.ingest hdatabase
  | spawn workerId batchSize hnew => exact ⟨h.own, h.ingested, h.backfilled⟩
  | work index action worker worker' moved hget hworked =>
    have hmoved : Enqueuing start moved := h.work hworked
    exact ⟨hmoved.own, hmoved.ingested, hmoved.backfilled⟩
  | tick now hle => exact ⟨h.own, h.ingested, h.backfilled⟩

theorem World.step_work {action : WorkerAction} (hget : before.workers[index]? = some worker)
    (hwork : before.work worker action = some (worker', after)) :
    ∃ after, before.step (.work index action) = some after ∧ after.workers[index]? = some worker' := by
  have hlength : index < before.workers.length := (List.getElem?_eq_some_iff.mp hget).1
  refine ⟨{ after with workers := before.workers.set index worker' }, ?_, List.getElem?_set_self hlength⟩
  simp only [World.step, hget, hwork, Option.map_some]

/-- A claim leases every row that is due and that it can take. -/
theorem World.claims {row : OutboxRow} {startedAt : ℤ} {skipped : List ℤ} (hrow : row ∈ before.outbox)
    (hterminal : row.terminal = false) (hget : before.workers[index]? = some worker)
    (hdue : Due before worker row startedAt skipped) :
    ∃ after worker', before.step (.work index (.claim startedAt skipped)) = some after ∧
      after.workers[index]? = some worker' ∧ row.task ∈ worker'.tasks := by
  have hclaimable : row.claimable startedAt = true := by
    rw [OutboxRow.terminal, Bool.or_eq_false_iff, Option.isSome_eq_false_iff, Option.isSome_eq_false_iff,
      Option.isNone_iff_eq_none, Option.isNone_iff_eq_none] at hterminal
    refine claimable_iff.mpr ⟨hterminal.1, hterminal.2, hdue.available, fun claimedAt hclaimed => ?_⟩
    have hexpired := hdue.expired claimedAt hclaimed
    omega
  have htask : row.task ∈ (claimRows before.outbox startedAt skipped worker.batchSize).map OutboxRow.task :=
    List.mem_map_of_mem (claimRows_complete hrow hclaimable hdue.unlocked hdue.batch)
  have hsome : ((claimRows before.outbox startedAt skipped worker.batchSize).map OutboxRow.task).isEmpty = false :=
    List.isEmpty_eq_false_iff_exists_mem.mpr ⟨_, htask⟩
  have hwork : ∃ moved, before.work worker (.claim startedAt skipped) = some ({ worker with
      phase := .claimed ((claimRows before.outbox startedAt skipped worker.batchSize).map OutboxRow.task) }, moved) := by
    simp [World.work, hdue.ready, hdue.started, hsome]
  obtain ⟨moved, hmoved⟩ := hwork
  obtain ⟨after, hstep, hafter⟩ := World.step_work hget hmoved
  exact ⟨after, _, hstep, hafter, htask⟩

/-- What a claim has leased it prepares, each row for its own event. -/
theorem World.prepares (hget : before.workers[index]? = some worker) {task : ClaimedOutboxTask}
    (htask : task ∈ worker.tasks) :
    ∃ after worker', before.step (.work index .prepare) = some after ∧ after.workers[index]? = some worker' ∧
      ∃ prepared ∈ worker'.prepared, prepared.id = task.id ∧ prepared.operation.documentId = task.eventPk := by
  unfold Worker.tasks at htask
  split at htask
  · next tasks hphase =>
    have hwork : before.work worker .prepare =
        some ({ worker with phase := .prepared (tasks.map (Postgres.prepare before.events)) }, before) := by
      simp only [World.work, hphase]
    obtain ⟨after, hstep, hafter⟩ := World.step_work hget hwork
    exact ⟨after, _, hstep, hafter, Postgres.prepare before.events task, List.mem_map_of_mem htask, rfl,
      prepare_documentId⟩
  · exact absurd htask List.not_mem_nil

end Ingest

end Step

section Run

variable [Sha256] [Base64] {start world : World}

theorem Initial.enqueuing_along (hstart : Initial start) (h : Reaches World.step anyStep start world) :
    Enqueuing start world := by
  apply h.invariant
  · refine ⟨?_, ⟨[], (List.append_nil _).symm, fun event hevent => absurd hevent List.not_mem_nil⟩, ?_⟩
    · simp [hstart.transactions]
    · simp [hstart.history]
  · exact fun before action after hbefore _ hstep => hbefore.step (World.stepped hstep)

/-- In every run the outbox loses no event. -/
theorem Initial.projected_along (hstart : Initial start) (h : Reaches World.step anyStep start world) :
    Projected start world := by
  have htracked := (hstart.tracked_along h).1
  have henqueuing := hstart.enqueuing_along h
  have honce : ∀ event : EventRow, upsertKey event.id ∈ world.outbox.map OutboxRow.key → world.QueuedOnce event :=
    fun event hqueued => List.count_eq_one_of_mem htracked.keys.keys hqueued
  obtain ⟨committed, hcommitted, hqueued⟩ := henqueuing.ingested
  refine ⟨⟨committed, hcommitted, fun event hevent => honce event (hqueued event hevent)⟩,
    fun hbackfilled event hevent => honce event (henqueuing.backfilled hbackfilled event hevent),
    htracked.processed, ?_, ?_⟩
  · intro row hrow hterminal index worker startedAt skipped hget hdue
    exact World.claims hrow hterminal hget hdue
  · intro index worker hget task htask
    exact World.prepares hget htask

end Run

section Backfilled

open Fixtures

local instance projectedDigest : Sha256 := cargoDigest

local instance projectedContent : Base64 := noContent

/-- A database with one event that is older than the outbox. -/
def olderWorld : World :=
  let database := ((run World.step anyStep ingested newWorld).getD newWorld).database
  { newWorld with database := { users := [7], committed := { database.committed with outbox := [] } } }

theorem olderWorld_initial : Initial olderWorld := ⟨rfl, rfl, rfl, rfl⟩

/-- The older event is queued, answered and recorded. -/
def backfilling : List Action :=
  .spawn "a" 10 :: readied 0 ++ [.work 0 (.claim 0 []), .work 0 .prepare, .work 0 (.bulk (.items [some ⟨201, none⟩])),
    .work 0 (.record 0)]

def backfilledWorld : World := (run World.step anyStep backfilling olderWorld).getD olderWorld

theorem Initial.projected_backfill : backfilledWorld.history.backfilled = true ∧
    backfilledWorld.outbox.map OutboxRow.processedAt = [some 0] ∧ Projected olderWorld backfilledWorld := by
  have hrun : run World.step anyStep backfilling olderWorld = some backfilledWorld := rfl
  exact ⟨rfl, rfl, Initial.projected_along olderWorld_initial (reaches_run hrun)⟩

end Backfilled

end AbyssBackend.Postgres
