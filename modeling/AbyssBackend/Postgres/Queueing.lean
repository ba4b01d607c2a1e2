import AbyssBackend.Postgres.Indexer

namespace AbyssBackend.Postgres

open Drafts Storage Streams Text

section Execute

variable {others : List Tables} {committed : Tables} {transaction after : Transaction} {statement : Statement}

/-- What a statement does to events and to the outbox. -/
inductive Enqueued (others : List Tables) (committed : Tables) (before : Transaction) (statement : Statement) :
    Transaction → Prop
  | task (delivery : Delivery) (after : Transaction) (hstatement : statement = .insertOutboxTask delivery)
      (hunused : ∀ tables ∈ before.own :: committed :: others, ∀ row ∈ tables.outbox,
        row.id ≠ (newSearchOutboxTask before delivery).id ∧ row.key ≠ (newSearchOutboxTask before delivery).key)
      (houtbox : after.own.outbox = before.own.outbox ++ [newSearchOutboxTask before delivery])
      (hevents : after.own.events = before.own.events) (htodo : after.todo = before.todo) :
      Enqueued others committed before statement after
  | event (row : EventRow) (delivery : Delivery) (after : Transaction) (hid : row.id = delivery.draw.eventPk)
      (houtbox : after.own.outbox = before.own.outbox) (hevents : after.own.events = before.own.events ++ [row])
      (htodo : ∀ other ∈ before.todo, other ∈ after.todo) (htask : .insertOutboxTask delivery ∈ after.todo)
      (hstatement : ∀ delivery, statement ≠ .insertOutboxTask delivery) :
      Enqueued others committed before statement after
  | other (after : Transaction) (houtbox : after.own.outbox = before.own.outbox)
      (hevents : after.own.events = before.own.events) (htodo : ∀ other ∈ before.todo, other ∈ after.todo)
      (hstatement : ∀ delivery, statement ≠ .insertOutboxTask delivery) :
      Enqueued others committed before statement after

theorem enqueued [Sha256] (h : execute others committed transaction statement = some after) :
    Enqueued others committed transaction statement after := by
  have hkept : ∀ {transaction : Transaction} {statement : Statement}, ∀ other ∈ transaction.todo,
      other ∈ statement :: transaction.todo := fun _ h => List.mem_cons_of_mem _ h
  cases statement with
  | selectEvent delivery =>
    simp only [execute] at h
    split at h <;> cases h
    · exact .other _ rfl rfl (fun _ h => h) (fun _ => Statement.noConfusion)
    · exact .other _ rfl rfl hkept (fun _ => Statement.noConfusion)
  | upsertDevice delivery =>
    obtain ⟨row, -, rfl⟩ := Option.map_eq_some_iff.mp h
    exact .other _ rfl rfl hkept (fun _ => Statement.noConfusion)
  | upsertSession deviceId delivery =>
    obtain ⟨row, -, rfl⟩ := Option.map_eq_some_iff.mp h
    exact .other _ rfl rfl hkept (fun _ => Statement.noConfusion)
  | insertEvent deviceId sessionPk delivery =>
    obtain ⟨inserted, -, rfl⟩ := Option.map_eq_some_iff.mp h
    split
    · refine .event _ delivery _ rfl rfl rfl (fun other hother => List.mem_append_right _ hother) ?_
        (fun _ => Statement.noConfusion)
      apply List.mem_append_left
      apply List.mem_append_right
      exact List.mem_cons_of_mem _ List.mem_cons_self
    · exact .other _ rfl rfl (fun _ h => h) (fun _ => Statement.noConfusion)
  | insertAttachments delivery =>
    simp only [execute] at h
    split at h <;> cases h
    exact .other _ rfl rfl (fun _ h => h) (fun _ => Statement.noConfusion)
  | insertStreamFacts delivery =>
    simp only [execute] at h
    split at h <;> cases h
    exact .other _ rfl rfl (fun _ h => h) (fun _ => Statement.noConfusion)
  | insertOutboxTask delivery =>
    simp only [execute] at h
    split at h <;> cases h
    next hunused =>
    refine .task delivery _ rfl (fun tables htables row hrow => ?_) rfl rfl rfl
    have hboth := unused_iff.mp hunused tables htables row hrow
    rw [Bool.or_eq_false_iff] at hboth
    exact ⟨ne_of_beq_false hboth.1, ne_of_beq_false hboth.2⟩
  | captureTitle sessionPk delivery =>
    obtain ⟨title, -, rfl⟩ := Option.map_eq_some_iff.mp h
    exact .other _ rfl rfl (fun _ h => h) (fun _ => Statement.noConfusion)
  | selectCaptureEvents capture draw =>
    obtain ⟨found, -, rfl⟩ := Option.map_eq_some_iff.mp h
    exact .other _ rfl rfl hkept (fun _ => Statement.noConfusion)
  | insertCapture capture draw first events =>
    obtain ⟨inserted, -, rfl⟩ := Option.map_eq_some_iff.mp h
    split
    · exact .other _ rfl rfl hkept (fun _ => Statement.noConfusion)
    · exact .other _ rfl rfl (fun _ h => h) (fun _ => Statement.noConfusion)
  | insertCaptureEvents draw events =>
    simp only [execute] at h
    split at h <;> cases h
    exact .other _ rfl rfl (fun _ h => h) (fun _ => Statement.noConfusion)

end Execute

section Work

variable {world after : World} {worker worker' : Worker} {action : WorkerAction}

/-- All that one step of a worker can do. -/
inductive World.Worked (world : World) (worker : Worker) : WorkerAction → Worker → World → Prop
  | start (indexAvailable : Bool) (phase : Phase) (hphase : phase = .ready ∨ phase = .selecting) :
      Worked world worker (.start indexAvailable) { worker with indexReady := true, phase } world
  | selectBackfill :
      Worked world worker .selectBackfill
        { worker with phase := .inserting (unqueued world.outbox world.events worker.batchSize) } world
  | insertBackfill (ids : ℕ → ℤ) (availableAt : ℤ) (selected : List EventRow) (phase : Phase)
      (hphase : phase = .ready ∨ phase = .checking)
      (hinsertable : world.insertable (backfillRows world.outbox selected ids availableAt) = true) :
      Worked world worker (.insertBackfill ids availableAt) { worker with phase }
        (world.setOutbox (world.outbox ++ backfillRows world.outbox selected ids availableAt))
  | checkBackfill (complete : Bool) (hcomplete : complete = world.events.all (queued world.outbox)) :
      Worked world worker .checkBackfill { worker with backfillComplete := complete, phase := .ready }
        { world with history.backfilled := world.history.backfilled || complete }
  | claim (startedAt : ℤ) (skipped : List ℤ) (tasks : List ClaimedOutboxTask) (phase : Phase)
      (hstarted : startedAt ≤ world.clock)
      (htasks : tasks = (claimRows world.outbox startedAt skipped worker.batchSize).map OutboxRow.task)
      (hphase : phase = if tasks.isEmpty then .idle else .claimed tasks) (hready : worker.phase = .ready) :
      Worked world worker (.claim startedAt skipped) { worker with phase }
        ((world.setOutbox (lease world.outbox tasks worker.workerId startedAt)).recordLease tasks worker.workerId
          startedAt)
  | prepare (tasks : List ClaimedOutboxTask) (hphase : worker.phase = .claimed tasks) :
      Worked world worker .prepare { worker with phase := .prepared (tasks.map (Postgres.prepare world.events)) } world
  | bulk (reply : BulkReply) (tasks : List PreparedOutboxTask) (indexReady : Bool)
      (hphase : worker.phase = .prepared tasks) :
      Worked world worker (.bulk reply) { worker with indexReady, phase := .recording (taskResults tasks reply) }
        (world.recordAnswers (tasks.map PreparedOutboxTask.operation) reply)
  | record (now : ℤ) (task : OutboxTaskResult) (rest : List OutboxTaskResult) (phase : Phase)
      (hphase : worker.phase = .recording (task :: rest)) (hafter : phase = if rest.isEmpty then .idle else .recording rest) :
      Worked world worker (.record now) { worker with phase }
        ((world.setOutbox (recordResult world.outbox task now)).recordOutcome task worker.workerId)
  | fail : Worked world worker .fail { worker with phase := .idle } world
  | crash : Worked world worker .crash { worker with phase := .stopped } world

theorem World.worked (h : world.work worker action = some (worker', after)) :
    world.Worked worker action worker' after := by
  unfold World.work at h
  split at h
  · split at h
    · cases h
      refine .start _ _ ?_
      split
      · exact Or.inl rfl
      · exact Or.inr rfl
    · cases h
  · cases h
    exact .selectBackfill
  · dsimp only at h
    split at h
    · next hinsertable =>
      cases h
      refine .insertBackfill _ _ _ _ ?_ hinsertable
      split
      · exact Or.inl rfl
      · exact Or.inr rfl
    · cases h
  · cases h
    exact .checkBackfill _ rfl
  · split at h
    · next hstarted =>
      cases h
      exact .claim _ _ _ _ hstarted rfl rfl ‹_›
    · cases h
  · cases h
    exact .prepare _ ‹_›
  · cases h
    exact .bulk _ _ _ ‹_›
  · cases h
    exact .record _ _ _ _ ‹_› rfl
  all_goals cases h
  all_goals first | exact .fail | exact .crash

end Work

section Step

variable [Sha256] [Base64] {before after : World} {action : Action}

/-- All that one step of the world can do. -/
inductive World.Stepped (before : World) : Action → World → Prop
  | ingest (action : IngestAction) (database : Database) (h : before.database.Stepped action database) :
      Stepped before (.ingest action) { before with database }
  | spawn (workerId : String) (batchSize : ℕ) (hnew : ∀ worker ∈ before.workers, worker.workerId ≠ workerId) :
      Stepped before (.spawn workerId batchSize)
        { before with workers := before.workers ++ [{ workerId, batchSize }] }
  | work (index : ℕ) (action : WorkerAction) (worker worker' : Worker) (after : World)
      (hget : before.workers[index]? = some worker) (hworked : before.Worked worker action worker' after) :
      Stepped before (.work index action) { after with workers := before.workers.set index worker' }
  | tick (now : ℤ) (hle : before.clock ≤ now) : Stepped before (.tick now) { before with clock := now }

theorem World.stepped (h : before.step action = some after) : before.Stepped action after := by
  cases action with
  | ingest action =>
    obtain ⟨database, hstep, rfl⟩ := Option.map_eq_some_iff.mp h
    exact .ingest action database (Database.stepped hstep)
  | spawn workerId batchSize =>
    simp only [World.step] at h
    split at h
    · next hnew =>
      cases h
      refine .spawn workerId batchSize fun worker hworker hsame => ?_
      simp only [Bool.and_eq_true, Bool.not_eq_true', List.any_eq_false] at hnew
      exact hnew.2 worker hworker (beq_iff_eq.mpr hsame)
    · cases h
  | work index action =>
    simp only [World.step] at h
    split at h
    · cases h
    · obtain ⟨⟨worker', world⟩, hworked, rfl⟩ := Option.map_eq_some_iff.mp h
      exact .work index action _ worker' world ‹_› (World.worked hworked)
  | tick now =>
    simp only [World.step] at h
    split at h
    · cases h
      exact .tick now ‹_›
    · cases h

end Step

end AbyssBackend.Postgres
