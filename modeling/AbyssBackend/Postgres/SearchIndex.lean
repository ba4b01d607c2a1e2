import AbyssBackend.Postgres.Keys
import AbyssBackend.Postgres.Projection
import AbyssBackend.Postgres.SearchText

namespace AbyssBackend.Postgres

open Drafts Runs Storage Streams Text

/-- The documents that Elasticsearch holds, by the keys of their events. -/
abbrev SearchIndex := Uuid → Option SearchDocument

def BulkOperation.apply (index : SearchIndex) : BulkOperation → SearchIndex
  | .index event => Function.update index event.id (some (SearchDocument.fromEvent event))
  | .delete eventPk => Function.update index eventPk none

/-- The service and Elasticsearch. A bulk request is kept once it is sent, and its operations are applied at any time
from then on, whatever has come of the request for its sender. -/
structure SearchSystem where
  world : World
  index : SearchIndex := fun _ => none
  requests : List (List BulkOperation) := []
  applied : List BulkOperation := []

inductive SearchAction
  | service (action : Action)
  | send (index : ℕ)
  | apply (request place : ℕ)

def SearchSystem.step [Sha256] [Base64] (system : SearchSystem) : SearchAction → Option SearchSystem
  | .service action => (system.world.step action).map fun world => { system with world }
  | .send index => do
    match (← system.world.workers[index]?).phase with
    | .prepared tasks =>
      return { system with requests := system.requests ++ [tasks.map PreparedOutboxTask.operation] }
    | _ => none
  | .apply request place => do
    let operation ← (← system.requests[request]?)[place]?
    return { system with
      index := operation.apply system.index
      applied := system.applied ++ [operation] }

def BulkItem.written (item : BulkItem) : Prop := 200 ≤ item.status ∧ item.status < 300

/-- Elasticsearch reports as written only what it has applied. -/
def Answered (system : SearchSystem) : SearchAction → Prop
  | .service (.work index (.bulk reply)) => ∀ worker, system.world.workers[index]? = some worker →
    ∀ answer ∈ reply.answers (worker.prepared.map PreparedOutboxTask.operation), ∀ item, answer.2 = some item →
      item.written → answer.1 ∈ system.applied
  | _ => True

/-- What the index is to hold: the document of every event. -/
def mirror (events : List EventRow) : SearchIndex :=
  fun eventPk => (Rows.find EventRow.id eventPk events).map SearchDocument.fromEvent

/-- The index holds documents of committed events alone; it holds that of every event whose row is processed, and in
the end, when all is queued and processed, it is what it is to be. -/
structure Mirrored (system : SearchSystem) : Prop where
  sent : ∀ request ∈ system.requests, ∀ operation ∈ request, ∃ event ∈ system.world.events, operation = .index event
  held : ∀ eventPk document, system.index eventPk = some document →
    mirror system.world.events eventPk = some document
  processed : ∀ row ∈ system.world.outbox, row.processedAt ≠ none → ∃ event ∈ system.world.events,
    event.id = row.eventPk ∧ system.index event.id = some (.fromEvent event)
  complete : system.world.history.backfilled = true → (∀ row ∈ system.world.outbox, row.processedAt ≠ none) →
    system.index = mirror system.world.events

section Asks

variable {events events' : List EventRow}

def OutboxRow.Asks (events : List EventRow) (row : OutboxRow) : Prop :=
  row.operation = .upsert ∧ row.eventPk ∈ events.map EventRow.id

def BulkOperation.Asks (events : List EventRow) (operation : BulkOperation) : Prop :=
  ∃ event ∈ events, operation = .index event

/-- What a worker holds asks for committed events to be indexed. -/
def Phase.Asks (events : List EventRow) : Phase → Prop
  | .inserting selected => ∀ event ∈ selected, event ∈ events
  | .claimed tasks => ∀ task ∈ tasks, task.operation = .upsert ∧ task.eventPk ∈ events.map EventRow.id
  | .prepared tasks => ∀ task ∈ tasks, task.operation.Asks events
  | _ => True

def Transaction.Asks (transaction : Transaction) : Prop :=
  (∀ row ∈ transaction.own.outbox, row.Asks transaction.own.events) ∧
    ∀ delivery, .insertOutboxTask delivery ∈ transaction.todo →
      delivery.draw.eventPk ∈ transaction.own.events.map EventRow.id

theorem mem_ids (h : ∀ event ∈ events, event ∈ events') {eventPk : Uuid} (hmem : eventPk ∈ events.map EventRow.id) :
    eventPk ∈ events'.map EventRow.id := by
  obtain ⟨event, hevent, rfl⟩ := List.mem_map.mp hmem
  exact List.mem_map_of_mem (h event hevent)

theorem OutboxRow.Asks.mono {row : OutboxRow} (h : row.Asks events) (hsub : ∀ event ∈ events, event ∈ events') :
    row.Asks events' := ⟨h.1, mem_ids hsub h.2⟩

theorem BulkOperation.Asks.mono {operation : BulkOperation} (h : operation.Asks events)
    (hsub : ∀ event ∈ events, event ∈ events') : operation.Asks events' := by
  obtain ⟨event, hevent, rfl⟩ := h
  exact ⟨event, hsub event hevent, rfl⟩

theorem Phase.Asks.mono {phase : Phase} (h : phase.Asks events) (hsub : ∀ event ∈ events, event ∈ events') :
    phase.Asks events' := by
  cases phase with
  | inserting selected => exact fun event hevent => hsub event (h event hevent)
  | claimed tasks => exact fun task htask => ⟨(h task htask).1, mem_ids hsub (h task htask).2⟩
  | prepared tasks => exact fun task htask => (h task htask).mono hsub
  | _ => trivial

theorem Execution.asks [Sha256] {others : List Tables} {committed : Tables} {before after : Transaction}
    {statement : Statement} (h : Execution others committed before statement after)
    (hasks : Transaction.Asks { before with todo := statement :: before.todo }) : after.Asks := by
  obtain ⟨hrows, htodo⟩ := hasks
  have hrest : ∀ delivery, .insertOutboxTask delivery ∈ before.todo →
      delivery.draw.eventPk ∈ before.own.events.map EventRow.id :=
    fun delivery hmem => htodo delivery (List.mem_cons_of_mem _ hmem)
  have hpushed : ∀ {new : Statement}, (∀ delivery, new ≠ .insertOutboxTask delivery) →
      ∀ delivery, .insertOutboxTask delivery ∈ new :: before.todo →
        delivery.draw.eventPk ∈ before.own.events.map EventRow.id := by
    intro new hne delivery hmem
    obtain hhead | hmem := List.mem_cons.mp hmem
    · exact absurd hhead.symm (hne delivery)
    · exact hrest delivery hmem
  cases h with
  | inserted deviceId sessionPk delivery hrow =>
    have hsub : ∀ event ∈ before.own.events, event ∈ before.own.events ++
        [newEvent before.userId deviceId sessionPk delivery] := fun event hevent => List.mem_append_left _ hevent
    refine ⟨fun row hrow => (hrows row hrow).mono hsub, fun other hother => ?_⟩
    obtain hnew | hmem := List.mem_append.mp hother
    · obtain hattachments | hmore := List.mem_append.mp hnew
      · split at hattachments
        · exact absurd hattachments List.not_mem_nil
        · cases List.mem_singleton.mp hattachments
      · simp only [List.mem_cons, List.not_mem_nil, or_false, reduceCtorEq, false_or] at hmore
        obtain rfl := Statement.insertOutboxTask.inj hmore
        exact List.mem_map_of_mem (List.mem_append_right _ (List.mem_singleton_self _))
    · exact mem_ids hsub (hrest other hmem)
  | task delivery hunused =>
    refine ⟨fun row hrow => ?_, hrest⟩
    obtain hold | hnew := List.mem_append.mp hrow
    · exact hrows row hold
    · obtain rfl := List.mem_singleton.mp hnew
      exact ⟨rfl, htodo delivery List.mem_cons_self⟩
  | selected | device | session | captured | capture => exact ⟨hrows, hpushed fun _ => Statement.noConfusion⟩
  | _ => exact ⟨hrows, hrest⟩

end Asks

section Work

variable {before after : World} {worker worker' : Worker} {action : WorkerAction} {index : ℕ}

theorem World.step_worked [Sha256] [Base64] (h : before.step (.work index action) = some after) :
    ∃ worker worker' moved, before.workers[index]? = some worker ∧
      before.work worker action = some (worker', moved) ∧
      after = { moved with workers := before.workers.set index worker' } := by
  simp only [World.step] at h
  split at h
  · cases h
  · next worker hget =>
    obtain ⟨⟨worker', moved⟩, hwork, rfl⟩ := Option.map_eq_some_iff.mp h
    exact ⟨worker, worker', moved, hget, hwork, rfl⟩

theorem World.work_inserting {ids : ℕ → ℤ} {availableAt : ℤ}
    (h : before.work worker (.insertBackfill ids availableAt) = some (worker', after)) :
    ∃ selected, worker.phase = .inserting selected ∧
      after.outbox = before.outbox ++ backfillRows before.outbox selected ids availableAt := by
  cases hphase : worker.phase with
  | inserting selected =>
    simp only [World.work, hphase] at h
    split at h
    · cases h
      exact ⟨selected, rfl, rfl⟩
    · cases h
  | _ =>
    simp only [World.work, hphase] at h
    cases h

theorem asks_of_keys {rows rows' : List OutboxRow} {events : List EventRow}
    (hkeys : rows'.map OutboxRow.key = rows.map OutboxRow.key) (h : ∀ row ∈ rows, row.Asks events) :
    ∀ row ∈ rows', row.Asks events := by
  intro row hrow
  have hmem : row.key ∈ rows.map OutboxRow.key := hkeys ▸ List.mem_map_of_mem hrow
  obtain ⟨old, hold, hkey⟩ := List.mem_map.mp hmem
  obtain ⟨hpk, hoperation⟩ := Prod.mk.inj hkey
  obtain ⟨hupsert, hasked⟩ := h old hold
  exact ⟨hoperation.symm.trans hupsert, hpk ▸ hasked⟩

theorem mem_unqueued {outbox : List OutboxRow} {events : List EventRow} {batchSize : ℕ} {event : EventRow}
    (h : event ∈ unqueued outbox events batchSize) : event ∈ events :=
  (List.mem_filter.mp (Sorting.mem_sortBy.mp (List.mem_of_mem_take h))).1

theorem backfillRows_asks {outbox : List OutboxRow} {selected events : List EventRow} {ids : ℕ → ℤ} {availableAt : ℤ}
    (hselected : ∀ event ∈ selected, event ∈ events) :
    ∀ row ∈ backfillRows outbox selected ids availableAt, row.Asks events := by
  intro row hrow
  obtain ⟨⟨event, index⟩, hindexed, rfl⟩ := List.mem_map.mp hrow
  have hevent := (List.mem_filter.mp (List.fst_mem_of_mem_zipIdx hindexed)).1
  exact ⟨rfl, List.mem_map_of_mem (hselected event hevent)⟩

theorem World.work_rows (h : before.work worker action = some (worker', after))
    (hrows : ∀ row ∈ before.outbox, row.Asks before.events) (hphase : worker.phase.Asks before.events) :
    ∀ row ∈ after.outbox, row.Asks before.events := by
  have hworked := World.worked h
  cases hworked with
  | insertBackfill ids availableAt selected phase =>
    obtain ⟨held, hheld, houtbox⟩ := World.work_inserting h
    rw [houtbox]
    intro row hrow
    obtain hold | hnew := List.mem_append.mp hrow
    · exact hrows row hold
    · rw [hheld] at hphase
      exact backfillRows_asks hphase row hnew
  | claim startedAt skipped tasks => exact asks_of_keys (keyed_key.map_eq lease_keys) hrows
  | record now task => exact asks_of_keys (keyed_key.map_eq recordResult_keys) hrows
  | _ => exact hrows

theorem prepare_asks {events : List EventRow} {task : ClaimedOutboxTask} (hupsert : task.operation = .upsert)
    (hasked : task.eventPk ∈ events.map EventRow.id) : (prepare events task).operation.Asks events := by
  unfold prepare
  rw [hupsert]
  dsimp only
  split
  · next event hfind => exact ⟨event, (Rows.find_mem hfind).1, rfl⟩
  · next hfind => exact absurd hasked (Rows.find_none hfind)

theorem World.Worked.asks (h : before.Worked worker action worker' after)
    (hrows : ∀ row ∈ before.outbox, row.Asks before.events) (hphase : worker.phase.Asks before.events) :
    worker'.phase.Asks before.events := by
  cases h with
  | start indexAvailable phase hnext => obtain rfl | rfl := hnext <;> trivial
  | selectBackfill => exact fun event hevent => mem_unqueued hevent
  | insertBackfill ids availableAt selected phase hnext => obtain rfl | rfl := hnext <;> trivial
  | claim startedAt skipped tasks phase hstarted htasks hnext hready =>
    subst hnext
    dsimp only
    split
    · trivial
    · intro task htask
      rw [htasks] at htask
      obtain ⟨row, hrow, rfl⟩ := List.mem_map.mp htask
      exact hrows row (mem_claimRows hrow).1
  | prepare tasks hclaimed =>
    rw [hclaimed] at hphase
    intro task htask
    obtain ⟨claimed, hmem, rfl⟩ := List.mem_map.mp htask
    exact prepare_asks (hphase claimed hmem).1 (hphase claimed hmem).2
  | record now task rest phase hrecording hnext =>
    subst hnext
    dsimp only
    split <;> trivial
  | checkBackfill | bulk | fail | crash => trivial

theorem mem_answers {operations : List BulkOperation} {reply : BulkReply} {answer : BulkOperation × Option BulkItem}
    (h : answer ∈ reply.answers operations) : answer.1 ∈ operations := by
  cases reply with
  | items items => exact (List.of_mem_zip h).1
  | failed message => exact absurd h List.not_mem_nil

end Work

section Mirror

variable {events more : List EventRow} {event : EventRow} {eventPk : Uuid}

theorem mirror_of_mem (hids : (events.map EventRow.id).Nodup) (h : event ∈ events) :
    mirror events event.id = some (.fromEvent event) := by
  rw [mirror, Rows.find_of_mem hids h, Option.map_some]

/-- The document of an event that is there stays what it is when more events come. -/
theorem mirror_append (h : eventPk ∈ events.map EventRow.id) : mirror (events ++ more) eventPk = mirror events eventPk := by
  obtain ⟨event, hevent, rfl⟩ := List.mem_map.mp h
  have hfound : (Rows.find EventRow.id event.id events).isSome :=
    List.find?_isSome.mpr ⟨event, hevent, decide_eq_true rfl⟩
  obtain ⟨found, hfind⟩ := Option.isSome_iff_exists.mp hfound
  unfold mirror
  congr 1
  rw [hfind, Rows.find, List.find?_append, show events.find? _ = some found from hfind, Option.some_or]

end Mirror

/-- What holds of the service and of Elasticsearch at any moment. -/
structure Indexing (system : SearchSystem) : Prop where
  events : RowsApart Tables.events EventRow.id system.world.database
  rows : ∀ row ∈ system.world.outbox, row.Asks system.world.events
  own : ∀ transaction ∈ system.world.database.transactions, transaction.Asks
  phases : ∀ worker ∈ system.world.workers, worker.phase.Asks system.world.events
  sent : ∀ request ∈ system.requests, ∀ operation ∈ request, operation.Asks system.world.events
  applied : ∀ operation ∈ system.applied, operation.Asks system.world.events
  answers : ∀ answer ∈ system.world.history.answers, answer.1.Asks system.world.events
  written : ∀ answer ∈ system.world.history.answers, ∀ item, answer.2 = some item → item.written →
    answer.1 ∈ system.applied
  index : ∀ eventPk, system.index eventPk =
    if eventPk ∈ system.applied.map BulkOperation.documentId then mirror system.world.events eventPk else none

section Steps

variable {system after : SearchSystem}

theorem BulkOperation.Asks.documentId {operation : BulkOperation} {events : List EventRow} (h : operation.Asks events) :
    operation.documentId ∈ events.map EventRow.id := by
  obtain ⟨event, hevent, rfl⟩ := h
  exact List.mem_map_of_mem hevent

/-- New events leave the index what it is to be. -/
theorem Indexing.index_append (h : Indexing system) {more : List EventRow} (eventPk : Uuid) :
    system.index eventPk = if eventPk ∈ system.applied.map BulkOperation.documentId then
      mirror (system.world.events ++ more) eventPk else none := by
  rw [h.index]
  split
  · next hmem =>
    obtain ⟨operation, happlied, rfl⟩ := List.mem_map.mp hmem
    exact (mirror_append (h.applied operation happlied).documentId).symm
  · rfl

theorem Indexing.apply (h : Indexing system) {operation : BulkOperation} (hasks : operation.Asks system.world.events) :
    Indexing { system with
      index := operation.apply system.index
      applied := system.applied ++ [operation] } := by
  refine ⟨h.events, h.rows, h.own, h.phases, h.sent, fun other hother => ?_, h.answers,
    fun answer hanswer item hitem hwritten => List.mem_append_left _ (h.written answer hanswer item hitem hwritten),
    fun eventPk => ?_⟩
  · obtain hold | hnew := List.mem_append.mp hother
    · exact h.applied other hold
    · obtain rfl := List.mem_singleton.mp hnew
      exact hasks
  · obtain ⟨event, hevent, rfl⟩ := hasks
    have hids : (system.world.events.map EventRow.id).Nodup := h.events.keys
    rw [List.map_append, List.map_singleton, BulkOperation.apply]
    dsimp only
    by_cases hpk : eventPk = event.id
    · subst hpk
      have happlied : event.id ∈ system.applied.map BulkOperation.documentId ++
          [(BulkOperation.index event).documentId] := List.mem_append_right _ (List.mem_singleton_self _)
      rw [Function.update_self, if_pos happlied]
      exact (mirror_of_mem hids hevent).symm
    · rw [Function.update_of_ne hpk, h.index]
      simp only [List.mem_append, List.mem_singleton, BulkOperation.documentId, hpk, or_false]

variable [Sha256] [Base64]

theorem Indexing.ingest (h : Indexing system) {action : IngestAction} {database : Database}
    (hstep : system.world.database.Stepped action database) :
    Indexing { system with world := { system.world with database } } := by
  have hevents : RowsApart Tables.events EventRow.id database :=
    h.events.step rfl (fun _ _ => rfl) (fun hexecution => hexecution.eventsAppended fun _ hrow =>
      (insertEvent_new hrow).1) hstep
  cases hstep with
  | begin request userId maxBatchSize draws begunAt validatedAttachments hvalid huser =>
    refine ⟨hevents, h.rows, fun transaction hmem => ?_, h.phases, h.sent, h.applied, h.answers, h.written, h.index⟩
    obtain hold | hnew := List.mem_append.mp hmem
    · exact h.own transaction hold
    · obtain rfl := List.mem_singleton.mp hnew
      refine ⟨fun row hrow => absurd hrow List.not_mem_nil, fun delivery hmem => ?_⟩
      obtain hevents | hcaptures := List.mem_append.mp hmem
      · obtain ⟨_, -, hsame⟩ := List.mem_map.mp hevents
        cases hsame
      · obtain ⟨_, -, hsame⟩ := List.mem_map.mp hcaptures
        cases hsame
  | statement index transaction after statement rest hget htodo hexecuted =>
    refine ⟨hevents, h.rows, fun other hmem => ?_, h.phases, h.sent, h.applied, h.answers, h.written, h.index⟩
    obtain hold | rfl := List.mem_or_eq_of_mem_set hmem
    · exact h.own other hold
    · have hasks := h.own transaction (List.mem_of_getElem? hget)
      have hexecution := execution hexecuted
      cases transaction with
      | mk userId begunAt own todo deviceTimes sessionTimes running =>
        obtain rfl : todo = statement :: rest := htodo
        exact hexecution.asks hasks
  | commit index transaction hget hrunning htodo =>
    have hasks := h.own transaction (List.mem_of_getElem? hget)
    have hold : ∀ event ∈ system.world.events, event ∈ system.world.events ++ transaction.own.events :=
      fun event hevent => List.mem_append_left _ hevent
    have hnew : ∀ event ∈ transaction.own.events, event ∈ system.world.events ++ transaction.own.events :=
      fun event hevent => List.mem_append_right _ hevent
    refine ⟨hevents, fun row hrow => ?_, fun other hmem => ?_, fun worker hworker => ?_,
      fun request hrequest operation hoperation => ?_, fun operation hoperation => ?_, fun answer hanswer => ?_,
      h.written, fun eventPk => h.index_append eventPk⟩
    · obtain hcommitted | hown := List.mem_append.mp hrow
      · exact (h.rows row hcommitted).mono hold
      · exact (hasks.1 row hown).mono hnew
    · obtain hother | rfl := List.mem_or_eq_of_mem_set hmem
      · exact h.own other hother
      · exact ⟨fun row hrow => absurd hrow List.not_mem_nil, fun _ hmem => absurd hmem List.not_mem_nil⟩
    · exact (h.phases worker hworker).mono hold
    · exact (h.sent request hrequest operation hoperation).mono hold
    · exact (h.applied operation hoperation).mono hold
    · exact (h.answers answer hanswer).mono hold
  | abort index transaction hget hrunning =>
    refine ⟨hevents, h.rows, fun other hmem => ?_, h.phases, h.sent, h.applied, h.answers, h.written, h.index⟩
    obtain hold | rfl := List.mem_or_eq_of_mem_set hmem
    · exact h.own other hold
    · exact ⟨fun row hrow => absurd hrow List.not_mem_nil, fun _ hmem => absurd hmem List.not_mem_nil⟩

omit [Sha256] [Base64] in
theorem World.Worked.answered {before moved : World} {worker worker' : Worker} {action : WorkerAction}
    (h : before.Worked worker action worker' moved) {answer : BulkOperation × Option BulkItem}
    (hanswer : answer ∈ moved.history.answers) : answer ∈ before.history.answers ∨
      ∃ reply, action = .bulk reply ∧ answer ∈ reply.answers (worker.prepared.map PreparedOutboxTask.operation) := by
  cases h with
  | bulk reply tasks indexReady hphase =>
    obtain hold | hnew := List.mem_append.mp hanswer
    · exact Or.inl hold
    · refine Or.inr ⟨reply, rfl, ?_⟩
      unfold Worker.prepared
      rw [hphase]
      exact hnew
  | _ => exact Or.inl hanswer

omit [Sha256] [Base64] in
theorem Worker.prepared_asks {worker : Worker} {events : List EventRow} (h : worker.phase.Asks events) :
    ∀ operation ∈ worker.prepared.map PreparedOutboxTask.operation, operation.Asks events := by
  intro operation hoperation
  obtain ⟨task, htask, rfl⟩ := List.mem_map.mp hoperation
  unfold Worker.prepared at htask
  split at htask
  · next tasks hphase =>
    rw [hphase] at h
    exact h task htask
  · exact absurd htask List.not_mem_nil

theorem Indexing.work (h : Indexing system) {index : ℕ} {action : WorkerAction} {world : World}
    (hallowed : Answered system (.service (.work index action)))
    (hstep : system.world.step (.work index action) = some world) : Indexing { system with world } := by
  obtain ⟨worker, worker', moved, hget, hwork, rfl⟩ := World.step_worked hstep
  have hworked := World.worked hwork
  have hphase := h.phases worker (List.mem_of_getElem? hget)
  have hrows := World.work_rows hwork h.rows hphase
  obtain ⟨hevents, htransactions⟩ := hworked.database
  have hmoved : ∀ row ∈ moved.outbox, row.Asks moved.events := hevents.symm ▸ hrows
  have hkept : moved.database.committed.events = system.world.database.committed.events := hevents
  refine ⟨?_, hmoved, ?_, fun other hother => ?_, ?_, ?_, fun answer hanswer => ?_,
    fun answer hanswer item hitem hwritten => ?_, ?_⟩
  · have happart := h.events
    unfold RowsApart at happart ⊢
    dsimp only
    rw [htransactions, hkept]
    exact happart
  · dsimp only
    rw [htransactions]
    exact h.own
  · show other.phase.Asks moved.events
    rw [hevents]
    obtain hold | rfl := List.mem_or_eq_of_mem_set hother
    · exact h.phases other hold
    · exact hworked.asks h.rows hphase
  · intro request hrequest operation hoperation
    exact (h.sent request hrequest operation hoperation).mono fun event hevent => hevents.symm ▸ hevent
  · intro operation hoperation
    exact (h.applied operation hoperation).mono fun event hevent => hevents.symm ▸ hevent
  · show answer.1.Asks moved.events
    rw [hevents]
    obtain hold | ⟨reply, -, hnew⟩ := hworked.answered hanswer
    · exact h.answers answer hold
    · exact Worker.prepared_asks hphase _ (mem_answers hnew)
  · obtain hold | ⟨reply, rfl, hnew⟩ := hworked.answered hanswer
    · exact h.written answer hold item hitem hwritten
    · exact hallowed worker hget answer hnew item hitem hwritten
  · intro eventPk
    show system.index eventPk = if _ then mirror moved.events eventPk else none
    rw [hevents]
    exact h.index eventPk

theorem Indexing.step {action : SearchAction} (h : Indexing system) (hallowed : Answered system action)
    (hstep : system.step action = some after) : Indexing after := by
  cases action with
  | service action =>
    obtain ⟨world, hworld, rfl⟩ := Option.map_eq_some_iff.mp hstep
    cases action with
    | ingest action =>
      obtain ⟨database, hdatabase, rfl⟩ := Option.map_eq_some_iff.mp hworld
      exact h.ingest (Database.stepped hdatabase)
    | work index action => exact h.work hallowed hworld
    | spawn workerId batchSize =>
      cases World.stepped hworld with
      | spawn workerId batchSize hnew =>
        refine ⟨h.events, h.rows, h.own, fun worker hworker => ?_, h.sent, h.applied, h.answers, h.written, h.index⟩
        obtain hold | hnew := List.mem_append.mp hworker
        · exact h.phases worker hold
        · obtain rfl := List.mem_singleton.mp hnew
          trivial
    | tick now =>
      cases World.stepped hworld with
      | tick now hle =>
        exact ⟨h.events, h.rows, h.own, h.phases, h.sent, h.applied, h.answers, h.written, h.index⟩
  | send index =>
    obtain ⟨worker, hget, hsend⟩ := Option.bind_eq_some_iff.mp hstep
    split at hsend
    · next tasks hphase =>
      cases hsend
      refine ⟨h.events, h.rows, h.own, h.phases, fun request hrequest => ?_, h.applied, h.answers, h.written, h.index⟩
      obtain hold | hnew := List.mem_append.mp hrequest
      · exact h.sent request hold
      · obtain rfl := List.mem_singleton.mp hnew
        have hasks := h.phases worker (List.mem_of_getElem? hget)
        rw [hphase] at hasks
        intro operation hoperation
        obtain ⟨task, htask, rfl⟩ := List.mem_map.mp hoperation
        exact hasks task htask
    · cases hsend
  | apply request place =>
    obtain ⟨operations, hrequest, happly⟩ := Option.bind_eq_some_iff.mp hstep
    obtain ⟨operation, hoperation, happlied⟩ := Option.bind_eq_some_iff.mp happly
    cases happlied
    exact h.apply (h.sent operations (List.mem_of_getElem? hrequest) operation (List.mem_of_getElem? hoperation))

end Steps

section Runs

variable [Sha256] [Base64] {start system : SearchSystem}

/-- Nothing is queued or indexed, and no ingest or indexer runs. -/
structure Empty (system : SearchSystem) : Prop where
  world : Initial system.world
  eventPks : (system.world.events.map EventRow.id).Nodup
  index : ∀ eventPk, system.index eventPk = none
  requests : system.requests = []
  applied : system.applied = []

omit [Sha256] [Base64] in
theorem Empty.indexing (h : Empty system) : Indexing system := by
  have hnone : ∀ i, drafts (fun transaction => transaction.own.events) system.world.database.transactions i = [] := by
    intro i
    rw [h.world.transactions]
    rfl
  refine ⟨⟨h.eventPks, by simp [hnone], by simp [hnone], by simp [hnone]⟩, ?_, ?_, ?_, ?_, ?_, ?_, ?_, ?_⟩
  · simp [h.world.outbox]
  · simp [h.world.transactions]
  · simp [h.world.workers]
  · simp [h.requests]
  · simp [h.applied]
  · simp [h.world.history]
  · simp [h.world.history]
  · intro eventPk
    simp [h.index, h.applied]

/-- What Elasticsearch does is nothing to the service. -/
theorem SearchSystem.reaches_world (h : Reaches SearchSystem.step Answered start system) :
    Reaches World.step anyStep start.world system.world := by
  induction h with
  | start => exact .start
  | @step before after _ action hallowed hstep ih =>
    cases action with
    | service action =>
      obtain ⟨world, hworld, rfl⟩ := Option.map_eq_some_iff.mp hstep
      exact ih.step action trivial hworld
    | send index =>
      obtain ⟨worker, -, hsend⟩ := Option.bind_eq_some_iff.mp hstep
      split at hsend
      · cases hsend
        exact ih
      · cases hsend
    | apply request place =>
      obtain ⟨operations, -, happly⟩ := Option.bind_eq_some_iff.mp hstep
      obtain ⟨operation, -, happlied⟩ := Option.bind_eq_some_iff.mp happly
      cases happlied
      exact ih

omit [Sha256] [Base64] in
theorem Indexing.confirmed (h : Indexing system) {eventPk : Uuid}
    (hconfirmed : Confirmed system.world.history.answers eventPk) :
    ∃ event ∈ system.world.events, event.id = eventPk ∧ system.index event.id = some (.fromEvent event) := by
  obtain ⟨answer, hanswer, rfl, item, hitem, hsucceeded⟩ := hconfirmed
  have hasks := h.answers answer hanswer
  obtain ⟨event, hevent, hoperation⟩ := hasks
  have hwritten : item.written := by
    rw [hoperation] at hsucceeded
    simpa [BulkItem.succeeded, BulkOperation.acceptsNotFound, BulkItem.written] using hsucceeded
  have happlied := h.written answer hanswer item hitem hwritten
  have hid : answer.1.documentId = event.id := by rw [hoperation, BulkOperation.documentId]
  refine ⟨event, hevent, hid.symm, ?_⟩
  have hmem : event.id ∈ system.applied.map BulkOperation.documentId := hid ▸ List.mem_map_of_mem happlied
  rw [h.index, if_pos hmem]
  exact mirror_of_mem h.events.keys hevent

/-- In every run of ingests, indexers and Elasticsearch, the index mirrors what is committed. -/
theorem Empty.mirrored_along (hstart : Empty start) (h : Reaches SearchSystem.step Answered start system) :
    Mirrored system := by
  have hindexing : Indexing system :=
    h.invariant hstart.indexing fun _ _ _ hbefore hallowed hstep => hbefore.step hallowed hstep
  have hprojected := hstart.world.projected_along (SearchSystem.reaches_world h)
  have hprocessed : ∀ row ∈ system.world.outbox, row.processedAt ≠ none → ∃ event ∈ system.world.events,
      event.id = row.eventPk ∧ system.index event.id = some (.fromEvent event) :=
    fun row hrow hdone => hindexing.confirmed (hprojected.processed row hrow hdone)
  have hheld : ∀ eventPk document, system.index eventPk = some document →
      mirror system.world.events eventPk = some document := by
    intro eventPk document hdocument
    rw [hindexing.index] at hdocument
    split at hdocument
    · exact hdocument
    · cases hdocument
  refine ⟨hindexing.sent, hheld, hprocessed, fun hbackfilled hall => ?_⟩
  funext eventPk
  by_cases hmem : eventPk ∈ system.world.events.map EventRow.id
  · obtain ⟨event, hevent, rfl⟩ := List.mem_map.mp hmem
    have hqueued : upsertKey event.id ∈ system.world.outbox.map OutboxRow.key :=
      List.count_pos_iff.mp (by rw [hprojected.backfilled hbackfilled event hevent]; exact Nat.one_pos)
    obtain ⟨row, hrow, hkey⟩ := List.mem_map.mp hqueued
    obtain ⟨found, hfound, hid, hindex⟩ := hprocessed row hrow (hall row hrow)
    have hsame : found.id = event.id := hid.trans (Prod.mk.inj hkey).1
    obtain rfl := List.inj_on_of_nodup_map hindexing.events.keys hfound hevent hsame
    rw [hindex]
    exact (mirror_of_mem hindexing.events.keys hfound).symm
  · have hnone : mirror system.world.events eventPk = none := by
      rw [mirror, Option.map_eq_none_iff, Rows.find, List.find?_eq_none]
      exact fun event hevent hid => hmem (List.mem_map.mpr ⟨event, hevent, of_decide_eq_true hid⟩)
    rw [hnone]
    cases hindex : system.index eventPk with
    | none => rfl
    | some document =>
      rw [hheld eventPk document hindex] at hnone
      cases hnone

end Runs

section Backfilled

open Fixtures

local instance mirroredDigest : Sha256 := cargoDigest

local instance mirroredContent : Base64 := noContent

/-- Elasticsearch has answered no request yet. -/
def unanswered (_ : SearchSystem) : SearchAction → Bool
  | .service (.work _ (.bulk _)) => false
  | _ => true

theorem answered_of_unanswered {system : SearchSystem} {action : SearchAction}
    (h : unanswered system action = true) : Answered system action := by
  cases action with
  | service action =>
    cases action with
    | work index action =>
      cases action with
      | bulk reply => cases h
      | _ => trivial
    | _ => trivial
  | _ => trivial

def olderSystem : SearchSystem where
  world := olderWorld

theorem olderSystem_empty : Empty olderSystem :=
  ⟨olderWorld_initial, by decide, fun _ => rfl, rfl, rfl⟩

/-- One response is ingested, into a session of its own or into one that there is. -/
def responding (eventId sessionId : String) (first index : ℕ) : List Action :=
  let request : IngestEventsRequest :=
    { events := [{ event eventId 1 .response [] with sessionId, conversation := none }]
      diagnosticCaptures := [] }
  let draws : Postgres.Draws :=
    { event := (Fixtures.draws first).event
      outboxId place := first + place
      capture := (Fixtures.draws first).capture }
  .ingest (.begin request 7 100 draws 0) :: List.replicate 7 (.ingest (.statement index)) ++ [.ingest (.commit index)]

/-- A second event is ingested, the older one is queued, and both are sent. Their documents are written out of order. -/
def writing : List SearchAction :=
  let actions : List Action :=
    responding "e2" "t" 20 0 ++ .spawn "a" 10 :: readied 0 ++ [.work 0 (.claim 0 []), .work 0 .prepare]
  actions.map .service ++ [.send 0, .apply 0 1, .apply 0 0]

def writtenSystem : SearchSystem :=
  (run SearchSystem.step (fun system action => unanswered system action = true) writing olderSystem).getD olderSystem

def answering : SearchAction := .service (.work 0 (.bulk (.items [some ⟨201, none⟩, some ⟨200, none⟩])))

def answeredSystem : SearchSystem := (writtenSystem.step answering).getD writtenSystem

def recording : List SearchAction := [.service (.work 0 (.record 0)), .service (.work 0 (.record 0))]

def recordedSystem : SearchSystem :=
  (run SearchSystem.step (fun system action => unanswered system action = true) recording answeredSystem).getD
    answeredSystem

theorem writtenSystem_reached : Reaches SearchSystem.step Answered olderSystem writtenSystem := by
  have hrun : run SearchSystem.step (fun system action => unanswered system action = true) writing olderSystem =
      some writtenSystem := rfl
  exact (reaches_run hrun).mono fun _ _ => answered_of_unanswered

theorem answeredSystem_reached : Reaches SearchSystem.step Answered olderSystem answeredSystem := by
  refine writtenSystem_reached.step answering ?_ rfl
  intro worker hget answer hanswer item hitem hwritten
  have happlied : writtenSystem.applied = (((writtenSystem.world.workers[0]?.map Worker.prepared).getD []).map
      PreparedOutboxTask.operation).reverse := rfl
  rw [happlied, hget, List.mem_reverse]
  exact mem_answers hanswer

theorem recordedSystem_reached : Reaches SearchSystem.step Answered olderSystem recordedSystem := by
  have hrun : run SearchSystem.step (fun system action => unanswered system action = true) recording answeredSystem =
      some recordedSystem := rfl
  exact answeredSystem_reached.trans ((reaches_run hrun).mono fun _ _ => answered_of_unanswered)

theorem Empty.mirrored_backfill : recordedSystem.applied.length = 2 ∧
    recordedSystem.world.history.backfilled = true ∧
    recordedSystem.world.outbox.map OutboxRow.processedAt = [some 0, some 0] ∧ Mirrored recordedSystem :=
  ⟨rfl, rfl, rfl, olderSystem_empty.mirrored_along recordedSystem_reached⟩

end Backfilled

end AbyssBackend.Postgres
