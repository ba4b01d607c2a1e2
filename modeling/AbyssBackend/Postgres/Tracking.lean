import AbyssBackend.Postgres.Queueing

namespace AbyssBackend.Postgres

open Drafts Storage Streams Text

def Transaction.outbox (transaction : Transaction) : List OutboxRow := transaction.own.outbox

def World.pending (world : World) : ℕ → List OutboxRow := drafts Transaction.outbox world.database.transactions

/-- What tells outbox rows apart and is told by their ids and keys. -/
structure Keyed {κ : Type} (key : OutboxRow → κ) : Prop where
  kept : ∀ row other, row.id = other.id → row.key = other.key → key row = key other
  apart : ∀ row other, row.id ≠ other.id → row.key ≠ other.key → key row ≠ key other

theorem keyed_id : Keyed OutboxRow.id := ⟨fun _ _ h _ => h, fun _ _ h _ => h⟩

theorem keyed_key : Keyed OutboxRow.key := ⟨fun _ _ _ h => h, fun _ _ _ h => h⟩

section Rows

variable {outbox : List OutboxRow} {tasks : List ClaimedOutboxTask} {workerId : String} {now : ℤ}
  {task : OutboxTaskResult} {row : OutboxRow}

theorem lease_keys : (outbox.map fun row => (row.id, row.key)) =
    (lease outbox tasks workerId now).map fun row => (row.id, row.key) := by
  unfold lease
  rw [List.map_map]
  apply List.map_congr_left
  intro row _
  dsimp only [Function.comp_apply]
  split <;> rfl

theorem recorded_id : (row.recorded task now).id = row.id := by
  unfold OutboxRow.recorded
  split
  · rfl
  · split <;> rfl

theorem recorded_key : (row.recorded task now).key = row.key := by
  unfold OutboxRow.recorded
  split
  · rfl
  · split <;> rfl

theorem recordResult_keys : (outbox.map fun row => (row.id, row.key)) =
    (recordResult outbox task now).map fun row => (row.id, row.key) := by
  symm
  apply Rows.map_update
  intro row _ _
  rw [recorded_id, recorded_key]

theorem Keyed.map_eq {κ : Type} {key : OutboxRow → κ} (hkeyed : Keyed key) {rows rows' : List OutboxRow}
    (h : (rows.map fun row => (row.id, row.key)) = rows'.map fun row => (row.id, row.key)) :
    rows'.map key = rows.map key := by
  have hpairs : List.Forall₂ (fun row other : OutboxRow => (row.id, row.key) = (other.id, other.key)) rows rows' :=
    List.forall₂_map_left_iff.mp (List.forall₂_map_right_iff.mp (List.forall₂_eq_eq_eq.symm ▸ h))
  symm
  apply List.forall₂_eq_eq_eq ▸ List.forall₂_map_left_iff.mpr (List.forall₂_map_right_iff.mpr _)
  exact hpairs.imp fun row other hsame => hkeyed.kept row other (Prod.mk.inj hsame).1 (Prod.mk.inj hsame).2

end Rows

section Step

variable {before after : World} {action : Action} {κ : Type} {key : OutboxRow → κ}

theorem mem_pending {world : World} {i : ℕ} {row : OutboxRow} (h : row ∈ world.pending i) :
    row ∈ world.pendingOutbox := by
  unfold World.pending drafts at h
  cases hget : world.database.transactions[i]? with
  | none =>
    rw [hget] at h
    exact absurd h List.not_mem_nil
  | some transaction =>
    rw [hget] at h
    exact List.mem_flatMap.mpr ⟨transaction, List.mem_of_getElem? hget, h⟩

theorem insertable_apart {rows : List OutboxRow} (hkeyed : Keyed key) (h : before.insertable rows = true) :
    (rows.map key).Nodup ∧ ∀ row ∈ rows, key row ∉ before.outbox.map key ∧
      ∀ i, key row ∉ (before.pending i).map key := by
  simp only [World.insertable, Bool.and_eq_true, decide_eq_true_eq, List.all_eq_true, bne_iff_ne] at h
  obtain ⟨⟨hids, hkeys⟩, hfree⟩ := h
  have hnone : ∀ row ∈ rows, ∀ other ∈ before.outbox ++ before.pendingOutbox, key other ≠ key row := by
    intro row hrow other hother
    obtain ⟨hid, hkey⟩ := hfree row hrow other hother
    exact hkeyed.apart other row hid hkey
  refine ⟨?_, fun row hrow => ⟨fun hmem => ?_, fun i hmem => ?_⟩⟩
  · rw [List.Nodup, List.pairwise_map] at hids hkeys ⊢
    exact (hids.and hkeys).imp fun hboth => hkeyed.apart _ _ hboth.1 hboth.2
  · obtain ⟨other, hother, hsame⟩ := List.mem_map.mp hmem
    exact hnone row hrow other (List.mem_append_left _ hother) hsame
  · obtain ⟨other, hother, hsame⟩ := List.mem_map.mp hmem
    exact hnone row hrow other (List.mem_append_right _ (mem_pending hother)) hsame

theorem Apart.ingest [Sha256] [Base64] {database after : Database} {action : IngestAction} (hkeyed : Keyed key)
    (h : Apart key database.committed.outbox (drafts Transaction.outbox database.transactions))
    (hstep : database.Stepped action after) :
    Apart key after.committed.outbox (drafts Transaction.outbox after.transactions) := by
  cases hstep with
  | begin request userId maxBatchSize draws begunAt validatedAttachments hvalid huser =>
    rw [drafts_concat rfl]
    exact h
  | statement index transaction after statement rest hget htodo hexecute =>
    cases enqueued hexecute with
    | task delivery after hstatement hunused houtbox =>
      have hdraft : drafts Transaction.outbox database.transactions index = transaction.outbox := drafts_get hget
      have hfree : ∀ tables ∈ transaction.own :: database.committed :: database.others index,
          ∀ row ∈ tables.outbox, key row ≠ key (newSearchOutboxTask transaction delivery) := by
        intro tables htables row hrow
        obtain ⟨hid, hkey⟩ := hunused tables htables row hrow
        exact hkeyed.apart _ _ hid hkey
      have hafter : after.outbox = drafts Transaction.outbox database.transactions index ++
          [newSearchOutboxTask transaction delivery] := by
        rw [hdraft]
        exact houtbox
      rw [drafts_set hget, hafter]
      apply h.write
      · intro hmem
        obtain ⟨row, hrow, hsame⟩ := List.mem_map.mp hmem
        exact hfree _ (List.mem_cons_of_mem _ List.mem_cons_self) row hrow hsame
      · intro i hmem
        obtain ⟨row, hrow, hsame⟩ := List.mem_map.mp hmem
        exact drafts_all (f := id) (fun _ => rfl) rfl hget hfree i row hrow hsame
    | event row delivery after hid houtbox =>
      rw [drafts_same hget houtbox]
      exact h
    | other after houtbox =>
      rw [drafts_same hget houtbox]
      exact h
  | commit index transaction hget hrunning htodo =>
    have hdraft : drafts Transaction.outbox database.transactions index = transaction.own.outbox := drafts_get hget
    have hcommit := h.commit index
    rw [hdraft] at hcommit
    rw [drafts_set hget]
    exact hcommit
  | abort index transaction hget hrunning =>
    rw [drafts_set hget]
    exact h.drop index

theorem Apart.work {worker worker' : Worker} {action : WorkerAction} (hkeyed : Keyed key)
    (h : Apart key before.outbox before.pending) (hworked : before.Worked worker action worker' after) :
    Apart key after.outbox after.pending := by
  cases hworked with
  | insertBackfill ids availableAt selected phase hphase hinsertable =>
    obtain ⟨hnodup, hfree⟩ := insertable_apart hkeyed hinsertable
    exact h.append hnodup (fun row hrow => (hfree row hrow).1) fun row hrow => (hfree row hrow).2
  | claim startedAt skipped tasks phase hstarted htasks hphase hready =>
    exact h.congr (hkeyed.map_eq lease_keys)
  | record now task rest phase hphase hafter => exact h.congr (hkeyed.map_eq recordResult_keys)
  | _ => exact h

/-- Outbox rows stay apart, those of transactions under way included. -/
theorem Apart.step [Sha256] [Base64] (hkeyed : Keyed key) (h : Apart key before.outbox before.pending)
    (hstep : before.Stepped action after) : Apart key after.outbox after.pending := by
  cases hstep with
  | ingest action database hdatabase => exact Apart.ingest hkeyed h hdatabase
  | spawn workerId batchSize hnew => exact h
  | work index action worker worker' moved hget hworked =>
    have hmoved : Apart key moved.outbox moved.pending := Apart.work hkeyed h hworked
    exact hmoved
  | tick now hle => exact h

end Step

/-- Elasticsearch has reported success for an operation on the event. -/
def Confirmed (answers : List (BulkOperation × Option BulkItem)) (eventPk : Uuid) : Prop :=
  ∃ answer ∈ answers, answer.1.documentId = eventPk ∧
    ∃ item, answer.2 = some item ∧ item.succeeded answer.1.acceptsNotFound = true

theorem Confirmed.mono {answers more : List (BulkOperation × Option BulkItem)} {eventPk : Uuid}
    (h : Confirmed answers eventPk) : Confirmed (answers ++ more) eventPk := by
  obtain ⟨answer, hmem, hconfirms⟩ := h
  exact ⟨answer, List.mem_append_left _ hmem, hconfirms⟩

def Counted (attemptCount : ℤ) : Prop := 0 ≤ attemptCount ∧ attemptCount < maxOutboxAttempts

/-- What a worker holds belongs to rows of the outbox: tasks ask for their rows' events, and where a result is a
success Elasticsearch has confirmed its row's event. -/
def Phase.Known (outbox : List OutboxRow) (answers : List (BulkOperation × Option BulkItem)) : Phase → Prop
  | .claimed tasks => ∀ task ∈ tasks, Counted task.attemptCount ∧
    ∃ row ∈ outbox, row.id = task.id ∧ row.eventPk = task.eventPk
  | .prepared tasks => ∀ task ∈ tasks, Counted task.attemptCount ∧
    ∃ row ∈ outbox, row.id = task.id ∧ row.eventPk = task.operation.documentId
  | .recording results => ∀ task ∈ results, Counted task.attemptCount ∧
    ∃ row ∈ outbox, row.id = task.id ∧ (task.result = .ok () → Confirmed answers row.eventPk)
  | _ => True

/-- Rows stay, with their ids and their events. -/
def Grows (rows rows' : List OutboxRow) : Prop :=
  ∀ row ∈ rows, ∃ row' ∈ rows', row'.id = row.id ∧ row'.eventPk = row.eventPk

theorem Phase.Known.mono {outbox outbox' : List OutboxRow} {answers more : List (BulkOperation × Option BulkItem)}
    {phase : Phase} (h : phase.Known outbox answers) (hgrows : Grows outbox outbox') :
    phase.Known outbox' (answers ++ more) := by
  cases phase with
  | claimed tasks =>
    intro task htask
    obtain ⟨hcounted, row, hrow, hid, hevent⟩ := h task htask
    obtain ⟨row', hrow', hid', hevent'⟩ := hgrows row hrow
    exact ⟨hcounted, row', hrow', hid'.trans hid, hevent'.trans hevent⟩
  | prepared tasks =>
    intro task htask
    obtain ⟨hcounted, row, hrow, hid, hevent⟩ := h task htask
    obtain ⟨row', hrow', hid', hevent'⟩ := hgrows row hrow
    exact ⟨hcounted, row', hrow', hid'.trans hid, hevent'.trans hevent⟩
  | recording results =>
    intro task htask
    obtain ⟨hcounted, row, hrow, hid, hconfirmed⟩ := h task htask
    obtain ⟨row', hrow', hid', hevent'⟩ := hgrows row hrow
    exact ⟨hcounted, row', hrow', hid'.trans hid, fun hok => hevent' ▸ (hconfirmed hok).mono⟩
  | _ => trivial

theorem grows_of_keys {rows rows' : List OutboxRow}
    (h : (rows.map fun row => (row.id, row.key)) = rows'.map fun row => (row.id, row.key)) : Grows rows rows' := by
  intro row hrow
  have hmem : (row.id, row.key) ∈ rows'.map fun row => (row.id, row.key) :=
    h ▸ List.mem_map_of_mem (f := fun row : OutboxRow => (row.id, row.key)) hrow
  obtain ⟨row', hrow', hsame⟩ := List.mem_map.mp hmem
  obtain ⟨hid, hkey⟩ := Prod.mk.inj hsame
  exact ⟨row', hrow', hid, (Prod.mk.inj hkey).1⟩

theorem grows_append {rows more : List OutboxRow} : Grows rows (rows ++ more) :=
  fun row hrow => ⟨row, List.mem_append_left _ hrow, rfl, rfl⟩

theorem grows_refl {rows : List OutboxRow} : Grows rows rows := fun row hrow => ⟨row, hrow, rfl, rfl⟩

section Results

variable {tasks : List PreparedOutboxTask} {reply : BulkReply} {task : OutboxTaskResult}

theorem itemResult_ok {item : Option BulkItem} {documentId : Uuid} {acceptsNotFound : Bool}
    (h : itemResult item documentId acceptsNotFound = .ok ()) :
    ∃ found, item = some found ∧ found.succeeded acceptsNotFound = true := by
  unfold itemResult at h
  split at h
  · cases h
  · next found =>
    split at h
    · exact ⟨found, rfl, ‹_›⟩
    · cases h

theorem applyBulk_ok {operations : List BulkOperation} {results : List (Except String Unit)} {place : ℕ}
    (h : applyBulk operations reply = .ok results) (hok : results[place]? = some (.ok ())) :
    ∃ answer ∈ reply.answers operations, operations[place]? = some answer.1 ∧
      ∃ item, answer.2 = some item ∧ item.succeeded answer.1.acceptsNotFound = true := by
  unfold applyBulk at h
  split at h
  · cases h
    cases hok
  · split at h
    · cases h
    · next items =>
      split at h
      · cases h
      · cases h
        rw [List.getElem?_zipWith] at hok
        split at hok
        · next item operation hitem hoperation =>
          obtain ⟨found, rfl, hfound⟩ := itemResult_ok (Option.some.inj hok)
          refine ⟨(operation, some found), ?_, hoperation, found, rfl, hfound⟩
          apply List.mem_of_getElem? (i := place)
          simp only [BulkReply.answers, List.getElem?_zip_eq_some]
          exact ⟨hoperation, hitem⟩
        · cases hok

/-- A result is of the task in its place, and a success was answered for that task's operation. -/
theorem taskResults_mem (h : task ∈ taskResults tasks reply) : ∃ prepared ∈ tasks, task.id = prepared.id ∧
    task.attemptCount = prepared.attemptCount ∧ (task.result = .ok () →
      ∃ answer ∈ reply.answers (tasks.map PreparedOutboxTask.operation), answer.1 = prepared.operation ∧
        ∃ item, answer.2 = some item ∧ item.succeeded answer.1.acceptsNotFound = true) := by
  obtain ⟨place, hplace⟩ := List.mem_iff_getElem?.mp h
  unfold taskResults at hplace
  rw [List.getElem?_zipWith] at hplace
  split at hplace
  · next prepared result hprepared hresult =>
    cases hplace
    refine ⟨prepared, List.mem_of_getElem? hprepared, rfl, rfl, fun hok => ?_⟩
    dsimp only at hok
    subst hok
    split at hresult
    · next results hresults =>
      obtain ⟨answer, hanswer, hoperation, hconfirms⟩ := applyBulk_ok hresults hresult
      rw [List.getElem?_map, hprepared, Option.map_some] at hoperation
      exact ⟨answer, hanswer, (Option.some.inj hoperation).symm, hconfirms⟩
    · rw [List.getElem?_map, hprepared, Option.map_some] at hresult
      cases hresult
  · cases hplace

end Results

/-- A row that nobody has yet worked on. -/
structure OutboxRow.Fresh (row : OutboxRow) : Prop where
  attemptCount : row.attemptCount = 0
  claimedAt : row.claimedAt = none
  processedAt : row.processedAt = none
  deadLetteredAt : row.deadLetteredAt = none

structure Tracked (world : World) : Prop where
  ids : Apart OutboxRow.id world.outbox world.pending
  keys : Apart OutboxRow.key world.outbox world.pending
  fresh : ∀ i, ∀ row ∈ world.pending i, row.Fresh
  counted : ∀ row ∈ world.outbox, row.deadLetteredAt = none → Counted row.attemptCount
  processed : ∀ row ∈ world.outbox, row.processedAt ≠ none → Confirmed world.history.answers row.eventPk
  phases : ∀ worker ∈ world.workers, worker.phase.Known world.outbox world.history.answers
  recorded : ∀ task ∈ world.history.recorded, task.id ∈ world.outbox.map OutboxRow.id
  leased : ∀ lease ∈ world.history.leases, lease.taskId ∈ world.outbox.map OutboxRow.id

theorem Grows.ids {rows rows' : List OutboxRow} (h : Grows rows rows') {id : ℤ} (hid : id ∈ rows.map OutboxRow.id) :
    id ∈ rows'.map OutboxRow.id := by
  obtain ⟨row, hrow, rfl⟩ := List.mem_map.mp hid
  obtain ⟨row', hrow', hid', -⟩ := h row hrow
  exact hid' ▸ List.mem_map_of_mem hrow'

theorem mem_claimRows {outbox : List OutboxRow} {now : ℤ} {skipped : List ℤ} {batchSize : ℕ} {row : OutboxRow}
    (h : row ∈ claimRows outbox now skipped batchSize) : row ∈ outbox ∧ row.claimable now = true := by
  obtain ⟨hmem, hboth⟩ := List.mem_filter.mp (List.mem_of_mem_take h)
  exact ⟨Sorting.mem_sortBy.mp hmem, (Bool.and_eq_true_iff.mp hboth).1⟩

theorem claimable_iff {row : OutboxRow} {now : ℤ} : row.claimable now = true ↔ row.processedAt = none ∧
    row.deadLetteredAt = none ∧ row.availableAt ≤ now ∧
    ∀ claimedAt, row.claimedAt = some claimedAt → claimedAt < now - outboxLease := by
  simp only [OutboxRow.claimable, Bool.and_eq_true, Option.isNone_iff_eq_none, decide_eq_true_eq, Option.all_eq_true,
    and_assoc]

theorem prepare_documentId {events : List EventRow} {task : ClaimedOutboxTask} :
    (prepare events task).operation.documentId = task.eventPk := by
  unfold prepare
  dsimp only
  split
  · split
    · next event hfind => exact (Rows.find_mem hfind).2
    · rfl
  · rfl

section Step

variable {before after : World} {worker worker' : Worker}

theorem World.Worked.grows {action : WorkerAction} (h : before.Worked worker action worker' after) :
    Grows before.outbox after.outbox := by
  cases h with
  | insertBackfill => exact grows_append
  | claim => exact grows_of_keys lease_keys
  | record => exact grows_of_keys recordResult_keys
  | _ => exact grows_refl

theorem World.Worked.answers {action : WorkerAction} (h : before.Worked worker action worker' after) :
    ∃ more, after.history.answers = before.history.answers ++ more := by
  cases h with
  | bulk reply => exact ⟨_, rfl⟩
  | _ => exact ⟨[], (List.append_nil _).symm⟩

theorem World.Worked.known {action : WorkerAction} (h : before.Worked worker action worker' after)
    (hbefore : Tracked before) (hworker : worker ∈ before.workers) :
    worker'.phase.Known after.outbox after.history.answers := by
  have hknown := hbefore.phases worker hworker
  have hgrows := h.grows
  cases h with
  | start indexAvailable phase hphase =>
    obtain rfl | rfl := hphase <;> trivial
  | insertBackfill ids availableAt selected phase hphase hinsertable =>
    obtain rfl | rfl := hphase <;> trivial
  | claim startedAt skipped tasks phase hstarted htasks hphase hready =>
    subst hphase
    split
    · trivial
    · intro task htask
      subst htasks
      obtain ⟨row, hrow, rfl⟩ := List.mem_map.mp htask
      obtain ⟨hmem, hclaimable⟩ := mem_claimRows hrow
      obtain ⟨row', hrow', hid, hevent⟩ := hgrows row hmem
      exact ⟨hbefore.counted row hmem (claimable_iff.mp hclaimable).2.1, row', hrow', hid, hevent⟩
  | prepare tasks hphase =>
    rw [hphase] at hknown
    intro task htask
    obtain ⟨claimed, hclaimed, rfl⟩ := List.mem_map.mp htask
    obtain ⟨hcounted, row, hrow, hid, hevent⟩ := hknown claimed hclaimed
    exact ⟨hcounted, row, hrow, hid, hevent.trans prepare_documentId.symm⟩
  | bulk reply tasks indexReady hphase =>
    rw [hphase] at hknown
    intro task htask
    obtain ⟨prepared, hprepared, hid, hattempts, hconfirms⟩ := taskResults_mem htask
    obtain ⟨hcounted, row, hrow, hrowId, hevent⟩ := hknown prepared hprepared
    refine ⟨hattempts ▸ hcounted, row, hrow, hrowId.trans hid.symm, fun hok => ?_⟩
    obtain ⟨answer, hanswer, hoperation, hitem⟩ := hconfirms hok
    exact ⟨answer, List.mem_append_right _ hanswer, by rw [hoperation, hevent], hitem⟩
  | record now task rest phase hphase hafter =>
    subst hafter
    rw [hphase] at hknown
    split
    · trivial
    · intro other hother
      have hmono : Phase.Known (recordResult before.outbox task now) (before.history.answers ++ [])
          (.recording (task :: rest)) := hknown.mono (grows_of_keys recordResult_keys)
      rw [List.append_nil] at hmono
      exact hmono other (List.mem_cons_of_mem _ hother)
  | _ => trivial

section Ingest

variable [Sha256] [Base64] {database database' : Database} {action : IngestAction}

theorem Database.Stepped.outbox (h : database.Stepped action database') :
    ∃ i, database'.committed.outbox = database.committed.outbox ∨
      database'.committed.outbox = database.committed.outbox ++ drafts Transaction.outbox database.transactions i := by
  cases h with
  | commit index transaction hget hrunning htodo =>
    have hdraft : drafts Transaction.outbox database.transactions index = transaction.own.outbox := drafts_get hget
    exact ⟨index, Or.inr (hdraft ▸ rfl)⟩
  | begin => exact ⟨0, Or.inl rfl⟩
  | statement => exact ⟨0, Or.inl rfl⟩
  | abort => exact ⟨0, Or.inl rfl⟩

omit [Sha256] [Base64] in
theorem drafts_set_subset {transactions : List Transaction} {index i : ℕ} {transaction after : Transaction}
    (hget : transactions[index]? = some transaction) {row : OutboxRow}
    (hrow : row ∈ drafts Transaction.outbox (transactions.set index after) i) :
    row ∈ drafts Transaction.outbox transactions i ∨ row ∈ after.own.outbox := by
  rw [drafts_set hget] at hrow
  by_cases hi : i = index
  · subst hi
    rw [Function.update_self] at hrow
    exact Or.inr hrow
  · rw [Function.update_of_ne hi] at hrow
    exact Or.inl hrow

theorem Database.Stepped.fresh (h : database.Stepped action database')
    (hfresh : ∀ i, ∀ row ∈ drafts Transaction.outbox database.transactions i, row.Fresh) :
    ∀ i, ∀ row ∈ drafts Transaction.outbox database'.transactions i, row.Fresh := by
  intro i row hrow
  cases h with
  | begin request userId maxBatchSize draws begunAt validatedAttachments hvalid huser =>
    rw [drafts_concat rfl] at hrow
    exact hfresh i row hrow
  | statement index transaction after statement rest hget htodo hexecute =>
    have hown : ∀ own ∈ transaction.own.outbox, own.Fresh := by
      have hdraft : drafts Transaction.outbox database.transactions index = transaction.own.outbox := drafts_get hget
      exact hdraft ▸ hfresh index
    obtain hold | hnew := drafts_set_subset hget hrow
    · exact hfresh i row hold
    · cases enqueued hexecute with
      | task delivery after hstatement hunused houtbox =>
        rw [houtbox] at hnew
        obtain hold | hnew := List.mem_append.mp hnew
        · exact hown row hold
        · obtain rfl := List.mem_singleton.mp hnew
          exact ⟨rfl, rfl, rfl, rfl⟩
      | event other delivery after hid houtbox => exact hown row (houtbox ▸ hnew)
      | other after houtbox => exact hown row (houtbox ▸ hnew)
  | commit index transaction hget hrunning htodo =>
    obtain hold | hnew := drafts_set_subset hget hrow
    · exact hfresh i row hold
    · exact absurd hnew List.not_mem_nil
  | abort index transaction hget hrunning =>
    obtain hold | hnew := drafts_set_subset hget hrow
    · exact hfresh i row hold
    · exact absurd hnew List.not_mem_nil

end Ingest

theorem counted_zero : Counted 0 := ⟨le_rfl, by decide⟩

theorem backfillRows_fresh {outbox : List OutboxRow} {selected : List EventRow} {ids : ℕ → ℤ} {availableAt : ℤ}
    {row : OutboxRow} (h : row ∈ backfillRows outbox selected ids availableAt) : row.Fresh := by
  obtain ⟨_, -, rfl⟩ := List.mem_map.mp h
  exact ⟨rfl, rfl, rfl, rfl⟩

theorem recorded_counted {row : OutboxRow} {task : OutboxTaskResult} {now : ℤ}
    (hrow : row.deadLetteredAt = none → Counted row.attemptCount)
    (htask : Counted task.attemptCount) (hdead : (row.recorded task now).deadLetteredAt = none) :
    Counted (row.recorded task now).attemptCount := by
  unfold OutboxRow.recorded at hdead ⊢
  split at hdead
  · exact hrow hdead
  · split at hdead
    · cases hdead
    · next hattempts =>
      rw [if_neg hattempts]
      refine ⟨?_, Int.not_le.mp hattempts⟩
      have hle : (0 : ℤ) ≤ i32Max := Int.natCast_nonneg _
      have hnonneg := htask.1
      show 0 ≤ min (task.attemptCount + 1) (i32Max : ℤ)
      omega

theorem recorded_processed {row : OutboxRow} {task : OutboxTaskResult} {now : ℤ}
    (h : (row.recorded task now).processedAt ≠ none) : row.processedAt ≠ none ∨ task.result = .ok () := by
  unfold OutboxRow.recorded at h
  split at h
  · next hok => exact Or.inr hok
  · split at h
    · exact Or.inl h
    · exact Or.inl h

theorem mem_recordResult {outbox : List OutboxRow} {task : OutboxTaskResult} {now : ℤ} {row : OutboxRow} :
    row ∈ recordResult outbox task now ↔ (row ∈ outbox ∧ row.id ≠ task.id) ∨
      ∃ old ∈ outbox, old.id = task.id ∧ row = old.recorded task now := by
  unfold recordResult
  rw [Rows.mem_update]
  constructor
  · rintro (hkept | ⟨old, hold, hid, rfl⟩)
    · exact Or.inl hkept
    · exact Or.inr ⟨old, hold, hid, rfl⟩
  · rintro (hkept | ⟨old, hold, hid, rfl⟩)
    · exact Or.inl hkept
    · exact Or.inr ⟨old, hold, hid, rfl⟩

theorem mem_lease {outbox : List OutboxRow} {tasks : List ClaimedOutboxTask} {workerId : String} {now : ℤ}
    {row : OutboxRow} (h : row ∈ lease outbox tasks workerId now) : ∃ old ∈ outbox,
      (row = old ∧ old.id ∉ tasks.map ClaimedOutboxTask.id) ∨
        (row = old.lease workerId now ∧ old.id ∈ tasks.map ClaimedOutboxTask.id) := by
  obtain ⟨old, hold, rfl⟩ := List.mem_map.mp h
  refine ⟨old, hold, ?_⟩
  split
  · next hmem => exact Or.inr ⟨rfl, List.contains_iff_mem.mp hmem⟩
  · next hmem => exact Or.inl ⟨rfl, fun h => hmem (List.contains_iff_mem.mpr h)⟩

theorem Tracked.counted_work (h : Tracked before) (hworker : worker ∈ before.workers) {action : WorkerAction}
    (hworked : before.Worked worker action worker' after) :
    ∀ row ∈ after.outbox, row.deadLetteredAt = none → Counted row.attemptCount := by
  have hknown := h.phases worker hworker
  cases hworked with
  | insertBackfill ids availableAt selected phase hphase hinsertable =>
    intro row hrow hdead
    obtain hold | hnew := List.mem_append.mp hrow
    · exact h.counted row hold hdead
    · exact (backfillRows_fresh hnew).attemptCount ▸ counted_zero
  | claim startedAt skipped tasks phase hstarted htasks hphase hready =>
    intro row hrow hdead
    obtain ⟨old, hold, ⟨rfl, -⟩ | ⟨rfl, -⟩⟩ := mem_lease hrow
    · exact h.counted row hold hdead
    · exact h.counted old hold hdead
  | record now task rest phase hphase hafter =>
    rw [hphase] at hknown
    intro row hrow hdead
    obtain ⟨hold, -⟩ | ⟨old, hold, hid, rfl⟩ := mem_recordResult.mp hrow
    · exact h.counted row hold hdead
    · exact recorded_counted (h.counted old hold) (hknown task List.mem_cons_self).1 hdead
  | _ => exact h.counted

theorem Tracked.processed_work (h : Tracked before) (hworker : worker ∈ before.workers) {action : WorkerAction}
    (hworked : before.Worked worker action worker' after) :
    ∀ row ∈ after.outbox, row.processedAt ≠ none → Confirmed after.history.answers row.eventPk := by
  have hknown := h.phases worker hworker
  cases hworked with
  | insertBackfill ids availableAt selected phase hphase hinsertable =>
    intro row hrow hprocessed
    obtain hold | hnew := List.mem_append.mp hrow
    · exact h.processed row hold hprocessed
    · exact absurd (backfillRows_fresh hnew).processedAt hprocessed
  | claim startedAt skipped tasks phase hstarted htasks hphase hready =>
    intro row hrow hprocessed
    obtain ⟨old, hold, ⟨rfl, -⟩ | ⟨rfl, -⟩⟩ := mem_lease hrow
    · exact h.processed row hold hprocessed
    · exact h.processed old hold hprocessed
  | bulk reply tasks indexReady hphase =>
    intro row hrow hprocessed
    exact (h.processed row hrow hprocessed).mono
  | record now task rest phase hphase hafter =>
    rw [hphase] at hknown
    intro row hrow hprocessed
    obtain ⟨hold, -⟩ | ⟨old, hold, hid, rfl⟩ := mem_recordResult.mp hrow
    · exact h.processed row hold hprocessed
    · have hevent : (old.recorded task now).eventPk = old.eventPk := (Prod.mk.inj recorded_key).1
      rw [hevent]
      obtain hbefore | hok := recorded_processed hprocessed
      · exact h.processed old hold hbefore
      · obtain ⟨-, asked, hasked, haskedId, hconfirmed⟩ := hknown task List.mem_cons_self
        obtain rfl := List.inj_on_of_nodup_map h.ids.keys hasked hold (haskedId.trans hid.symm)
        exact hconfirmed hok
  | _ => exact h.processed

theorem Tracked.ids_work (h : Tracked before) (hworker : worker ∈ before.workers) {action : WorkerAction}
    (hworked : before.Worked worker action worker' after) :
    (∀ task ∈ after.history.recorded, task.id ∈ after.outbox.map OutboxRow.id) ∧
      ∀ lease ∈ after.history.leases, lease.taskId ∈ after.outbox.map OutboxRow.id := by
  have hknown := h.phases worker hworker
  have hgrows := hworked.grows
  cases hworked with
  | claim startedAt skipped tasks phase hstarted htasks hphase hready =>
    refine ⟨fun task htask => hgrows.ids (h.recorded task htask), fun lease hlease => ?_⟩
    obtain hold | hnew := List.mem_append.mp hlease
    · exact hgrows.ids (h.leased lease hold)
    · obtain ⟨task, htask, rfl⟩ := List.mem_map.mp hnew
      subst htasks
      obtain ⟨row, hrow, rfl⟩ := List.mem_map.mp htask
      exact hgrows.ids (List.mem_map_of_mem (mem_claimRows hrow).1)
  | record now task rest phase hphase hafter =>
    rw [hphase] at hknown
    refine ⟨fun other hother => ?_, fun lease hlease => hgrows.ids (h.leased lease (List.mem_filter.mp hlease).1)⟩
    obtain hold | hnew := List.mem_append.mp hother
    · exact hgrows.ids (h.recorded other hold)
    · obtain rfl := List.mem_singleton.mp hnew
      obtain ⟨-, row, hrow, hid, -⟩ := hknown other List.mem_cons_self
      exact hgrows.ids (hid ▸ List.mem_map_of_mem hrow)
  | insertBackfill =>
    exact ⟨fun task htask => hgrows.ids (h.recorded task htask), fun lease hlease => hgrows.ids (h.leased lease hlease)⟩
  | _ => exact ⟨h.recorded, h.leased⟩

theorem World.Worked.pending {action : WorkerAction} (h : before.Worked worker action worker' after) :
    after.pending = before.pending := by
  cases h <;> rfl

theorem Tracked.step [Sha256] [Base64] {action : Action} (h : Tracked before) (hstep : before.Stepped action after) :
    Tracked after := by
  have hids := Apart.step keyed_id h.ids hstep
  have hkeys := Apart.step keyed_key h.keys hstep
  cases hstep with
  | ingest action database hdatabase =>
    have hfresh := hdatabase.fresh h.fresh
    obtain ⟨i, hsame | hmore⟩ := hdatabase.outbox
    · have hgrows : Grows before.outbox database.committed.outbox := hsame ▸ grows_refl
      refine ⟨hids, hkeys, hfresh, ?_, ?_, ?_, ?_, ?_⟩
      all_goals unfold World.outbox
      all_goals rw [hsame]
      · exact h.counted
      · exact h.processed
      · exact h.phases
      · exact h.recorded
      · exact h.leased
    · have hgrows : Grows before.outbox database.committed.outbox := hmore ▸ grows_append
      have hrows : ∀ row ∈ database.committed.outbox, row ∈ before.outbox ∨ row.Fresh := by
        intro row hrow
        rw [hmore] at hrow
        obtain hold | hnew := List.mem_append.mp hrow
        · exact Or.inl hold
        · exact Or.inr (h.fresh i row hnew)
      refine ⟨hids, hkeys, hfresh, fun row hrow hdead => ?_, fun row hrow hprocessed => ?_, fun worker hworker => ?_,
        fun task htask => hgrows.ids (h.recorded task htask), fun lease hlease => hgrows.ids (h.leased lease hlease)⟩
      · obtain hold | hnew := hrows row hrow
        · exact h.counted row hold hdead
        · exact hnew.attemptCount ▸ counted_zero
      · obtain hold | hnew := hrows row hrow
        · exact h.processed row hold hprocessed
        · exact absurd hnew.processedAt hprocessed
      · have hmono : worker.phase.Known database.committed.outbox (before.history.answers ++ []) :=
          (h.phases worker hworker).mono hgrows
        rw [List.append_nil] at hmono
        exact hmono
  | spawn workerId batchSize hnew =>
    refine ⟨hids, hkeys, h.fresh, h.counted, h.processed, fun worker hworker => ?_, h.recorded, h.leased⟩
    obtain hold | hnew := List.mem_append.mp hworker
    · exact h.phases worker hold
    · obtain rfl := List.mem_singleton.mp hnew
      trivial
  | work index action worker worker' moved hget hworked =>
    have hworker := List.mem_of_getElem? hget
    obtain ⟨hrecorded, hleased⟩ := h.ids_work hworker hworked
    have hcounted := h.counted_work hworker hworked
    have hprocessed := h.processed_work hworker hworked
    refine ⟨hids, hkeys, ?_, hcounted, hprocessed, fun other hother => ?_, hrecorded, hleased⟩
    · have hpending := hworked.pending
      exact hpending ▸ h.fresh
    · obtain hold | rfl := List.mem_or_eq_of_mem_set hother
      · obtain ⟨more, hmore⟩ := hworked.answers
        show other.phase.Known moved.outbox moved.history.answers
        rw [hmore]
        exact (h.phases other hold).mono hworked.grows
      · exact hworked.known h hworker
  | tick now hle => exact ⟨hids, hkeys, h.fresh, h.counted, h.processed, h.phases, h.recorded, h.leased⟩

/-- Nothing has been queued, and no ingest or indexer runs. -/
structure Initial (world : World) : Prop where
  outbox : world.outbox = []
  transactions : world.database.transactions = []
  workers : world.workers = []
  history : world.history = {}

theorem Initial.tracked {world : World} (h : Initial world) : Tracked world := by
  have hpending : ∀ i, world.pending i = [] := by
    intro i
    unfold World.pending
    rw [h.transactions]
    rfl
  have hnone : ∀ {κ : Type} (key : OutboxRow → κ), Apart key world.outbox world.pending := by
    intro κ key
    refine ⟨?_, fun i => ?_, fun i row hrow => ?_, fun i j hne row hrow => ?_⟩
    · rw [h.outbox]
      exact List.nodup_nil
    · rw [hpending i]
      exact List.nodup_nil
    · exact absurd (hpending i ▸ hrow) List.not_mem_nil
    · exact absurd (hpending i ▸ hrow) List.not_mem_nil
  refine ⟨hnone _, hnone _, fun i row hrow => absurd (hpending i ▸ hrow) List.not_mem_nil, ?_, ?_, ?_, ?_, ?_⟩
  all_goals simp [h.outbox, h.workers, h.history]

end Step

end AbyssBackend.Postgres
