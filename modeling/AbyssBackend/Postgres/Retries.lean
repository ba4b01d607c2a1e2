import AbyssBackend.Postgres.Leases

namespace AbyssBackend.Postgres

open Drafts Runs Storage Streams Text

def OutboxTaskResult.failed (task : OutboxTaskResult) : Bool := !task.result.isOk

/-- How many failures have been recorded for a row. -/
def failures (recorded : List OutboxTaskResult) (id : ℤ) : ℕ :=
  (recorded.filter fun task => task.id == id && task.failed).length

/-- Terminal states are exclusive and attempts are counted. -/
structure Accounted (world : World) : Prop where
  terminal : ∀ row ∈ world.outbox, row.processedAt = none ∨ row.deadLetteredAt = none
  succeeded : ∀ task ∈ world.history.recorded, task.failed = false → ∀ row ∈ world.outbox, row.id = task.id →
    row.deadLetteredAt = none
  attempts : ∀ row ∈ world.outbox, row.attemptCount = failures world.history.recorded row.id
  deadLettered : ∀ row ∈ world.outbox, row.deadLetteredAt ≠ none → 10 ≤ failures world.history.recorded row.id

/-- A success is recorded for a row only while it is not dead-lettered, and a failure only with the attempts that the
row counts, the tenth one only while the row is not processed. -/
def Fits (world : World) : Action → Prop
  | .work index (.record _) => ∀ worker ∈ world.workers[index]?, ∀ task ∈ worker.next, ∀ row ∈ world.outbox,
    row.id = task.id → (task.failed = false → row.deadLetteredAt = none) ∧ (task.failed = true →
      task.attemptCount = row.attemptCount ∧ (maxOutboxAttempts ≤ task.attempts → row.processedAt = none))
  | _ => True

instance (world : World) : ∀ action, Decidable (Fits world action)
  | .work index (.record _) => inferInstanceAs (Decidable (∀ worker ∈ world.workers[index]?, ∀ task ∈ worker.next,
      ∀ row ∈ world.outbox, row.id = task.id → (task.failed = false → row.deadLetteredAt = none) ∧
        (task.failed = true → task.attemptCount = row.attemptCount ∧
          (maxOutboxAttempts ≤ task.attempts → row.processedAt = none))))
  | .work _ (.start _) | .work _ .selectBackfill | .work _ (.insertBackfill _ _) | .work _ .checkBackfill
  | .work _ (.claim _ _) | .work _ .prepare | .work _ (.bulk _) | .work _ .fail | .work _ .crash
  | .ingest _ | .spawn _ _ | .tick _ => .isTrue trivial

/-- What a row counts, over the results recorded. -/
structure RowAccounted (recorded : List OutboxTaskResult) (row : OutboxRow) : Prop where
  terminal : row.processedAt = none ∨ row.deadLetteredAt = none
  attempts : row.attemptCount = failures recorded row.id
  deadLettered : row.deadLetteredAt ≠ none → 10 ≤ failures recorded row.id

/-- A row for which a success was recorded is processed. -/
def Processed (world : World) : Prop :=
  ∀ task ∈ world.history.recorded, task.failed = false → ∀ row ∈ world.outbox, row.id = task.id → row.processedAt ≠ none

section Rows

variable {recorded : List OutboxTaskResult} {task : OutboxTaskResult} {row : OutboxRow} {now : ℤ}

theorem failures_concat : failures (recorded ++ [task]) row.id =
    failures recorded row.id + if row.id = task.id ∧ task.failed = true then 1 else 0 := by
  simp only [failures, List.filter_append, List.length_append, List.filter_cons, List.filter_nil, Bool.and_eq_true,
    beq_iff_eq, eq_comm (a := task.id)]
  split <;> rfl

theorem failures_new (h : row.id ∉ recorded.map OutboxTaskResult.id) : failures recorded row.id = 0 := by
  rw [failures, List.length_eq_zero_iff, List.filter_eq_nil_iff]
  intro task htask hboth
  obtain ⟨hid, -⟩ := Bool.and_eq_true_iff.mp hboth
  exact h (beq_iff_eq.mp hid ▸ List.mem_map_of_mem htask)

theorem OutboxRow.Fresh.accounted (h : row.Fresh) (hnew : row.id ∉ recorded.map OutboxTaskResult.id) :
    RowAccounted recorded row :=
  ⟨Or.inl h.processedAt, by rw [h.attemptCount, failures_new hnew]; rfl, fun hdead => absurd h.deadLetteredAt hdead⟩

theorem attempts_of_counted (h : Counted task.attemptCount) : task.attempts = task.attemptCount + 1 := by
  have hlt := h.2
  unfold maxOutboxAttempts at hlt
  unfold OutboxTaskResult.attempts Streams.i32Max
  omega

/-- Recording a result keeps a row accounted for exactly where the result fits the row. -/
theorem recorded_accounted_iff (h : RowAccounted recorded row) (hid : row.id = task.id)
    (hcounted : Counted task.attemptCount) : RowAccounted (recorded ++ [task]) (row.recorded task now) ↔
      (task.failed = false → row.deadLetteredAt = none) ∧ (task.failed = true →
        task.attemptCount = row.attemptCount ∧ (maxOutboxAttempts ≤ task.attempts → row.processedAt = none)) := by
  have hattempts := attempts_of_counted hcounted
  have hfailures : failures (recorded ++ [task]) row.id = failures recorded row.id +
      if task.failed = true then 1 else 0 := by
    rw [failures_concat]
    simp only [hid, true_and]
  have hrow := h.attempts
  have hmax : maxOutboxAttempts = 10 := rfl
  cases hresult : task.result with
  | ok done =>
    have hfailed : task.failed = false := by simp [OutboxTaskResult.failed, hresult, Except.isOk, Except.toBool]
    rw [hfailed, if_neg Bool.false_ne_true, add_zero] at hfailures
    have hafter : row.recorded task now = { row.release with processedAt := some now, lastError := none } := by
      simp [OutboxRow.recorded, hresult]
    rw [hafter]
    simp only [hfailed, true_implies, Bool.false_eq_true, false_implies, and_true]
    constructor
    · rintro ⟨hterminal, -, -⟩
      obtain hnone | hnone := hterminal
      · cases hnone
      · exact hnone
    · intro hdead
      exact ⟨Or.inr hdead, hrow.trans (congrArg Nat.cast hfailures.symm), fun hnot => absurd hdead hnot⟩
  | error error =>
    have hfailed : task.failed = true := by simp [OutboxTaskResult.failed, hresult, Except.isOk, Except.toBool]
    rw [hfailed, if_pos rfl] at hfailures
    simp only [hfailed, Bool.true_eq_false, false_implies, true_and, true_implies]
    by_cases hlast : task.attempts ≥ maxOutboxAttempts
    · have hafter : row.recorded task now = { row.release with
          attemptCount := task.attempts
          deadLetteredAt := some now
          lastError := some (truncateError error) } := by
        simp [OutboxRow.recorded, hresult, hlast]
      rw [hafter]
      constructor
      · rintro ⟨hterminal, hcount, -⟩
        have hcount' : task.attempts = failures (recorded ++ [task]) row.id := hcount
        refine ⟨by omega, fun _ => ?_⟩
        obtain hnone | hnone := hterminal
        · exact hnone
        · cases hnone
      · rintro ⟨hsame, hprocessed⟩
        refine ⟨Or.inl (hprocessed hlast), ?_, fun _ => ?_⟩
        · show task.attempts = failures (recorded ++ [task]) row.id
          omega
        · show 10 ≤ failures (recorded ++ [task]) row.id
          omega
    · have hafter : row.recorded task now = { row.release with
          attemptCount := task.attempts
          availableAt := now + seconds (retryDelay task.attempts)
          lastError := some (truncateError error) } := by
        simp [OutboxRow.recorded, hresult, hlast]
      rw [hafter]
      constructor
      · rintro ⟨-, hcount, -⟩
        have hcount' : task.attempts = failures (recorded ++ [task]) row.id := hcount
        exact ⟨by omega, fun hge => absurd hge hlast⟩
      · rintro ⟨hsame, -⟩
        refine ⟨h.terminal, ?_, fun hdead => ?_⟩
        · show task.attempts = failures (recorded ++ [task]) row.id
          omega
        · have hbefore := h.deadLettered hdead
          show 10 ≤ failures (recorded ++ [task]) row.id
          omega

end Rows

theorem accounted_iff {world : World} (h : Processed world) :
    Accounted world ↔ ∀ row ∈ world.outbox, RowAccounted world.history.recorded row := by
  constructor
  · intro haccounted row hrow
    exact ⟨haccounted.terminal row hrow, haccounted.attempts row hrow, haccounted.deadLettered row hrow⟩
  · intro hrows
    refine ⟨fun row hrow => (hrows row hrow).terminal, fun task htask hfailed row hrow hid => ?_,
      fun row hrow => (hrows row hrow).attempts, fun row hrow => (hrows row hrow).deadLettered⟩
    exact (hrows row hrow).terminal.resolve_left (h task htask hfailed row hrow hid)

section Step

variable {before after : World} {worker worker' : Worker}

theorem recorded_processed_of {row : OutboxRow} {task : OutboxTaskResult} {now : ℤ}
    (h : row.processedAt ≠ none ∨ task.failed = false) : (row.recorded task now).processedAt ≠ none := by
  unfold OutboxRow.recorded
  unfold OutboxTaskResult.failed at h
  cases hresult : task.result with
  | ok done => exact Option.some_ne_none _
  | error error =>
    rw [hresult] at h
    have hprocessed := h.resolve_right (by simp [Except.isOk, Except.toBool])
    dsimp only
    split <;> exact hprocessed

theorem Processed.work (h : Processed before) (htracked : Tracked before) {action : WorkerAction}
    (hworked : before.Worked worker action worker' after) : Processed after := by
  cases hworked with
  | insertBackfill ids availableAt selected phase hphase hinsertable =>
    intro task htask hfailed row hrow hid
    obtain hold | hnew := List.mem_append.mp hrow
    · exact h task htask hfailed row hold hid
    · obtain ⟨-, hfree⟩ := insertable_apart keyed_id hinsertable
      exact absurd (htracked.recorded task htask) (hid ▸ (hfree row hnew).1)
  | claim startedAt skipped tasks phase hstarted htasks hphase hready =>
    intro task htask hfailed row hrow hid
    obtain ⟨old, hold, ⟨rfl, -⟩ | ⟨rfl, -⟩⟩ := mem_lease hrow
    · exact h task htask hfailed row hold hid
    · exact h task htask hfailed old hold hid
  | record now task rest phase hphase hafter =>
    intro other hother hfailed row hrow hid
    obtain ⟨hold, hne⟩ | ⟨old, hold, hold_id, rfl⟩ := mem_recordResult.mp hrow
    · obtain hbefore | hnew := List.mem_append.mp hother
      · exact h other hbefore hfailed row hold hid
      · obtain rfl := List.mem_singleton.mp hnew
        exact absurd hid hne
    · apply recorded_processed_of
      rw [recorded_id] at hid
      obtain hbefore | hnew := List.mem_append.mp hother
      · exact Or.inl (h other hbefore hfailed old hold hid)
      · obtain rfl := List.mem_singleton.mp hnew
        exact Or.inr hfailed
  | _ => exact h

theorem Processed.step [Sha256] [Base64] {action : Action} (h : Processed before) (htracked : Tracked before)
    (hstep : before.Stepped action after) : Processed after := by
  cases hstep with
  | ingest action database hdatabase =>
    intro task htask hfailed row hrow hid
    obtain ⟨i, hsame | hmore⟩ := hdatabase.outbox
    · have hrow' : row ∈ before.outbox := by
        rw [World.outbox, ← hsame]
        exact hrow
      exact h task htask hfailed row hrow' hid
    · have hrow' : row ∈ before.outbox ++ before.pending i := hmore ▸ hrow
      obtain hold | hnew := List.mem_append.mp hrow'
      · exact h task htask hfailed row hold hid
      · exact absurd (htracked.recorded task htask) (hid ▸ htracked.ids.fresh i row hnew)
  | spawn workerId batchSize hnew => exact h
  | work index action worker worker' moved hget hworked =>
    have hmoved : Processed moved := h.work htracked hworked
    exact hmoved
  | tick now hle => exact h

/-- New rows are accounted for: no result has been recorded for them. -/
theorem Tracked.new_accounted (h : Tracked before) {row : OutboxRow} (hfresh : row.Fresh)
    (hnew : row.id ∉ before.outbox.map OutboxRow.id) : RowAccounted before.history.recorded row := by
  apply hfresh.accounted
  intro hmem
  obtain ⟨task, htask, hid⟩ := List.mem_map.mp hmem
  exact hnew (hid ▸ h.recorded task htask)

theorem rows_accounted_work (h : ∀ row ∈ before.outbox, RowAccounted before.history.recorded row)
    (htracked : Tracked before) {index : ℕ} {action : WorkerAction} (hget : before.workers[index]? = some worker)
    (hworked : before.Worked worker action worker' after) :
    (∀ row ∈ after.outbox, RowAccounted after.history.recorded row) ↔ Fits before (.work index action) := by
  cases hworked with
  | insertBackfill ids availableAt selected phase hphase hinsertable =>
    apply iff_of_true _ trivial
    intro row hrow
    obtain hold | hnew := List.mem_append.mp hrow
    · exact h row hold
    · obtain ⟨-, hfree⟩ := insertable_apart keyed_id hinsertable
      exact htracked.new_accounted (backfillRows_fresh hnew) (hfree row hnew).1
  | claim startedAt skipped tasks phase hstarted htasks hphase hready =>
    apply iff_of_true _ trivial
    intro row hrow
    obtain ⟨old, hold, ⟨rfl, -⟩ | ⟨rfl, -⟩⟩ := mem_lease hrow
    · exact h row hold
    · have hold_accounted := h old hold
      exact ⟨hold_accounted.terminal, hold_accounted.attempts, hold_accounted.deadLettered⟩
  | record now task rest phase hphase hafter =>
    have hknown := htracked.phases worker (List.mem_of_getElem? hget)
    rw [hphase] at hknown
    have hcounted := (hknown task List.mem_cons_self).1
    have hnext : worker.next = some task := by
      unfold Worker.next
      rw [hphase]
    constructor
    · intro hrows other hother task' htask' row hrow hid
      obtain rfl := Option.some.inj (hget.symm.trans hother)
      obtain rfl := Option.some.inj (hnext.symm.trans htask')
      exact (recorded_accounted_iff (h row hrow) hid hcounted).mp
        (hrows _ (mem_recordResult.mpr (Or.inr ⟨row, hrow, hid, rfl⟩)))
    · intro hfits row hrow
      obtain ⟨hold, hne⟩ | ⟨old, hold, hid, rfl⟩ := mem_recordResult.mp hrow
      · have hsame : failures (before.history.recorded ++ [task]) row.id = failures before.history.recorded row.id := by
          rw [failures_concat, if_neg (fun hboth => hne hboth.1), add_zero]
        have hrow_accounted := h row hold
        refine ⟨hrow_accounted.terminal, hrow_accounted.attempts.trans (congrArg Nat.cast hsame.symm), fun hdead => ?_⟩
        exact (hrow_accounted.deadLettered hdead).trans_eq hsame.symm
      · exact (recorded_accounted_iff (h old hold) hid hcounted).mpr (hfits worker hget task hnext old hold hid)
  | _ => exact iff_of_true h trivial

theorem Accounted.step_iff [Sha256] [Base64] {action : Action} (h : Accounted before) (hprocessed : Processed before)
    (htracked : Tracked before) (hstep : before.Stepped action after) : Accounted after ↔ Fits before action := by
  have hrows := (accounted_iff hprocessed).mp h
  rw [accounted_iff (hprocessed.step htracked hstep)]
  cases hstep with
  | ingest action database hdatabase =>
    apply iff_of_true _ trivial
    intro row hrow
    obtain ⟨i, hsame | hmore⟩ := hdatabase.outbox
    · have hrow' : row ∈ before.outbox := by
        rw [World.outbox, ← hsame]
        exact hrow
      exact hrows row hrow'
    · have hrow' : row ∈ before.outbox ++ before.pending i := hmore ▸ hrow
      obtain hold | hnew := List.mem_append.mp hrow'
      · exact hrows row hold
      · exact htracked.new_accounted (htracked.fresh i row hnew) (htracked.ids.fresh i row hnew)
  | spawn workerId batchSize hnew => exact iff_of_true hrows trivial
  | work index action worker worker' moved hget hworked =>
    have hmoved : (∀ row ∈ moved.outbox, RowAccounted moved.history.recorded row) ↔ Fits before (.work index action) :=
      rows_accounted_work hrows htracked hget hworked
    exact hmoved
  | tick now hle => exact iff_of_true hrows trivial

end Step

section Run

variable [Sha256] [Base64] {start world : World}

theorem Initial.tracked_along (hstart : Initial start) (h : Reaches World.step anyStep start world) :
    Tracked world ∧ Processed world := by
  apply h.invariant
  · refine ⟨hstart.tracked, ?_⟩
    unfold Processed
    simp [hstart.history]
  · rintro before action after ⟨htracked, hprocessed⟩ - hstep
    have hstepped := World.stepped hstep
    exact ⟨htracked.step hstepped, hprocessed.step htracked hstepped⟩

omit [Sha256] [Base64] in
theorem Initial.accounted (h : Initial start) : Accounted start := by
  refine ⟨?_, ?_, ?_, ?_⟩ <;> simp [h.outbox]

/-- In every run whose recorded results fit their rows, terminal states are exclusive and attempts are counted; and
the next step keeps this exactly where its result fits. -/
theorem Initial.accounted_along (hstart : Initial start) (h : Reaches World.step Fits start world) :
    Accounted world ∧ ∀ action after, world.step action = some after → (Accounted after ↔ Fits world action) := by
  have haccounted : Accounted world ∧ Tracked world ∧ Processed world := by
    apply h.invariant
    · exact ⟨hstart.accounted, hstart.tracked_along .start⟩
    · rintro before action after ⟨hbefore, htracked, hprocessed⟩ hfits hstep
      have hstepped := World.stepped hstep
      exact ⟨(hbefore.step_iff hprocessed htracked hstepped).mpr hfits, htracked.step hstepped,
        hprocessed.step htracked hstepped⟩
  obtain ⟨hworld, htracked, hprocessed⟩ := haccounted
  exact ⟨hworld, fun action after hstep => hworld.step_iff hprocessed htracked (World.stepped hstep)⟩

end Run

section Recounted

open Fixtures

local instance recountedDigest : Sha256 := cargoDigest

local instance recountedContent : Base64 := noContent

def accountedWorld : World := (run World.step Fits projected newWorld).getD newWorld

theorem Initial.accounted_projected : accountedWorld.outbox.map OutboxRow.processedAt = [some 0] ∧
    Accounted accountedWorld ∧ ∀ action after, accountedWorld.step action = some after →
      (Accounted after ↔ Fits accountedWorld action) := by
  have hrun : run World.step Fits projected newWorld = some accountedWorld := rfl
  exact ⟨rfl, Initial.accounted_along newWorld_initial (reaches_run hrun)⟩

/-- Two workers record a failure of one row, one after the other has claimed it in its turn. -/
def twiceFailed : World :=
  (run World.step anyStep (overtaking ++ [.work 1 .prepare, .work 1 (.bulk (.failed "timed out")),
    .work 1 (.record (seconds 124))]) newWorld).getD newWorld

theorem twiceFailed_countsOne : Reaches World.step anyStep newWorld twiceFailed ∧
    twiceFailed.outbox.map OutboxRow.attemptCount = [1] ∧ failures twiceFailed.history.recorded 10 = 2 ∧
    ¬Accounted twiceFailed := by
  have hrun : run World.step anyStep (overtaking ++ [.work 1 .prepare, .work 1 (.bulk (.failed "timed out")),
    .work 1 (.record (seconds 124))]) newWorld = some twiceFailed := rfl
  refine ⟨reaches_run hrun, rfl, rfl, fun h => ?_⟩
  have hcount : ¬∀ row ∈ twiceFailed.outbox, row.attemptCount = failures twiceFailed.history.recorded row.id := by decide
  exact hcount h.attempts

end Recounted

end AbyssBackend.Postgres
