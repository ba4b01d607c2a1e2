import AbyssBackend.Library.Runs
import AbyssBackend.Postgres.Tracking
import AbyssBackend.Storage.Fixtures

namespace AbyssBackend.Postgres

open Drafts Runs Storage Streams Text

/-- A worker's claim that it has not recorded a result for and that has not expired. -/
def World.inForce (world : World) (lease : Lease) : Bool := world.clock ≤ lease.claimedAt + outboxLease

def Worker.next (worker : Worker) : Option OutboxTaskResult :=
  match worker.phase with
  | .recording (task :: _) => some task
  | _ => none

/-- The tasks of the rows that a claim returns. -/
def Worker.tasks (worker : Worker) : List ClaimedOutboxTask :=
  match worker.phase with
  | .claimed tasks => tasks
  | _ => []

def OutboxTaskResult.retried (task : OutboxTaskResult) : Bool :=
  !task.result.isOk && task.attempts < maxOutboxAttempts

/-- The row is leased to another worker. -/
def OutboxRow.heldFrom (row : OutboxRow) (workerId : String) (clock : ℤ) : Bool :=
  row.claimedBy.any (fun other => other ≠ workerId) &&
    row.claimedAt.any fun claimedAt => clock ≤ claimedAt + outboxLease

/-- A failure that is to be retried is not recorded for a row that is leased to another worker by then. -/
def Releases (world : World) : Action → Prop
  | .work index (.record _) => ∀ worker ∈ world.workers[index]?, ∀ task ∈ worker.next, task.retried = true →
    ∀ row ∈ world.outbox, row.id = task.id → row.heldFrom worker.workerId world.clock = false
  | _ => True

instance (world : World) : ∀ action, Decidable (Releases world action)
  | .work index (.record _) => inferInstanceAs (Decidable (∀ worker ∈ world.workers[index]?, ∀ task ∈ worker.next,
      task.retried = true → ∀ row ∈ world.outbox, row.id = task.id → row.heldFrom worker.workerId world.clock = false))
  | .work _ (.start _) | .work _ .selectBackfill | .work _ (.insertBackfill _ _) | .work _ .checkBackfill
  | .work _ (.claim _ _) | .work _ .prepare | .work _ (.bulk _) | .work _ .fail | .work _ .crash
  | .ingest _ | .spawn _ _ | .tick _ => .isTrue trivial

/-- No two workers hold one row at a time, and no claim returns a row that another worker holds. -/
structure Exclusive [Sha256] [Base64] (world : World) : Prop where
  one : ∀ lease ∈ world.history.leases, ∀ other ∈ world.history.leases, world.inForce lease = true →
    world.inForce other = true → lease.taskId = other.taskId → lease.workerId = other.workerId
  claims : ∀ index startedAt skipped after, world.step (.work index (.claim startedAt skipped)) = some after →
    ∀ worker ∈ after.workers[index]?, ∀ task ∈ worker.tasks, ∀ lease ∈ world.history.leases,
      world.inForce lease = true → lease.taskId = task.id → lease.workerId = worker.workerId

/-- The outbox knows of the leases in force. -/
structure Honoured (world : World) : Prop where
  held : ∀ lease ∈ world.history.leases, world.inForce lease = true → ∀ row ∈ world.outbox, row.id = lease.taskId →
    row.terminal = true ∨ (row.claimedAt = some lease.claimedAt ∧ row.claimedBy = some lease.workerId)
  one : ∀ lease ∈ world.history.leases, ∀ other ∈ world.history.leases, world.inForce lease = true →
    world.inForce other = true → lease.taskId = other.taskId → lease.workerId = other.workerId

section Step

variable {before after : World} {worker worker' : Worker}

theorem terminal_iff {row : OutboxRow} : row.terminal = true ↔ row.processedAt ≠ none ∨ row.deadLetteredAt ≠ none := by
  simp only [OutboxRow.terminal, Bool.or_eq_true, Option.isSome_iff_ne_none]

/-- A claimable row is under no lease in force. -/
theorem Honoured.claimable (h : Honoured before) {row : OutboxRow} (hrow : row ∈ before.outbox) {startedAt : ℤ}
    (hstarted : startedAt ≤ before.clock) (hclaimable : row.claimable startedAt = true) {lease : Lease}
    (hlease : lease ∈ before.history.leases) (hforce : before.inForce lease = true) : row.id ≠ lease.taskId := by
  intro hid
  obtain ⟨hprocessed, hdead, -, hexpired⟩ := claimable_iff.mp hclaimable
  obtain hterminal | ⟨hclaimed, -⟩ := h.held lease hlease hforce row hrow hid
  · obtain hdone | hdone := terminal_iff.mp hterminal
    · exact hdone hprocessed
    · exact hdone hdead
  · have hbefore := hexpired _ hclaimed
    have hafter := of_decide_eq_true hforce
    omega

theorem recorded_terminal {row : OutboxRow} {task : OutboxTaskResult} {now : ℤ}
    (h : row.terminal = true ∨ task.retried = false) : (row.recorded task now).terminal = true := by
  unfold OutboxTaskResult.retried at h
  unfold OutboxRow.recorded
  rw [terminal_iff] at h ⊢
  cases hresult : task.result with
  | ok done =>
    left
    exact Option.some_ne_none _
  | error error =>
    rw [hresult] at h
    dsimp only
    split
    · right
      exact Option.some_ne_none _
    · next hattempts =>
      obtain hterminal | hretried := h
      · exact hterminal
      · simp [Except.isOk, Except.toBool] at hretried
        omega

theorem Honoured.work (h : Honoured before) (htracked : Tracked before) {index : ℕ} {action : WorkerAction}
    (hget : before.workers[index]? = some worker) (hreleases : Releases before (.work index action))
    (hworked : before.Worked worker action worker' after) : Honoured after := by
  cases hworked with
  | insertBackfill ids availableAt selected phase hphase hinsertable =>
    refine ⟨fun lease hlease hforce row hrow hid => ?_, h.one⟩
    obtain hold | hnew := List.mem_append.mp hrow
    · exact h.held lease hlease hforce row hold hid
    · obtain ⟨-, hfree⟩ := insertable_apart keyed_id hinsertable
      exact absurd (htracked.leased lease hlease) (hid ▸ (hfree row hnew).1)
  | claim startedAt skipped tasks phase hstarted htasks hphase hready =>
    have hfree : ∀ task ∈ tasks, ∀ lease ∈ before.history.leases, before.inForce lease = true →
        task.id ≠ lease.taskId := by
      intro task htask lease hlease hforce
      subst htasks
      obtain ⟨row, hrow, rfl⟩ := List.mem_map.mp htask
      obtain ⟨hmem, hclaimable⟩ := mem_claimRows hrow
      exact h.claimable hmem hstarted hclaimable hlease hforce
    refine ⟨fun lease hlease hforce row hrow hid => ?_, fun lease hlease other hother hforce hforce' hsame => ?_⟩
    · obtain ⟨old, hold, ⟨rfl, hfreeRow⟩ | ⟨rfl, htask⟩⟩ := mem_lease hrow
      · obtain hlease | hnew := List.mem_append.mp hlease
        · exact h.held lease hlease hforce row hold hid
        · obtain ⟨task, htask, rfl⟩ := List.mem_map.mp hnew
          exact absurd (hid ▸ List.mem_map_of_mem htask) hfreeRow
      · obtain hlease | hnew := List.mem_append.mp hlease
        · obtain ⟨task, htask, htaskId⟩ := List.mem_map.mp htask
          exact absurd (htaskId.trans hid) (hfree task htask lease hlease hforce)
        · obtain ⟨task, -, rfl⟩ := List.mem_map.mp hnew
          exact Or.inr ⟨rfl, rfl⟩
    · obtain hlease | hnew := List.mem_append.mp hlease
      · obtain hother | hnew' := List.mem_append.mp hother
        · exact h.one lease hlease other hother hforce hforce' hsame
        · obtain ⟨task, htask, rfl⟩ := List.mem_map.mp hnew'
          exact absurd hsame.symm (hfree task htask lease hlease hforce)
      · obtain ⟨task, htask, rfl⟩ := List.mem_map.mp hnew
        obtain hother | hnew' := List.mem_append.mp hother
        · exact absurd hsame (hfree task htask other hother hforce')
        · obtain ⟨task', -, rfl⟩ := List.mem_map.mp hnew'
          rfl
  | record now task rest phase hphase hafter =>
    refine ⟨fun lease hlease hforce row hrow hid => ?_, fun lease hlease other hother => ?_⟩
    · obtain ⟨hlease, hkept⟩ := List.mem_filter.mp hlease
      obtain ⟨hold, -⟩ | ⟨old, hold, hold_id, rfl⟩ := mem_recordResult.mp hrow
      · exact h.held lease hlease hforce row hold hid
      · rw [recorded_id] at hid
        have hother : lease.workerId ≠ worker.workerId := by
          simpa [← hid, hold_id] using hkept
        left
        apply recorded_terminal
        cases hretried : task.retried with
        | false => exact Or.inr rfl
        | true =>
          obtain hterminal | ⟨hclaimedAt, hclaimedBy⟩ := h.held lease hlease hforce old hold hid
          · exact Or.inl hterminal
          · have hnext : worker.next = some task := by
              unfold Worker.next
              rw [hphase]
            have hnot := hreleases worker hget task hnext hretried old hold hold_id
            have hheld : old.heldFrom worker.workerId before.clock = true := by
              unfold OutboxRow.heldFrom
              rw [hclaimedAt, hclaimedBy]
              have hclock : before.clock ≤ lease.claimedAt + outboxLease := of_decide_eq_true hforce
              simpa [hother] using hclock
            rw [hnot] at hheld
            exact absurd hheld Bool.false_ne_true
    · exact h.one lease (List.mem_filter.mp hlease).1 other (List.mem_filter.mp hother).1
  | _ => exact ⟨h.held, h.one⟩

theorem Honoured.step [Sha256] [Base64] {action : Action} (h : Honoured before) (htracked : Tracked before)
    (hreleases : Releases before action) (hstep : before.Stepped action after) : Honoured after := by
  cases hstep with
  | ingest action database hdatabase =>
    refine ⟨fun lease hlease hforce row hrow hid => ?_, h.one⟩
    obtain ⟨i, hsame | hmore⟩ := hdatabase.outbox
    · have hrow' : row ∈ before.outbox := by
        rw [World.outbox, ← hsame]
        exact hrow
      exact h.held lease hlease hforce row hrow' hid
    · have hrow' : row ∈ before.outbox ++ before.pending i := hmore ▸ hrow
      obtain hold | hnew := List.mem_append.mp hrow'
      · exact h.held lease hlease hforce row hold hid
      · exact absurd (htracked.leased lease hlease) (hid ▸ htracked.ids.fresh i row hnew)
  | spawn workerId batchSize hnew => exact ⟨h.held, h.one⟩
  | work index action worker worker' moved hget hworked =>
    have hmoved : Honoured moved := h.work htracked hget hreleases hworked
    exact ⟨hmoved.held, hmoved.one⟩
  | tick now hle =>
    have hforce : ∀ lease : Lease, World.inForce { before with clock := now } lease = true →
        before.inForce lease = true := by
      intro lease hforce
      exact decide_eq_true (hle.trans (of_decide_eq_true hforce))
    exact ⟨fun lease hlease h' => h.held lease hlease (hforce lease h'),
      fun lease hlease other hother h' h'' => h.one lease hlease other hother (hforce lease h') (hforce other h'')⟩

end Step

section Run

variable [Sha256] [Base64] {start world : World}

theorem Honoured.exclusive (h : Honoured world) : Exclusive world := by
  refine ⟨h.one, fun index startedAt skipped after hstep worker hworker task htask lease hlease hforce hid => ?_⟩
  cases World.stepped hstep with
  | work index action before worker' moved hget hworked =>
    cases hworked with
    | claim startedAt skipped tasks phase hstarted htasks hphase hready =>
      have hlength : index < world.workers.length := (List.getElem?_eq_some_iff.mp hget).1
      rw [List.getElem?_set_self hlength] at hworker
      obtain rfl := Option.some.inj hworker
      have hclaimed : task ∈ tasks := by
        unfold Worker.tasks at htask
        subst hphase
        split at htask
        · next found hfound =>
          split at hfound <;> cases hfound
          exact htask
        · exact absurd htask List.not_mem_nil
      subst htasks
      obtain ⟨row, hrow, rfl⟩ := List.mem_map.mp hclaimed
      obtain ⟨hmem, hclaimable⟩ := mem_claimRows hrow
      exact absurd hid.symm (h.claimable hmem hstarted hclaimable hlease hforce)

theorem Initial.honoured_along (hstart : Initial start) (h : Reaches World.step Releases start world) :
    Tracked world ∧ Honoured world := by
  apply h.invariant
  · refine ⟨hstart.tracked, ?_, ?_⟩
    · simp [hstart.history]
    · simp [hstart.history]
  · rintro before action after ⟨htracked, hhonoured⟩ hreleases hstep
    have hstepped := World.stepped hstep
    exact ⟨htracked.step hstepped, hhonoured.step htracked hreleases hstepped⟩

/-- In every run in which no worker records a failure to be retried for a row that another worker has leased by then,
leases are exclusive. -/
theorem Initial.exclusive_along (hstart : Initial start) (h : Reaches World.step Releases start world) :
    Exclusive world :=
  (hstart.honoured_along h).2.exclusive

end Run

section Overtaken

open Fixtures

local instance leasedDigest : Sha256 := cargoDigest

local instance leasedContent : Base64 := noContent

def newWorld : World where
  database := { users := [7], committed := {} }
  clock := 0

theorem newWorld_initial : Initial newWorld := ⟨rfl, rfl, rfl, rfl⟩

/-- One response is ingested. -/
def ingested : List Action :=
  let request : IngestEventsRequest :=
    { events := [{ event "e1" 1 .response [] with conversation := none }]
      diagnosticCaptures := [] }
  let draws : Postgres.Draws :=
    { event := (Fixtures.draws 10).event
      outboxId index := 10 + index
      capture := (Fixtures.draws 10).capture }
  .ingest (.begin request 7 100 draws 0) :: List.replicate 7 (.ingest (.statement 0)) ++ [.ingest (.commit 0)]

/-- A worker becomes ready to claim. -/
def readied (index : ℕ) : List Action :=
  [.work index (.start true), .work index .selectBackfill, .work index (.insertBackfill (fun place => place) 0),
    .work index .checkBackfill]

/-- The row's event is claimed, answered and recorded. -/
def projected : List Action :=
  ingested ++ [.spawn "a" 10] ++ readied 0 ++ [.work 0 (.claim 0 []), .work 0 .prepare,
    .work 0 (.bulk (.items [some ⟨201, none⟩])), .work 0 (.record 0)]

def projectedWorld : World := (run World.step Releases projected newWorld).getD newWorld

theorem Initial.exclusive_projected : projectedWorld.outbox.map OutboxRow.processedAt = [some 0] ∧
    Exclusive projectedWorld := by
  have hrun : run World.step Releases projected newWorld = some projectedWorld := rfl
  exact ⟨rfl, Initial.exclusive_along newWorld_initial (reaches_run hrun)⟩

/-- A bulk request of the first worker takes longer than its lease, the second worker claims the row, and the first
one records its failure. -/
def overtaking : List Action :=
  ingested ++ [.spawn "a" 10, .spawn "b" 10] ++ readied 0 ++ readied 1 ++
    [.work 0 (.claim 0 []), .work 0 .prepare, .tick (seconds 121), .work 1 (.claim (seconds 121) []),
      .work 0 (.bulk (.failed "timed out")), .work 0 (.record (seconds 121)), .tick (seconds 124),
      .work 0 (.start true)]

def overtaken : World := (run World.step anyStep overtaking newWorld).getD newWorld

/-- The first worker claims the row again while the second one holds it. -/
def reclaimed : World := (overtaken.step (.work 0 (.claim (seconds 124) []))).getD newWorld

theorem overtaking_shares : Reaches World.step anyStep newWorld overtaken ∧
    overtaken.history.leases = [⟨10, "b", seconds 121⟩] ∧ overtaken.step (.work 0 (.claim (seconds 124) [])) = some reclaimed ∧
    (reclaimed.workers[0]?.map Worker.tasks) = some [⟨10, 12, .upsert, 1⟩] ∧ ¬Exclusive overtaken := by
  have hrun : run World.step anyStep overtaking newWorld = some overtaken := rfl
  have hstep : overtaken.step (.work 0 (.claim (seconds 124) [])) = some reclaimed := rfl
  refine ⟨reaches_run hrun, rfl, hstep, rfl, fun h => ?_⟩
  have hshared : ¬∀ worker ∈ reclaimed.workers[0]?, ∀ task ∈ worker.tasks, ∀ lease ∈ overtaken.history.leases,
      overtaken.inForce lease = true → lease.taskId = task.id → lease.workerId = worker.workerId := by decide
  exact hshared (h.claims 0 (seconds 124) [] reclaimed hstep)

end Overtaken

end AbyssBackend.Postgres
