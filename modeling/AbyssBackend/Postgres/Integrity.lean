import AbyssBackend.Postgres.Evidence
import AbyssBackend.Postgres.Links

namespace AbyssBackend.Postgres

open Attachments Drafts Runs Storage Streams Text

section Tables

variable [Sha256]

/-- The tables of a sound database: keys are not shared, every reference is to a row of the same owner, and every event
has its stream facts. -/
structure Integral (tables : Tables) : Prop where
  deviceIds : (tables.devices.map DeviceRow.id).Nodup
  deviceKeys : (tables.devices.map DeviceRow.key).Nodup
  sessionIds : (tables.sessions.map SessionRow.id).Nodup
  sessionKeys : (tables.sessions.map SessionRow.key).Nodup
  eventPks : (tables.events.map EventRow.id).Nodup
  eventIds : (tables.events.map EventRow.eventId).Nodup
  factsPks : (tables.streamFacts.map StreamFactsRow.eventPk).Nodup
  attachmentIds : (tables.attachments.map AttachmentRow.id).Nodup
  attachmentPlaces : (tables.attachments.map AttachmentRow.place).Nodup
  captureIds : (tables.captures.map DiagnosticCapture.id).Nodup
  captureKeys : (tables.captures.map DiagnosticCapture.key).Nodup
  captureEvents : tables.captureEvents.Nodup
  linked : Linked tables
  facts : ∀ event ∈ tables.events, ∃ row ∈ tables.streamFacts, FactsOf event row
  deviceTimes : ∀ device ∈ tables.devices, device.firstSeenAt ≤ device.lastSeenAt
  sessionTimes : ∀ session ∈ tables.sessions, ∃ endedAt, session.endedAt = some endedAt ∧ session.startedAt ≤ endedAt

/-- What holds between the tables and the transactions at any moment. -/
structure Related (database : Database) : Prop where
  keys : KeysApart database
  linked : Linked database.committed
  facts : ∀ event ∈ database.committed.events, ∃ row ∈ database.committed.streamFacts, FactsOf event row
  placed : ∀ transaction ∈ database.transactions, transaction.Placed

section Held

variable {ρ μ : Type} {id : ρ → Uuid} {key : ρ → μ} {first : ρ → ℤ} {last : ρ → Option ℤ}
  {draft : Transaction → Draft ρ Uuid ℤ} {rows : List ρ} {told : List (Uuid × ℤ)} {database : Database} {index : ℕ}
  {transaction : Transaction}

omit [Sha256] in
theorem HeldApart.ordered (h : HeldApart id key first last draft rows told database.transactions) :
    ∀ row ∈ rows, ∃ t, last row = some t ∧ first row ≤ t := by
  obtain ⟨seen, -, h⟩ := h
  intro row hrow
  obtain ⟨t, hlast, hgreatest⟩ := (h.extents row hrow).greatest
  exact ⟨t, hlast, hgreatest.2 (h.extents row hrow).least.1⟩

omit [Sha256] in
theorem HeldApart.view (h : HeldApart id key first last draft rows told database.transactions)
    (hget : database.transactions[index]? = some transaction) :
    ((overlay id (draft transaction).rows rows).map id).Nodup := by
  obtain ⟨seen, -, h⟩ := h
  have hdraft : drafts draft database.transactions index = draft transaction := drafts_get hget
  exact nodup_overlay (hdraft ▸ h.draftIds index) h.ids

omit [Sha256] in
theorem HeldApart.same (h : HeldApart id key first last draft rows told database.transactions)
    (hget : database.transactions[index]? = some transaction) :
    ∀ row ∈ (draft transaction).rows, ∀ old ∈ rows, id row = id old → key row = key old := by
  obtain ⟨seen, -, h⟩ := h
  have hdraft : drafts draft database.transactions index = draft transaction := drafts_get hget
  exact fun row hrow old hold => (h.same index row (hdraft ▸ hrow) old hold).mp

omit [Sha256] in
/-- Rows at rest are told apart, each with the two times that it holds and those that are told of it. -/
theorem heldApart_of_rest (hids : (rows.map id).Nodup) (hkeys : (rows.map key).Nodup)
    (hordered : ∀ row ∈ rows, ∃ t, last row = some t ∧ first row ≤ t)
    (hrefs : ∀ pair ∈ told, pair.1 ∈ rows.map id)
    (hspans : ∀ row ∈ rows, ∀ time, (id row, time) ∈ told → first row ≤ time ∧ ∃ t, last row = some t ∧ time ≤ t) :
    HeldApart id key first last draft rows told [] := by
  refine ⟨rows.flatMap (fun row => [(id row, first row), (id row, (last row).getD (first row))]) ++ told,
    fun pair hpair => List.mem_append_right _ hpair, hids, hkeys, ?_, fun row hrow => ?_, ?_, ?_, ?_, ?_, ?_, ?_⟩
  · intro k t hmem
    obtain hheld | htold := List.mem_append.mp hmem
    · obtain ⟨row, hrow, hpair⟩ := List.mem_flatMap.mp hheld
      simp only [List.mem_cons, Prod.mk.injEq, List.not_mem_nil, or_false] at hpair
      obtain ⟨rfl, -⟩ | ⟨rfl, -⟩ := hpair <;> exact List.mem_map_of_mem hrow
    · exact hrefs _ htold
  · obtain ⟨t, hlast, hle⟩ := hordered row hrow
    have hown : ∀ s ∈ [first row, t], s ∈ timesOf (rows.flatMap (fun row =>
        [(id row, first row), (id row, (last row).getD (first row))]) ++ told) (id row) := by
      intro s hs
      refine List.mem_append_left _ (List.mem_flatMap.mpr ⟨row, hrow, ?_⟩)
      simpa [hlast] using hs
    have hbetween : ∀ s ∈ timesOf (rows.flatMap (fun row =>
        [(id row, first row), (id row, (last row).getD (first row))]) ++ told) (id row), first row ≤ s ∧ s ≤ t := by
      intro s hs
      obtain hheld | htold := List.mem_append.mp hs
      · obtain ⟨other, hother, hpair⟩ := List.mem_flatMap.mp hheld
        simp only [List.mem_cons, Prod.mk.injEq, List.not_mem_nil, or_false] at hpair
        have hid : id row = id other := hpair.elim And.left And.left
        obtain rfl := List.inj_on_of_nodup_map hids hrow hother hid
        rw [hlast, Option.getD_some] at hpair
        obtain ⟨-, rfl⟩ | ⟨-, rfl⟩ := hpair
        · exact ⟨le_rfl, hle⟩
        · exact ⟨hle, le_rfl⟩
      · obtain ⟨hfirst, t', hlast', hle'⟩ := hspans row hrow s htold
        obtain rfl : t = t' := Option.some.inj (hlast.symm.trans hlast')
        exact ⟨hfirst, hle'⟩
    refine ⟨⟨hown _ (by simp), fun s hs => (hbetween s hs).1⟩, t, hlast, hown _ (by simp), fun s hs => (hbetween s hs).2⟩
  all_goals simp [drafts, default, Draft.empty]

end Held

section Steps

variable {database : Database} {index : ℕ} {transaction after : Transaction} {rest : List Statement}
  {statement : Statement}

omit [Sha256] in
theorem rowsApart_of_rest {ρ κ : Type} {table : Tables → List ρ} {key : ρ → κ} (hrest : database.transactions = [])
    (h : ((table database.committed).map key).Nodup) : RowsApart table key database := by
  unfold RowsApart
  rw [hrest]
  have hnone : ∀ i, drafts (fun transaction => table transaction.own) [] i = [] := fun _ => rfl
  exact ⟨h, by simp [hnone], by simp [hnone], by simp [hnone]⟩

theorem Integral.related (h : Integral database.committed) (hrest : database.transactions = []) : Related database where
  keys := {
    devices := hrest ▸ heldApart_of_rest h.deviceIds h.deviceKeys (fun device hdevice =>
      ⟨_, rfl, h.deviceTimes device hdevice⟩) (by simp) (by simp)
    sessions := hrest ▸ heldApart_of_rest h.sessionIds h.sessionKeys h.sessionTimes (by simp) (by simp)
    events := rowsApart_of_rest hrest h.eventPks
    eventIds := rowsApart_of_rest hrest h.eventIds
    streamFacts := rowsApart_of_rest hrest h.factsPks
    attachments := rowsApart_of_rest hrest h.attachmentIds
    attachmentPlaces := rowsApart_of_rest hrest h.attachmentPlaces
    captures := rowsApart_of_rest hrest h.captureIds
    captureKeys := rowsApart_of_rest hrest h.captureKeys
    captureEvents := rowsApart_of_rest hrest (by simpa using h.captureEvents) }
  linked := h.linked
  facts := h.facts
  placed := by simp [hrest]

theorem Related.integral (h : Related database) : Integral database.committed where
  deviceIds := h.keys.devices.elim fun _ held => held.2.ids
  deviceKeys := h.keys.devices.elim fun _ held => held.2.keys
  sessionIds := h.keys.sessions.elim fun _ held => held.2.ids
  sessionKeys := h.keys.sessions.elim fun _ held => held.2.keys
  eventPks := h.keys.events.keys
  eventIds := h.keys.eventIds.keys
  factsPks := h.keys.streamFacts.keys
  attachmentIds := h.keys.attachments.keys
  attachmentPlaces := h.keys.attachmentPlaces.keys
  captureIds := h.keys.captures.keys
  captureKeys := h.keys.captureKeys.keys
  captureEvents := by simpa using h.keys.captureEvents.keys
  linked := h.linked
  facts := h.facts
  deviceTimes := by
    intro device hdevice
    obtain ⟨t, ht, hle⟩ := h.keys.devices.ordered device hdevice
    exact Option.some.inj ht ▸ hle
  sessionTimes := h.keys.sessions.ordered

omit [Sha256] in
theorem KeysApart.view (h : KeysApart database) (hget : database.transactions[index]? = some transaction) :
    ViewApart database.committed transaction := ⟨h.devices.view hget, h.sessions.view hget⟩

theorem Related.extends (h : Related database) (hget : database.transactions[index]? = some transaction) :
    Extends database.committed (transaction.own.over database.committed) :=
  .over (h.keys.devices.same hget) (h.keys.sessions.same hget)

theorem Related.placed_statement (h : Related database) (hget : database.transactions[index]? = some transaction)
    (htodo : transaction.todo = statement :: rest)
    (hexecution : Execution (database.others index) database.committed { transaction with todo := rest } statement
      after) : after.Placed := by
  have hview : ViewApart database.committed { transaction with todo := rest } :=
    ⟨(h.keys.view hget).devices, (h.keys.view hget).sessions⟩
  have hplaced := h.placed transaction (List.mem_of_getElem? hget)
  cases transaction with
  | mk userId begunAt own todo deviceTimes sessionTimes running =>
    obtain rfl : todo = statement :: rest := htodo
    exact hexecution.placed hview hplaced

theorem Related.committed (h : Related database) (hget : database.transactions[index]? = some transaction)
    (htodo : transaction.todo = []) : Linked (transaction.own.over database.committed) ∧
      ∀ event ∈ (transaction.own.over database.committed).events,
        ∃ row ∈ (transaction.own.over database.committed).streamFacts, FactsOf event row := by
  have hplaced := h.placed transaction (List.mem_of_getElem? hget)
  refine ⟨hplaced.linked.over h.linked (h.extends hget), fun event hevent => ?_⟩
  obtain hold | hnew := List.mem_append.mp hevent
  · obtain ⟨row, hrow, hof⟩ := h.facts event hold
    exact ⟨row, List.mem_append_left _ hrow, hof⟩
  · obtain ⟨row, hrow, hof⟩ | ⟨delivery, howed, -⟩ := hplaced.facts event hnew
    · exact ⟨row, List.mem_append_right _ hrow, hof⟩
    · rw [htodo] at howed
      exact absurd howed List.not_mem_nil

theorem placed_begun (userId : Uuid) (begunAt : ℤ) (request : IngestEventsRequest)
    (validatedAttachments : List (List ValidatedImageAttachment)) (draws : Draws) :
    Transaction.Placed { userId, begunAt, todo := statements request validatedAttachments draws } := by
  refine ⟨⟨by simp, by simp, by simp, by simp, by simp, by simp⟩, fun statement hstatement => ?_, by simp⟩
  obtain hevents | hcaptures := List.mem_append.mp hstatement
  · obtain ⟨_, -, rfl⟩ := List.mem_map.mp hevents
    trivial
  · obtain ⟨_, -, rfl⟩ := List.mem_map.mp hcaptures
    trivial

variable [Base64]

theorem Related.step {before after : Database} {action : IngestAction} (h : Related before)
    (hstep : before.Stepped action after) : Related after := by
  have hkeys := h.keys.step hstep
  cases hstep with
  | begin request userId maxBatchSize draws begunAt validatedAttachments hvalid huser =>
    refine ⟨hkeys, h.linked, h.facts, fun transaction hmem => ?_⟩
    obtain hold | hnew := List.mem_append.mp hmem
    · exact h.placed transaction hold
    · obtain rfl := List.mem_singleton.mp hnew
      exact placed_begun ..
  | statement index transaction after statement rest hget htodo hexecuted =>
    refine ⟨hkeys, h.linked, h.facts, fun other hmem => ?_⟩
    obtain hold | rfl := List.mem_or_eq_of_mem_set hmem
    · exact h.placed other hold
    · exact h.placed_statement hget htodo (execution hexecuted)
  | commit index transaction hget hrunning htodo =>
    obtain ⟨hlinked, hfacts⟩ := h.committed hget htodo
    refine ⟨hkeys, hlinked, hfacts, fun other hmem => ?_⟩
    obtain hold | rfl := List.mem_or_eq_of_mem_set hmem
    · exact h.placed other hold
    · exact transaction.placed_ended
  | abort index transaction hget hrunning =>
    refine ⟨hkeys, h.linked, h.facts, fun other hmem => ?_⟩
    obtain hold | rfl := List.mem_or_eq_of_mem_set hmem
    · exact h.placed other hold
    · exact transaction.placed_ended

end Steps

section Runs

variable [Base64] {start database : Database}

theorem Integral.related_along (hstart : Integral start.committed) (hrest : start.transactions = [])
    (h : Reaches Database.step anyStep start database) : Related database :=
  h.invariant (hstart.related hrest) fun _ _ _ hbefore _ hstep => hbefore.step (Database.stepped hstep)

end Runs

theorem integral_none : Integral {} where
  deviceIds := List.nodup_nil
  deviceKeys := List.nodup_nil
  sessionIds := List.nodup_nil
  sessionKeys := List.nodup_nil
  eventPks := List.nodup_nil
  eventIds := List.nodup_nil
  factsPks := List.nodup_nil
  attachmentIds := List.nodup_nil
  attachmentPlaces := List.nodup_nil
  captureIds := List.nodup_nil
  captureKeys := List.nodup_nil
  captureEvents := List.nodup_nil
  linked := ⟨by simp, by simp, by simp, by simp, by simp, by simp⟩
  facts := by simp
  deviceTimes := by simp
  sessionTimes := by simp

end Tables

section Overlap

open Fixtures

local instance overlapDigest : Sha256 := cargoDigest

local instance overlapContent : Base64 := noContent

def requestAt (eventId : String) (second : ℤ) (captures : List IngestDiagnosticCapture) : IngestEventsRequest where
  events := [{ event eventId second .request [] with conversation := none }]
  diagnosticCaptures := captures

/-- Two ingests into one session; the second begins too, and waits for the session until the first has committed. -/
def overlap : List IngestAction :=
  [.begin (requestAt "e1" 1 []) 7 100 (drawsFrom 10) 0,
    .begin (requestAt "e0" 0 [captureOf "c1" ["e0"]]) 7 100 (drawsFrom 20) 0, .statement 1] ++
    List.replicate 7 (.statement 0) ++ [.commit 0] ++ List.replicate 9 (.statement 1) ++ [.commit 1]

def overlapped : Database := (run Database.step anyStep overlap newDatabase).getD newDatabase

theorem overlap_run : run Database.step anyStep overlap newDatabase = some overlapped := by
  have hran : (run Database.step anyStep overlap newDatabase).isSome = true := by decide +kernel
  obtain ⟨database, hrun⟩ := Option.isSome_iff_exists.mp hran
  rw [overlapped, hrun, Option.getD_some]

end Overlap

end AbyssBackend.Postgres
