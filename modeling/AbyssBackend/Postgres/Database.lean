import AbyssBackend.Postgres.Ingest

namespace AbyssBackend.Postgres

open Attachments Drafts Storage Streams Text

structure Draws where
  event : ℕ → EventDraw
  outboxId : ℕ → ℤ
  capture : ℕ → CaptureDraw

structure Database where
  users : List Uuid
  committed : Tables
  transactions : List Transaction := []

inductive IngestAction
  | begin (request : IngestEventsRequest) (userId : Uuid) (maxBatchSize : ℕ) (draws : Draws) (begunAt : ℤ)
  | statement (index : ℕ)
  | commit (index : ℕ)
  | abort (index : ℕ)

/-- The statements of a batch, event by event and then capture by capture. -/
def statements (request : IngestEventsRequest) (validatedAttachments : List (List ValidatedImageAttachment))
    (draws : Draws) : List Statement :=
  ((request.events.zip validatedAttachments).zipIdx.map fun ((event, attachments), index) =>
    .selectEvent ⟨event, attachments, draws.event index, draws.outboxId index⟩) ++
  request.diagnosticCaptures.zipIdx.map fun (capture, index) => .selectCaptureEvents capture (draws.capture index)

def Transaction.ended (transaction : Transaction) : Transaction :=
  { transaction with
    own := {}
    todo := []
    deviceTimes := []
    sessionTimes := []
    running := false }

def Database.others (database : Database) (index : ℕ) : List Tables :=
  (database.transactions.eraseIdx index).map Transaction.own

section Step

variable [Sha256] [Base64]

/-- One step of one ingest; whatever would wait or fail is no step, and a failed ingest aborts. -/
def Database.step (database : Database) : IngestAction → Option Database
  | .begin request userId maxBatchSize draws begunAt =>
    match validateBatch request maxBatchSize with
    | .error _ => none
    | .ok validatedAttachments =>
      if database.users.contains userId then
        some { database with transactions := database.transactions ++
          [{ userId, begunAt, todo := statements request validatedAttachments draws }] }
      else none
  | .statement index =>
    match database.transactions[index]? with
    | none => none
    | some transaction =>
      match transaction.todo with
      | [] => none
      | statement :: rest =>
        (execute (database.others index) database.committed { transaction with todo := rest } statement).map
          fun after => { database with transactions := database.transactions.set index after }
  | .commit index =>
    match database.transactions[index]? with
    | none => none
    | some transaction =>
      if transaction.running && transaction.todo.isEmpty then
        some { database with
          committed := transaction.own.over database.committed
          transactions := database.transactions.set index transaction.ended }
      else none
  | .abort index =>
    match database.transactions[index]? with
    | none => none
    | some transaction =>
      if transaction.running then
        some { database with transactions := database.transactions.set index transaction.ended }
      else none

/-- All that a step can do. -/
inductive Database.Stepped (before : Database) : IngestAction → Database → Prop
  | begin (request : IngestEventsRequest) (userId : Uuid) (maxBatchSize : ℕ) (draws : Draws) (begunAt : ℤ)
      (validatedAttachments : List (List ValidatedImageAttachment))
      (hvalid : validateBatch request maxBatchSize = .ok validatedAttachments) (huser : userId ∈ before.users) :
      Stepped before (.begin request userId maxBatchSize draws begunAt)
        { before with transactions := before.transactions ++
          [{ userId, begunAt, todo := statements request validatedAttachments draws }] }
  | statement (index : ℕ) (transaction after : Transaction) (statement : Statement) (rest : List Statement)
      (hget : before.transactions[index]? = some transaction) (htodo : transaction.todo = statement :: rest)
      (hexecute : execute (before.others index) before.committed { transaction with todo := rest } statement =
        some after) :
      Stepped before (.statement index) { before with transactions := before.transactions.set index after }
  | commit (index : ℕ) (transaction : Transaction) (hget : before.transactions[index]? = some transaction)
      (hrunning : transaction.running = true) (htodo : transaction.todo = []) :
      Stepped before (.commit index) { before with
        committed := transaction.own.over before.committed
        transactions := before.transactions.set index transaction.ended }
  | abort (index : ℕ) (transaction : Transaction) (hget : before.transactions[index]? = some transaction)
      (hrunning : transaction.running = true) :
      Stepped before (.abort index) { before with
        transactions := before.transactions.set index transaction.ended }

theorem Database.stepped {before after : Database} {action : IngestAction} (h : before.step action = some after) :
    before.Stepped action after := by
  cases action with
  | begin request userId maxBatchSize draws begunAt =>
    simp only [Database.step] at h
    split at h
    · cases h
    · split at h
      · next huser =>
        cases h
        exact .begin request userId maxBatchSize draws begunAt _ ‹_› (List.contains_iff_mem.mp huser)
      · cases h
  | statement index =>
    simp only [Database.step] at h
    split at h
    · cases h
    · split at h
      · cases h
      · obtain ⟨transaction, hexecute, rfl⟩ := Option.map_eq_some_iff.mp h
        exact .statement index _ transaction _ _ ‹_› ‹_› hexecute
  | commit index =>
    simp only [Database.step] at h
    split at h
    · cases h
    · split at h
      · next hready =>
        cases h
        obtain ⟨hrunning, htodo⟩ := Bool.and_eq_true_iff.mp hready
        exact .commit index _ ‹_› hrunning (List.isEmpty_iff.mp htodo)
      · cases h
  | abort index =>
    simp only [Database.step] at h
    split at h
    · cases h
    · split at h
      · cases h
        exact .abort index _ ‹_› ‹_›
      · cases h

end Step

section Drafted

variable {γ : Type} [Inhabited γ] {draft : Transaction → γ} {transactions : List Transaction} {index : ℕ}
  {transaction after : Transaction}

/-- What is drafted by each transaction. -/
def drafts (draft : Transaction → γ) (transactions : List Transaction) (index : ℕ) : γ :=
  (transactions[index]?.map draft).getD default

theorem drafts_get (hget : transactions[index]? = some transaction) :
    drafts draft transactions index = draft transaction := by
  simp [drafts, hget]

theorem drafts_set (hget : transactions[index]? = some transaction) :
    drafts draft (transactions.set index after) = Function.update (drafts draft transactions) index (draft after) := by
  funext i
  have hlength : index < transactions.length := (List.getElem?_eq_some_iff.mp hget).1
  by_cases hi : i = index
  · subst hi
    rw [Function.update_self, drafts, List.getElem?_set_self hlength]
    rfl
  · rw [Function.update_of_ne hi, drafts, List.getElem?_set_ne (Ne.symm hi)]
    rfl

theorem drafts_same (hget : transactions[index]? = some transaction) (hsame : draft after = draft transaction) :
    drafts draft (transactions.set index after) = drafts draft transactions := by
  have hdraft : drafts draft transactions index = draft transaction := drafts_get hget
  rw [drafts_set hget, hsame, ← hdraft, Function.update_eq_self]

theorem drafts_concat (hempty : draft transaction = default) :
    drafts draft (transactions ++ [transaction]) = drafts draft transactions := by
  funext i
  unfold drafts
  rcases lt_trichotomy i transactions.length with hi | rfl | hi
  · rw [List.getElem?_append_left hi]
  · simp [hempty]
  · rw [List.getElem?_eq_none (by simp; omega), List.getElem?_eq_none (by omega)]

variable {database : Database} {ρ : Type} {P : ρ → Prop} {f : γ → List ρ} {table : Tables → List ρ}

/-- What holds of the rows that other transactions have written holds of the rows of every other draft. -/
theorem drafts_others (hrows : ∀ transaction, f (draft transaction) = table transaction.own)
    (hnone : f default = []) (h : ∀ own ∈ database.others index, ∀ row ∈ table own, P row) {i : ℕ}
    (hi : i ≠ index) : ∀ row ∈ f (drafts draft database.transactions i), P row := by
  intro row hrow
  unfold drafts at hrow
  cases hget : database.transactions[i]? with
  | none => simp [hget, hnone] at hrow
  | some transaction =>
    rw [hget, Option.map_some, Option.getD_some, hrows] at hrow
    refine h transaction.own ?_ row hrow
    unfold Database.others
    exact List.mem_map_of_mem (List.mem_eraseIdx_iff_getElem?.mpr ⟨i, hi, hget⟩)

theorem drafts_all {committed : Tables} (hrows : ∀ transaction, f (draft transaction) = table transaction.own)
    (hnone : f default = []) (hget : database.transactions[index]? = some transaction)
    (h : ∀ tables ∈ transaction.own :: committed :: database.others index, ∀ row ∈ table tables, P row) (i : ℕ) :
    ∀ row ∈ f (drafts draft database.transactions i), P row := by
  by_cases hi : i = index
  · subst hi
    rw [drafts_get hget, hrows]
    exact h _ List.mem_cons_self
  · exact drafts_others hrows hnone
      (fun own hown => h own (List.mem_cons_of_mem _ (List.mem_cons_of_mem _ hown))) hi

end Drafted

section Execute

variable {others : List Tables} {committed : Tables} {transaction after : Transaction}

/-- What a device's upsert can do: fold a time into a row the transaction sees, or make a new one. -/
inductive DeviceUpserted (others : List Tables) (committed : Tables) (transaction : Transaction)
    (delivery : Delivery) : DeviceRow → Prop
  | known (existing : DeviceRow) (hmem : existing ∈ (view committed transaction).devices)
      (hfree : ∀ own ∈ others, ∀ row ∈ own.devices, row.key ≠ existing.key) :
      DeviceUpserted others committed transaction delivery
        (seenDevice existing delivery.event delivery.observedAt delivery.draw existing)
  | new (hkey : (newDevice transaction.userId delivery.event delivery.observedAt delivery.draw).key ∉
        (view committed transaction).devices.map DeviceRow.key)
      (hfree : ∀ own ∈ others, ∀ row ∈ own.devices,
        row.key ≠ (newDevice transaction.userId delivery.event delivery.observedAt delivery.draw).key)
      (hid : ∀ tables ∈ transaction.own :: committed :: others, ∀ row ∈ tables.devices,
        row.id ≠ delivery.draw.deviceId) :
      DeviceUpserted others committed transaction delivery
        (newDevice transaction.userId delivery.event delivery.observedAt delivery.draw)

inductive SessionUpserted (others : List Tables) (committed : Tables) (transaction : Transaction) (deviceId : Uuid)
    (delivery : Delivery) : SessionRow → Prop
  | known (existing : SessionRow) (hmem : existing ∈ (view committed transaction).sessions)
      (hfree : ∀ own ∈ others, ∀ row ∈ own.sessions, row.key ≠ existing.key) :
      SessionUpserted others committed transaction deviceId delivery
        (seenSession existing deviceId delivery.event delivery.observedAt delivery.draw existing)
  | new (hkey : (newSession transaction.userId deviceId delivery.event delivery.observedAt delivery.draw).key ∉
        (view committed transaction).sessions.map SessionRow.key)
      (hfree : ∀ own ∈ others, ∀ row ∈ own.sessions,
        row.key ≠ (newSession transaction.userId deviceId delivery.event delivery.observedAt delivery.draw).key)
      (hid : ∀ tables ∈ transaction.own :: committed :: others, ∀ row ∈ tables.sessions,
        row.id ≠ delivery.draw.sessionPk) :
      SessionUpserted others committed transaction deviceId delivery
        (newSession transaction.userId deviceId delivery.event delivery.observedAt delivery.draw)

theorem pending_eq_false {ρ : Type} {table : Tables → List ρ} {p : ρ → Bool} (h : ¬pending others table p = true) :
    ∀ own ∈ others, ∀ row ∈ table own, p row = false := by
  intro own hown row hrow
  apply Bool.eq_false_iff.mpr
  intro hp
  exact h (List.any_eq_true.mpr ⟨own, hown, List.any_eq_true.mpr ⟨row, hrow, hp⟩⟩)

theorem unused_iff {ρ : Type} {own : Tables} {table : Tables → List ρ} {p : ρ → Bool} :
    unused others committed own table p = true ↔
      ∀ tables ∈ own :: committed :: others, ∀ row ∈ table tables, p row = false := by
  simp only [unused, Bool.not_eq_true', List.any_eq_false, Bool.not_eq_true]

theorem upsertDevice_spec {delivery : Delivery} {row : DeviceRow}
    (h : upsertDevice others committed transaction delivery = some row) :
    DeviceUpserted others committed transaction delivery row := by
  unfold upsertDevice at h
  dsimp only at h
  split at h
  · cases h
  · next hpending =>
    have hfree := pending_eq_false hpending
    split at h
    · next existing hfind =>
      cases h
      obtain ⟨hmem, hkey⟩ := Rows.find_mem hfind
      refine .known existing hmem fun own hown row hrow => ?_
      rw [hkey]
      exact ne_of_beq_false (hfree own hown row hrow)
    · next hfind =>
      split at h
      · next hunused =>
        cases h
        refine .new (Rows.find_none hfind) (fun own hown row hrow => ne_of_beq_false (hfree own hown row hrow)) ?_
        intro tables htables row hrow
        exact ne_of_beq_false (unused_iff.mp hunused tables htables row hrow)
      · cases h

theorem upsertSession_spec {deviceId : Uuid} {delivery : Delivery} {row : SessionRow}
    (h : upsertSession others committed transaction deviceId delivery = some row) :
    SessionUpserted others committed transaction deviceId delivery row := by
  unfold upsertSession at h
  dsimp only at h
  split at h
  · cases h
  · next hpending =>
    have hfree := pending_eq_false hpending
    split at h
    · next existing hfind =>
      cases h
      obtain ⟨hmem, hkey⟩ := Rows.find_mem hfind
      refine .known existing hmem fun own hown row hrow => ?_
      rw [hkey]
      exact ne_of_beq_false (hfree own hown row hrow)
    · next hfind =>
      split at h
      · next hunused =>
        cases h
        refine .new (Rows.find_none hfind) (fun own hown row hrow => ne_of_beq_false (hfree own hown row hrow)) ?_
        intro tables htables row hrow
        exact ne_of_beq_false (unused_iff.mp hunused tables htables row hrow)
      · cases h

end Execute

end AbyssBackend.Postgres
