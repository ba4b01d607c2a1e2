import AbyssBackend.Postgres.Evidence
import AbyssBackend.Storage.Captures

namespace AbyssBackend.Postgres

open Conflicts Search Storage Streams Text

section Execute

variable {others : List Tables} {committed : Tables} {transaction after : Transaction} {statement : Statement}

def Statement.ofCapture : Statement → Bool
  | .selectCaptureEvents .. | .insertCapture .. | .insertCaptureEvents .. => true
  | _ => false

/-- A statement of an event leaves the captures, and puts only statements of the event before the others. -/
structure Ahead (before after : Transaction) : Prop where
  userId : after.userId = before.userId
  captures : after.own.captures = before.own.captures
  todo : ∃ pushed, (∀ statement ∈ pushed, statement.ofCapture = false) ∧ after.todo = pushed ++ before.todo

theorem ahead [Sha256] (hevent : statement.ofCapture = false)
    (h : execute others committed transaction statement = some after) :
    Ahead transaction after := by
  have hnone : ∃ pushed : List Statement, (∀ statement ∈ pushed, statement.ofCapture = false) ∧
      transaction.todo = pushed ++ transaction.todo := ⟨[], by simp, rfl⟩
  cases statement with
  | selectEvent delivery =>
    simp only [execute] at h
    split at h <;> cases h
    · exact ⟨rfl, rfl, hnone⟩
    · exact ⟨rfl, rfl, [.upsertDevice delivery], by simp [Statement.ofCapture], rfl⟩
  | upsertDevice delivery =>
    obtain ⟨row, -, rfl⟩ := Option.map_eq_some_iff.mp h
    exact ⟨rfl, rfl, [.upsertSession row.id delivery], by simp [Statement.ofCapture], rfl⟩
  | upsertSession deviceId delivery =>
    obtain ⟨row, -, rfl⟩ := Option.map_eq_some_iff.mp h
    exact ⟨rfl, rfl, [.insertEvent deviceId row.id delivery], by simp [Statement.ofCapture], rfl⟩
  | insertEvent deviceId sessionPk delivery =>
    obtain ⟨inserted, -, rfl⟩ := Option.map_eq_some_iff.mp h
    split
    · refine ⟨rfl, rfl, (if delivery.attachments.isEmpty then [] else [.insertAttachments delivery]) ++
        [.insertStreamFacts delivery, .insertOutboxTask delivery, .captureTitle sessionPk delivery], ?_, rfl⟩
      cases delivery.attachments <;> simp [Statement.ofCapture]
    · exact ⟨rfl, rfl, hnone⟩
  | insertAttachments delivery =>
    simp only [execute] at h
    split at h <;> cases h
    exact ⟨rfl, rfl, hnone⟩
  | insertStreamFacts delivery =>
    simp only [execute] at h
    split at h <;> cases h
    exact ⟨rfl, rfl, hnone⟩
  | insertOutboxTask delivery =>
    simp only [execute] at h
    split at h <;> cases h
    exact ⟨rfl, rfl, hnone⟩
  | captureTitle sessionPk delivery =>
    obtain ⟨title, -, rfl⟩ := Option.map_eq_some_iff.mp h
    exact ⟨rfl, rfl, hnone⟩
  | selectCaptureEvents capture draw => cases hevent
  | insertCapture capture draw first events => cases hevent
  | insertCaptureEvents draw events => cases hevent

def storedKeys (committed : Tables) (transaction : Transaction) : List (Uuid × String) :=
  (view committed transaction).captures.map DiagnosticCapture.key

theorem insertCapture_new {row : DiagnosticCapture} {new : Bool}
    (h : insertCapture others committed transaction row = some new) :
    new = true ↔ row.key ∉ storedKeys committed transaction := by
  have hmem : (view committed transaction).captures.any (fun other => other.key == row.key) = true ↔
      row.key ∈ storedKeys committed transaction := Rows.any_key
  rw [← hmem]
  unfold insertCapture at h
  split at h
  · cases h
  · split at h
    · next hknown =>
      cases h
      simp [hknown]
    · next hfree =>
      split at h <;> cases h
      simp [hfree]

/-- What a statement has a capture counted as. -/
def counts (others : List Tables) (committed : Tables) (transaction : Transaction) :
    Statement → List (IngestDiagnosticCapture × Bool)
  | .insertCapture capture draw first _ =>
    let row := newCapture transaction.userId capture draw first
    ((insertCapture others committed transaction row).map (capture, ·)).toList
  | _ => []

theorem storedKeys_eq (h : after.own.captures = transaction.own.captures) :
    storedKeys committed after = storedKeys committed transaction := by
  simp only [storedKeys, view, Tables.over, h]

theorem storedKeys_fresh (h : transaction.own = {}) :
    storedKeys committed transaction = committed.captures.map DiagnosticCapture.key := by
  simp only [storedKeys, view, Tables.over, h, List.append_nil]

theorem storedKeys_concat {row : DiagnosticCapture} {new : Uuid × String}
    (h : after.own.captures = transaction.own.captures ++ [row]) (hnew : row.key = new) (key : Uuid × String) :
    key ∈ storedKeys committed after ↔ key = new ∨ key ∈ storedKeys committed transaction := by
  have hview : (view committed after).captures = (view committed transaction).captures ++ [row] := by
    simp only [view, Tables.over, h, List.append_assoc]
  rw [storedKeys, hview, List.map_append, List.mem_append, or_comm, List.map_singleton, List.mem_singleton, hnew,
    storedKeys]

variable [Sha256] {capture : IngestDiagnosticCapture} {draw : CaptureDraw}

theorem selectCaptureEvents_spec
    (h : execute others committed transaction (.selectCaptureEvents capture draw) = some after) :
    ∃ first events, after.todo = .insertCapture capture draw first events :: transaction.todo ∧
      after.userId = transaction.userId ∧ after.own.captures = transaction.own.captures := by
  obtain ⟨found, -, rfl⟩ := Option.map_eq_some_iff.mp h
  exact ⟨found.1, found.2, rfl, rfl, rfl⟩

theorem insertCaptureEvents_spec {events : List EventRow}
    (h : execute others committed transaction (.insertCaptureEvents draw events) = some after) :
    after.todo = transaction.todo ∧ after.userId = transaction.userId ∧
      after.own.captures = transaction.own.captures := by
  simp only [execute] at h
  split at h <;> cases h
  exact ⟨rfl, rfl, rfl⟩

theorem insertCapture_spec {first : EventRow} {events : List EventRow}
    (h : execute others committed transaction (.insertCapture capture draw first events) = some after) :
    ∃ new, counts others committed transaction (.insertCapture capture draw first events) = [(capture, new)] ∧
      after.userId = transaction.userId ∧
      (new = true ↔ captureKey transaction.userId capture ∉ storedKeys committed transaction) ∧
      (∀ key, key ∈ storedKeys committed after ↔
        key = captureKey transaction.userId capture ∨ key ∈ storedKeys committed transaction) ∧
      (after.todo = .insertCaptureEvents draw events :: transaction.todo ∨ after.todo = transaction.todo) := by
  obtain ⟨new, hnew, hafter⟩ := Option.map_eq_some_iff.mp h
  have hiff := insertCapture_new hnew
  refine ⟨new, ?_, ?_⟩
  · rw [counts, hnew]
    rfl
  · cases new with
    | true =>
      rw [if_pos rfl] at hafter
      cases hafter
      exact ⟨rfl, hiff, storedKeys_concat rfl rfl, Or.inl rfl⟩
    | false =>
      rw [if_neg Bool.false_ne_true] at hafter
      cases hafter
      have hknown : captureKey transaction.userId capture ∈ storedKeys committed transaction := by
        by_contra hfree
        exact Bool.false_ne_true (hiff.mpr hfree)
      exact ⟨rfl, hiff, fun key => (or_iff_right_of_imp fun hsame => hsame ▸ hknown).symm, Or.inr rfl⟩

end Execute

section Runs

variable [Sha256] {others : List Tables} {committed : Tables} {transaction after : Transaction}
  {counted : List (IngestDiagnosticCapture × Bool)}

/-- A transaction runs some of its statements, and its captures are counted. -/
inductive Transaction.Runs (others : List Tables) (committed : Tables) :
    Transaction → List (IngestDiagnosticCapture × Bool) → Transaction → Prop
  | done (transaction : Transaction) : Runs others committed transaction [] transaction
  | statement {transaction middle after : Transaction} {statement : Statement} {rest : List Statement}
      {counted : List (IngestDiagnosticCapture × Bool)} (htodo : transaction.todo = statement :: rest)
      (hexecute : execute others committed { transaction with todo := rest } statement = some middle)
      (hrest : Runs others committed middle counted after) :
      Runs others committed transaction (counts others committed { transaction with todo := rest } statement ++ counted)
        after

omit [Sha256] in
theorem counts_event {statement : Statement} (h : statement.ofCapture = false) :
    counts others committed transaction statement = [] := by
  cases statement <;> first | rfl | cases h

/-- The statements of the events are run before those of the captures, and count none. -/
theorem Transaction.Runs.events (h : transaction.Runs others committed counted after) {front back : List Statement}
    (htodo : transaction.todo = front ++ back) (hfront : ∀ statement ∈ front, statement.ofCapture = false)
    (hdone : after.todo = []) : ∃ middle : Transaction, middle.todo = back ∧ middle.userId = transaction.userId ∧
      middle.own.captures = transaction.own.captures ∧ middle.Runs others committed counted after := by
  induction h generalizing front with
  | done transaction =>
    obtain ⟨-, rfl⟩ := List.append_eq_nil_iff.mp (htodo.symm.trans hdone)
    exact ⟨transaction, hdone, rfl, rfl, .done transaction⟩
  | @statement transaction middle after statement rest counted hfirst hexecute hrest ih =>
    cases front with
    | nil => exact ⟨transaction, htodo, rfl, rfl, .statement hfirst hexecute hrest⟩
    | cons other front =>
      obtain ⟨rfl, rfl⟩ := List.cons.inj (hfirst.symm.trans htodo)
      obtain ⟨hevent, hevents⟩ := List.forall_mem_cons.mp hfront
      have hahead := ahead hevent hexecute
      obtain ⟨pushed, hpushed, hafter⟩ := hahead.todo
      have hmiddle : middle.todo = (pushed ++ front) ++ back := by simp [hafter]
      obtain ⟨reached, hreached, huser, hcaptures, hruns⟩ :=
        ih hmiddle (List.forall_mem_append.mpr ⟨hpushed, hevents⟩) hdone
      rw [counts_event hevent, List.nil_append]
      exact ⟨reached, hreached, huser.trans hahead.userId, hcaptures.trans hahead.captures, hruns⟩

theorem Transaction.Runs.first {statement : Statement} {rest : List Statement}
    (h : transaction.Runs others committed counted after) (htodo : transaction.todo = statement :: rest)
    (hdone : after.todo = []) : ∃ (middle : Transaction) (later : List (IngestDiagnosticCapture × Bool)),
      execute others committed { transaction with todo := rest } statement = some middle ∧
      counted = counts others committed { transaction with todo := rest } statement ++ later ∧
      middle.Runs others committed later after := by
  cases h with
  | done => exact absurd (htodo.symm.trans hdone) (List.cons_ne_nil _ _)
  | statement hfirst hexecute hruns =>
    obtain ⟨rfl, rfl⟩ := List.cons.inj (hfirst.symm.trans htodo)
    exact ⟨_, _, hexecute, rfl, hruns⟩

theorem Transaction.Runs.capture {capture : IngestDiagnosticCapture} {draw : CaptureDraw} {rest : List Statement}
    (h : transaction.Runs others committed counted after)
    (htodo : transaction.todo = .selectCaptureEvents capture draw :: rest) (hdone : after.todo = []) :
    ∃ (new : Bool) (middle : Transaction) (later : List (IngestDiagnosticCapture × Bool)),
      counted = (capture, new) :: later ∧ middle.todo = rest ∧ middle.userId = transaction.userId ∧
      (new = true ↔ captureKey transaction.userId capture ∉ storedKeys committed transaction) ∧
      (∀ key, key ∈ storedKeys committed middle ↔
        key = captureKey transaction.userId capture ∨ key ∈ storedKeys committed transaction) ∧
      middle.Runs others committed later after := by
  obtain ⟨selected, remaining, hselect, hcounted, hselected⟩ := h.first htodo hdone
  obtain ⟨first, events, hinsert, huser, hcaptures⟩ := selectCaptureEvents_spec hselect
  have huser : selected.userId = transaction.userId := huser
  have hstored : storedKeys committed selected = storedKeys committed transaction := storedKeys_eq hcaptures
  obtain ⟨written, later, hwrite, hremaining, hwritten⟩ := hselected.first hinsert hdone
  obtain ⟨new, hcounts, hsame, hnew, hkeys, hnext⟩ := insertCapture_spec hwrite
  have hcounted : counted = (capture, new) :: later := by
    rw [hcounted, hremaining, hcounts]
    rfl
  rw [← huser, ← hstored]
  rcases hnext with hnext | hnext
  · obtain ⟨linked, others, hlink, hlater, hlinked⟩ := hwritten.first hnext hdone
    obtain ⟨htodo, hlinker, hcaptures⟩ := insertCaptureEvents_spec hlink
    have hkept : storedKeys committed linked = storedKeys committed written := storedKeys_eq hcaptures
    refine ⟨new, linked, others, hcounted.trans (congrArg _ hlater), htodo, hlinker.trans hsame, hnew, ?_, hlinked⟩
    rw [hkept]
    exact hkeys
  · exact ⟨new, written, later, hcounted, hnext, hsame, hnew, hkeys, hwritten⟩

theorem Transaction.Runs.captures {captures : List IngestDiagnosticCapture} {draws : ℕ → CaptureDraw} {index : ℕ}
    (h : transaction.Runs others committed counted after)
    (htodo : transaction.todo = (captures.zipIdx index).map fun (capture, index) =>
      .selectCaptureEvents capture (draws index)) (hdone : after.todo = []) :
    counted = captures.zip (inserted (storedKeys committed transaction)
      (captures.map (captureKey transaction.userId))) := by
  induction captures generalizing transaction counted index with
  | nil =>
    cases h with
    | done => rfl
    | statement hfirst hexecute hruns => cases hfirst.symm.trans htodo
  | cons capture captures ih =>
    obtain ⟨new, middle, later, rfl, hmiddle, huser, hnew, hkeys, hruns⟩ := h.capture htodo hdone
    rw [List.map_cons, inserted_cons hnew hkeys, List.zip_cons_cons, ih hruns hmiddle, huser]

end Runs

section Databases

variable [Sha256] [Base64] {before after : Database} {index : ℕ} {counted : List (IngestDiagnosticCapture × Bool)}

/-- What the next statement of an ingest has a capture counted as. -/
def Database.counts (database : Database) (index : ℕ) : List (IngestDiagnosticCapture × Bool) :=
  match database.transactions[index]? with
  | none => []
  | some transaction =>
    match transaction.todo with
    | [] => []
    | statement :: rest =>
      Postgres.counts (database.others index) database.committed { transaction with todo := rest } statement

/-- One client's ingest runs statements while no other client does anything. -/
inductive Database.Executes (index : ℕ) : Database → List (IngestDiagnosticCapture × Bool) → Database → Prop
  | done (database : Database) : Executes index database [] database
  | statement {before middle after : Database} {counted : List (IngestDiagnosticCapture × Bool)}
      (hstep : before.step (.statement index) = some middle) (hrest : Executes index middle counted after) :
      Executes index before (before.counts index ++ counted) after

/-- A batch is ingested, from the begin of its transaction to its commit, and its captures are counted. -/
def Database.Ingests (before : Database) (request : IngestEventsRequest) (userId : Uuid) (maxBatchSize : ℕ)
    (draws : Draws) (begunAt : ℤ) (counted : List (IngestDiagnosticCapture × Bool)) (after : Database) : Prop :=
  ∃ begun executed, before.step (.begin request userId maxBatchSize draws begunAt) = some begun ∧
    begun.Executes before.transactions.length counted executed ∧
    executed.step (.commit before.transactions.length) = some after

omit [Sha256] [Base64] in
theorem Database.others_set (transaction : Transaction) :
    Database.others { before with transactions := before.transactions.set index transaction } index =
      before.others index := by
  simp only [Database.others, List.eraseIdx_set_eq]

theorem Database.Executes.runs {transaction : Transaction} (h : before.Executes index counted after)
    (hget : before.transactions[index]? = some transaction) : ∃ ran, after.transactions[index]? = some ran ∧
      transaction.Runs (before.others index) before.committed counted ran := by
  induction h generalizing transaction with
  | done database => exact ⟨transaction, hget, .done transaction⟩
  | @statement before middle after counted hstep hrest ih =>
    cases Database.stepped hstep with
    | statement _ current next statement rest hcurrent htodo hexecute =>
      cases hcurrent.symm.trans hget
      have hlength : index < before.transactions.length := (List.getElem?_eq_some_iff.mp hget).1
      obtain ⟨ran, hran, hruns⟩ := ih (List.getElem?_set_self hlength)
      rw [Database.others_set] at hruns
      have hcounts : before.counts index =
          Postgres.counts (before.others index) before.committed { transaction with todo := rest } statement := by
        simp only [Database.counts, hget, htodo]
      rw [hcounts]
      exact ⟨ran, hran, .statement htodo hexecute hruns⟩

variable {request : IngestEventsRequest} {userId : Uuid} {maxBatchSize : ℕ} {draws : Draws} {begunAt : ℤ}

theorem Database.Ingests.captures (h : before.Ingests request userId maxBatchSize draws begunAt counted after) :
    counted = request.diagnosticCaptures.zip (inserted (before.committed.captures.map DiagnosticCapture.key)
      (request.diagnosticCaptures.map (captureKey userId))) := by
  obtain ⟨begun, executed, hbegin, hexecutes, hcommit⟩ := h
  cases Database.stepped hbegin with
  | begin _ _ _ _ _ validated hvalid huser =>
    obtain ⟨ran, hran, hruns⟩ := hexecutes.runs List.getElem?_concat_length
    cases Database.stepped hcommit with
    | commit _ transaction hget hrunning htodo =>
      cases hget.symm.trans hran
      obtain ⟨middle, hmiddle, hsame, hcaptures, hruns⟩ := hruns.events rfl (by
        intro statement hmem
        obtain ⟨item, -, rfl⟩ := List.mem_map.mp hmem
        rfl) htodo
      have hstored := hruns.captures hmiddle htodo
      rw [storedKeys_eq hcaptures, hsame, storedKeys_fresh rfl] at hstored
      exact hstored

theorem Database.Ingests.captures_kept_iff
    (h : before.Ingests request userId maxBatchSize draws begunAt counted after) :
    counted.map Prod.fst = request.diagnosticCaptures ∧
      ((∀ item ∈ counted, item.2 = false →
        captureKey userId item.1 ∈ before.committed.captures.map DiagnosticCapture.key) ↔
          CapturesApart userId before.committed.captures request.diagnosticCaptures) := by
  rw [h.captures]
  refine ⟨List.map_fst_zip (by rw [inserted_length, List.length_map]), ?_⟩
  exact skipped_iff_apart (captureKey userId) _ _

/-- In either store a capture of an ingested batch is counted as a duplicate without having been stored before exactly
where two captures of the batch have one id once it is trimmed. -/
theorem duplicates_stored_iff [CaseMapping] :
    (∀ {store after : Store} {request : IngestEventsRequest} {userId : Uuid} {maxBatchSize : ℕ} {draws : Storage.Draws}
      {response : IngestEventsResponse}, Reachable store →
      ingestEvents request userId maxBatchSize draws store = .ok (response, after) →
      ∃ counted, captureOutcomes request userId maxBatchSize draws store = .ok counted ∧
        counted.map Prod.fst = request.diagnosticCaptures ∧
        response.acceptedDiagnosticCaptures = counted.countP Prod.snd ∧
        response.duplicateDiagnosticCaptures = (counted.countP fun item => !item.2) ∧
        ((∀ item ∈ counted, item.2 = false → captureKey userId item.1 ∈ store.captures.map DiagnosticCapture.key) ↔
          CapturesApart userId store.captures request.diagnosticCaptures)) ∧
    ∀ {before after : Database} {request : IngestEventsRequest} {userId : Uuid} {maxBatchSize : ℕ}
      {draws : Postgres.Draws} {begunAt : ℤ} {counted : List (IngestDiagnosticCapture × Bool)},
      before.Ingests request userId maxBatchSize draws begunAt counted after →
      counted.map Prod.fst = request.diagnosticCaptures ∧
        ((∀ item ∈ counted, item.2 = false →
          captureKey userId item.1 ∈ before.committed.captures.map DiagnosticCapture.key) ↔
            CapturesApart userId before.committed.captures request.diagnosticCaptures) :=
  ⟨fun h hok => h.captures_kept_iff hok, fun h => h.captures_kept_iff⟩

def Database.executed (index : ℕ) : ℕ → Database → List (IngestDiagnosticCapture × Bool) × Database
  | 0, database => ([], database)
  | fuel + 1, database =>
    match database.step (.statement index) with
    | none => ([], database)
    | some middle =>
      let (counted, after) := Database.executed index fuel middle
      (database.counts index ++ counted, after)

theorem Database.executes_executed (fuel : ℕ) (database : Database) :
    database.Executes index (database.executed index fuel).1 (database.executed index fuel).2 := by
  induction fuel generalizing database with
  | zero => exact .done database
  | succ fuel ih =>
    rw [Database.executed]
    split
    · exact .done database
    · next hstep => exact .statement hstep (ih _)

end Databases

section Batch

open Fixtures

local instance capturesDigest : Sha256 := cargoDigest

local instance capturesContent : Base64 := noContent

local instance capturesCase : CaseMapping := asciiCase

def capturedTwice (captureId other : String) : IngestEventsRequest where
  events := [event "e1" 1 .request []]
  diagnosticCaptures := [captureOf captureId ["e1"], captureOf other ["e1"]]

def emptyDatabase : Database where
  users := [1]
  committed := {}

def afterBegin (request : IngestEventsRequest) : Database :=
  (emptyDatabase.step (.begin request 1 10 (drawsFrom 10) 0)).getD emptyDatabase

def afterStatements (request : IngestEventsRequest) : List (IngestDiagnosticCapture × Bool) × Database :=
  (afterBegin request).executed 0 13

def afterCommit (request : IngestEventsRequest) : Database :=
  ((afterStatements request).2.step (.commit 0)).getD emptyDatabase

theorem ingests_capturedTwice {request : IngestEventsRequest}
    (hbegin : emptyDatabase.step (.begin request 1 10 (drawsFrom 10) 0) = some (afterBegin request))
    (hcommit : (afterStatements request).2.step (.commit 0) = some (afterCommit request)) :
    emptyDatabase.Ingests request 1 10 (drawsFrom 10) 0 (afterStatements request).1 (afterCommit request) :=
  ⟨_, _, hbegin, Database.executes_executed 13 _, hcommit⟩

def storeOf (request : IngestEventsRequest) : Store := afterIngest request 1 10 (draws 100) { users := [1] }

theorem capturedTwice_apart (stored : List DiagnosticCapture) :
    CapturesApart 1 stored (capturedTwice "c1" "c2").diagnosticCaptures := by
  refine List.pairwise_pair.mpr fun hsame => absurd hsame ?_
  have hfirst : captureKey 1 (captureOf "c1" ["e1"]) = (1, "c1") := rfl
  have hsecond : captureKey 1 (captureOf "c2" ["e1"]) = (1, "c2") := rfl
  rw [hfirst, hsecond]
  decide

set_option maxRecDepth 4000 in
theorem duplicates_stored_capturedTwice :
    (∃ counted, captureOutcomes (capturedTwice "c1" "c2") 1 10 (draws 100) { users := [1] } = .ok counted ∧
      ∀ item ∈ counted, item.2 = false → captureKey 1 item.1 ∈ []) ∧
    ∀ item ∈ (afterStatements (capturedTwice "c1" "c2")).1, item.2 = false →
      captureKey 1 item.1 ∈ emptyDatabase.committed.captures.map DiagnosticCapture.key := by
  have hok : ingestEvents (capturedTwice "c1" "c2") 1 10 (draws 100) { users := [1] } =
      .ok (⟨1, 0, 0, [], 2, 0⟩, storeOf (capturedTwice "c1" "c2")) := rfl
  obtain ⟨counted, hcounted, -, -, -, hiff⟩ := duplicates_stored_iff.1 (.start [1]) hok
  obtain ⟨-, hdatabase⟩ := duplicates_stored_iff.2 (@ingests_capturedTwice (capturedTwice "c1" "c2") rfl rfl)
  exact ⟨⟨counted, hcounted, hiff.mpr (capturedTwice_apart _)⟩, hdatabase.mpr (capturedTwice_apart _)⟩

set_option maxRecDepth 4000 in
/-- The second of two captures that arrive together is lost, though nothing was stored before. -/
theorem spacedCapture_dropped :
    (capturedTwice "c1" " c1 ").diagnosticCaptures.map IngestDiagnosticCapture.captureId = ["c1", " c1 "] ∧
    Reachable { users := [1] } ∧
    ingestEvents (capturedTwice "c1" " c1 ") 1 10 (draws 100) { users := [1] } =
      .ok (⟨1, 0, 0, [], 1, 1⟩, storeOf (capturedTwice "c1" " c1 ")) ∧
    emptyDatabase.Ingests (capturedTwice "c1" " c1 ") 1 10 (drawsFrom 10) 0
      [(captureOf "c1" ["e1"], true), (captureOf " c1 " ["e1"], false)] (afterCommit (capturedTwice "c1" " c1 ")) ∧
    emptyDatabase.committed.captures = [] :=
  ⟨rfl, .start [1], rfl, ingests_capturedTwice rfl rfl, rfl⟩

end Batch

end AbyssBackend.Postgres
