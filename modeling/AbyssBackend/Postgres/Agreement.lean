import AbyssBackend.Postgres.Twins

namespace AbyssBackend.Postgres

open Attachments Attempts Drafts Search Storage Streams Text

/-- One ingest request, with what it takes from outside. -/
structure Batch where
  request : IngestEventsRequest
  userId : Uuid
  maxBatchSize : ℕ
  draws : Draws
  begunAt : ℤ

/-- The draws with which SQLite ingests the batch: it titles sessions at the time PostgreSQL does. -/
def Batch.stored (batch : Batch) : Storage.Draws where
  event index := EventDraw.titled (batch.draws.event index) batch.begunAt
  capture := batch.draws.capture

/-- The times are kept alike in both databases, and no conversation has more entries than an index can count. -/
structure Batch.Portable (batch : Batch) : Prop where
  observed : ∀ event ∈ batch.request.events, Kept event.observedAt
  indexable : ∀ event ∈ batch.request.events, Indexable event
  captured : ∀ capture ∈ batch.request.diagnosticCaptures, Kept capture.capturedAt

def drawnFrom (draws : ℕ → CaptureDraw) (first count : ℕ) : List Uuid :=
  (List.range' first count).map fun index => (draws index).capturePk

/-- The keys that are drawn for the batch's captures. -/
def Batch.capturePks (batch : Batch) : List Uuid :=
  drawnFrom batch.draws.capture 0 batch.request.diagnosticCaptures.length

/-- The keys are of no capture yet. -/
structure Undrawn (pks : List Uuid) (store : Store) : Prop where
  captures : ∀ pk ∈ pks, pk ∉ store.captures.map DiagnosticCapture.id
  links : ∀ pk ∈ pks, pk ∉ store.captureEvents.map DiagnosticCaptureEvent.capturePk

section Draws

variable {pks : List Uuid} {store after : Store}

theorem Undrawn.ingestOneDiagnosticCapture {userId : Uuid} {capture : IngestDiagnosticCapture} {draw : CaptureDraw}
    {new : Bool} (h : Undrawn (draw.capturePk :: pks) store) (hapart : draw.capturePk ∉ pks)
    (hok : Storage.ingestOneDiagnosticCapture userId capture draw store = .ok (new, after)) : Undrawn pks after := by
  have hlater : Undrawn pks store :=
    ⟨fun pk hpk => h.captures pk (List.mem_cons_of_mem _ hpk), fun pk hpk => h.links pk (List.mem_cons_of_mem _ hpk)⟩
  obtain ⟨-, -, rfl⟩ | ⟨-, -, deviceId, sessionPk, rows, rfl⟩ := ingestOneDiagnosticCapture_cases hok
  · exact hlater
  · refine ⟨fun pk hpk hmem => ?_, fun pk hpk hmem => ?_⟩
    · rw [List.map_append, List.mem_append] at hmem
      obtain hold | hnew := hmem
      · exact hlater.captures pk hpk hold
      · obtain rfl : pk = draw.capturePk := List.mem_singleton.mp hnew
        exact hapart hpk
    · rw [List.map_append, List.map_map, List.mem_append] at hmem
      obtain hold | hnew := hmem
      · exact hlater.links pk hpk hold
      · obtain ⟨row, -, rfl⟩ := List.mem_map.mp hnew
        exact hapart hpk

/-- What the events of a batch leave for its captures. -/
theorem Undrawn.ingestEvents [Sha256] [CaseMapping] (h : Undrawn pks store) (hsound : Sound store) {userId : Uuid}
    {draws : ℕ → EventDraw} {items : List (IngestUsageEvent × List ValidatedImageAttachment)} {stop : Tally}
    (hok : ingestAll (fun item index => ingestOneEvent userId item.1 item.2 (draws index)) items store = .ok stop) :
    Sound stop.store ∧ stop.store.users = store.users ∧ Undrawn pks stop.store := by
  have hkept := ingestAll_keeps hok (P := fun after => Sound after ∧ after.users = store.users ∧
    after.captures = store.captures ∧ after.captureEvents = store.captureEvents) ⟨hsound, rfl, rfl, rfl⟩ ?_
  · obtain ⟨hsound, husers, hcaptures, hlinks⟩ := hkept
    exact ⟨hsound, husers, hcaptures ▸ h.captures, hlinks ▸ h.links⟩
  · rintro item index before new after ⟨hbefore, husers, hcaptures, hlinks⟩ hone
    refine ⟨hbefore.ingestOneEvent hone, ?_⟩
    obtain ⟨-, -, rfl⟩ | ⟨-, deviceId, sessionPk, texts, refs, hadmitted⟩ :=
      ingestOneEvent_cases hone hbefore.index.indexed hbefore.index.places
    · exact ⟨husers, hcaptures, hlinks⟩
    · exact ⟨hadmitted.users.trans husers, hadmitted.captures.trans hcaptures, hadmitted.captureEvents.trans hlinks⟩

end Draws

section Runs

variable [Sha256] [CaseMapping] {others : List Tables} {committed : Tables} {transaction after : Transaction}
  {counted : List (IngestDiagnosticCapture × Bool)} {rest : List Statement} {draws : Draws} {first : ℕ}

theorem Transaction.Runs.ingestEvents {items : List (IngestUsageEvent × List ValidatedImageAttachment)} {tally : Tally}
    (h : transaction.Runs others committed counted after) (hdone : after.todo = [])
    (htodo : transaction.todo = (items.zipIdx first).map (fun ((event, attachments), index) =>
      .selectEvent ⟨event, attachments, draws.event index, draws.outboxId index⟩) ++ rest)
    (hidle : Idle others) (hsound : Sound tally.store) (htwin : Twin (view committed transaction) tally.store)
    (howner : transaction.userId ∈ tally.store.users) (hkept : ∀ item ∈ items, Kept item.1.observedAt)
    (hindexable : ∀ item ∈ items, Indexable item.1) :
    ∃ (middle : Transaction) (stop : Tally), middle.Runs others committed counted after ∧ middle.todo = rest ∧
      middle.userId = transaction.userId ∧
      ingestFrom (fun item index => Storage.ingestOneEvent transaction.userId item.1 item.2
        (EventDraw.titled (draws.event index) transaction.begunAt)) items first tally = .ok stop ∧
      Twin (view committed middle) stop.store ∧
      stop.accepted + tally.store.events.length = tally.accepted + stop.store.events.length := by
  induction items generalizing transaction first tally with
  | nil => exact ⟨transaction, tally, h, htodo, rfl, rfl, htwin, rfl⟩
  | cons item items ih =>
    obtain ⟨event, attachments⟩ := item
    obtain ⟨hkept, hkeptRest⟩ := List.forall_mem_cons.mp hkept
    obtain ⟨hindexable, hindexableRest⟩ := List.forall_mem_cons.mp hindexable
    obtain ⟨middle, new, stored, hruns, htodo, huser, hbegun, hok, htwin⟩ :=
      h.ingestOneEvent hdone htodo hidle hsound htwin howner hkept hindexable
    have hstore : (tally.count (new, stored)).store = stored := count_store ..
    have hstep : stored.users = tally.store.users ∧ (tally.count (new, stored)).accepted + tally.store.events.length =
        tally.accepted + stored.events.length := by
      obtain ⟨rfl, -, rfl⟩ | ⟨rfl, deviceId, sessionPk, texts, refs, hadmitted⟩ :=
        ingestOneEvent_cases hok hsound.index.indexed hsound.index.places
      · exact ⟨rfl, rfl⟩
      · refine ⟨hadmitted.users, ?_⟩
        simp only [Tally.count, if_true, hadmitted.events, List.length_append, List.length_singleton]
        omega
    obtain ⟨husers, haccepted⟩ := hstep
    have hnext : Sound (tally.count (new, stored)).store := hstore.symm ▸ hsound.ingestOneEvent hok
    obtain ⟨last, stop, hruns, htodo, hlastUser, hstop, htwin, hcount⟩ := ih hruns htodo hnext (hstore.symm ▸ htwin)
      (by rw [hstore, husers, huser]; exact howner) hkeptRest hindexableRest
    rw [huser, hbegun] at hstop
    refine ⟨last, stop, hruns, htodo, hlastUser.trans huser, ?_, htwin, ?_⟩
    · rw [ingestFrom_cons]
      exact bind_eq_ok.mpr ⟨_, hok, hstop⟩
    · rw [hstore] at hcount
      omega

theorem Transaction.Runs.ingestDiagnosticCaptures {items : List IngestDiagnosticCapture} {tally : Tally}
    {later : List Uuid} {draws : ℕ → CaptureDraw} (h : transaction.Runs others committed counted after)
    (hdone : after.todo = []) (htodo : transaction.todo = (items.zipIdx first).map fun (capture, index) =>
      .selectCaptureEvents capture (draws index)) (hidle : Idle others) (hsound : Sound tally.store)
    (htwin : Twin (view committed transaction) tally.store) (howner : transaction.userId ∈ tally.store.users)
    (hkept : ∀ capture ∈ items, Kept capture.capturedAt)
    (hundrawn : Undrawn (drawnFrom draws first items.length ++ later) tally.store)
    (hapart : (drawnFrom draws first items.length ++ later).Nodup) :
    ∃ stop : Tally, ingestFrom (fun capture index =>
        Storage.ingestOneDiagnosticCapture transaction.userId capture (draws index)) items first tally = .ok stop ∧
      outcomes (fun capture index => Storage.ingestOneDiagnosticCapture transaction.userId capture (draws index)) first
        items tally.store = .ok counted ∧
      Twin (view committed after) stop.store ∧ Undrawn later stop.store := by
  induction items generalizing transaction first tally counted with
  | nil =>
    cases h with
    | done => exact ⟨tally, rfl, rfl, htwin, hundrawn⟩
    | statement hfirst hexecute hruns => cases hfirst.symm.trans htodo
  | cons capture items ih =>
    obtain ⟨hkept, hkeptRest⟩ := List.forall_mem_cons.mp hkept
    have hdrawn : drawnFrom draws first (capture :: items).length ++ later =
        (draws first).capturePk :: (drawnFrom draws (first + 1) items.length ++ later) := rfl
    rw [hdrawn] at hundrawn hapart
    obtain ⟨hfresh, hapart⟩ := List.nodup_cons.mp hapart
    obtain ⟨middle, new, remaining, stored, rfl, hruns, htodo, huser, hok, htwin⟩ :=
      h.ingestOneDiagnosticCapture hdone htodo hidle hsound.hierarchy htwin howner hkept
        (hundrawn.captures _ List.mem_cons_self) (hundrawn.links _ List.mem_cons_self)
    have hstore : (tally.count (new, stored)).store = stored := count_store ..
    have husers : stored.users = tally.store.users := by
      obtain ⟨-, -, rfl⟩ | ⟨-, -, deviceId, sessionPk, rows, rfl⟩ := ingestOneDiagnosticCapture_cases hok <;> rfl
    have hnext : Sound (tally.count (new, stored)).store := hstore.symm ▸ hsound.ingestOneDiagnosticCapture hok
    obtain ⟨stop, hstop, hcounted, htwin, hlater⟩ := ih hruns htodo hnext (hstore.symm ▸ htwin)
      (by rw [hstore, husers, huser]; exact howner) hkeptRest
      (hstore.symm ▸ hundrawn.ingestOneDiagnosticCapture hfresh hok) hapart
    rw [huser] at hstop hcounted
    rw [hstore] at hcounted
    refine ⟨stop, ?_, bind_eq_ok.mpr ⟨_, hok, bind_eq_ok.mpr ⟨_, hcounted, rfl⟩⟩, htwin, hlater⟩
    rw [ingestFrom_cons]
    exact bind_eq_ok.mpr ⟨_, hok, hstop⟩

omit [Sha256] [CaseMapping] in
theorem ingestFrom_start {ι : Type} {one : ι → ℕ → Store → Except AppError (Bool × Store)} {items : List ι}
    {store : Store} : ingestFrom one items 0 ⟨0, 0, store⟩ = ingestAll one items store := rfl

/-- A transaction that runs a batch to its end. -/
theorem Transaction.Runs.batch {batch : Batch} {validated : List (List ValidatedImageAttachment)} {later : List Uuid}
    {store : Store} (h : transaction.Runs others committed counted after) (hdone : after.todo = [])
    (htodo : transaction.todo = statements batch.request validated batch.draws)
    (huser : transaction.userId = batch.userId) (hbegun : transaction.begunAt = batch.begunAt) (hidle : Idle others)
    (hsound : Sound store) (htwin : Twin (view committed transaction) store) (howner : batch.userId ∈ store.users)
    (hportable : batch.Portable) (hundrawn : Undrawn (batch.capturePks ++ later) store)
    (hapart : (batch.capturePks ++ later).Nodup) :
    ∃ events captures : Tally,
      ingestAll (fun (event, attachments) index => Storage.ingestOneEvent batch.userId event attachments
        (batch.stored.event index)) (batch.request.events.zip validated) store = .ok events ∧
      ingestAll (fun capture index => Storage.ingestOneDiagnosticCapture batch.userId capture
        (batch.stored.capture index)) batch.request.diagnosticCaptures events.store = .ok captures ∧
      Twin (view committed after) captures.store ∧ Undrawn later captures.store ∧
      captures.store.users = store.users ∧
      events.accepted + store.events.length = captures.store.events.length ∧
      captures.accepted = counted.countP Prod.snd ∧ captures.duplicates = counted.countP fun item => !item.2 := by
  have hitems : ∀ item ∈ batch.request.events.zip validated, item.1 ∈ batch.request.events := fun item hitem =>
    (List.of_mem_zip hitem).1
  have hstart : Sound (Tally.mk 0 0 store).store := hsound
  obtain ⟨middle, events, hruns, htodo, hmiddle, hevents, htwin, haccepted⟩ := h.ingestEvents hdone htodo hidle hstart
    htwin (huser ▸ howner) (fun item hitem => hportable.observed _ (hitems item hitem))
    fun item hitem => hportable.indexable _ (hitems item hitem)
  rw [huser, hbegun, ingestFrom_start] at hevents
  obtain ⟨hsound, husers, hundrawn⟩ := hundrawn.ingestEvents hsound hevents
  have hstored : Sound (Tally.mk 0 0 events.store).store := hsound
  obtain ⟨captures, hcaptures, hcounted, htwin, hlater⟩ := hruns.ingestDiagnosticCaptures hdone htodo hidle hstored
    htwin (by rw [hmiddle, huser, husers]; exact howner) hportable.captured hundrawn hapart
  rw [hmiddle, huser] at hcaptures hcounted
  rw [ingestFrom_start] at hcaptures
  obtain ⟨_, hsame, hnew, hduplicates⟩ := ingestAll_outcomes hcaptures
  obtain rfl := Except.ok.inj (hsame.symm.trans hcounted)
  have hkept : captures.store.users = events.store.users ∧ captures.store.events = events.store.events := by
    refine ingestAll_keeps hcaptures (P := fun after => after.users = events.store.users ∧
      after.events = events.store.events) ⟨rfl, rfl⟩ ?_
    rintro item index before new after ⟨husers, hevents⟩ hone
    obtain ⟨-, -, rfl⟩ | ⟨-, -, deviceId, sessionPk, rows, rfl⟩ := ingestOneDiagnosticCapture_cases hone
    · exact ⟨husers, hevents⟩
    · exact ⟨husers, hevents⟩
  refine ⟨events, captures, hevents, hcaptures, htwin, hlater, hkept.1.trans husers, ?_, hnew, hduplicates⟩
  rw [hkept.2]
  exact haccepted.trans (Nat.zero_add _)

end Runs

section Batches

variable [Sha256] [Base64] {before middle after : Database} {index : ℕ}
  {counted : List (IngestDiagnosticCapture × Bool)}

/-- No transaction holds a row. -/
def Database.Idle (database : Database) : Prop := ∀ transaction ∈ database.transactions, transaction.own = {}

omit [Sha256] [Base64] in
/-- A transaction that has written nothing sees what is committed. -/
theorem Twin.fresh {committed : Tables} {store : Store} (h : Twin committed store) :
    Twin (({} : Tables).over committed) store where
  devices := (List.Perm.of_eq (by simp [Tables.over, overlay])).trans h.devices
  sessions := (List.Perm.of_eq (by simp [Tables.over, overlay])).trans h.sessions
  events := (List.append_nil _).trans h.events
  streamFacts := (List.append_nil _).trans h.streamFacts
  attachments := (List.append_nil _).trans h.attachments
  sessionTitles := (List.Perm.of_eq (by simp [Tables.over, overlay])).trans h.sessionTitles
  captures := (List.append_nil _).trans h.captures
  captureEvents := (List.append_nil _).trans h.captureEvents

omit [Sha256] [Base64] in
theorem Database.Idle.begun (h : before.Idle) (transaction : Transaction) :
    Postgres.Idle (Database.others { before with transactions := before.transactions ++ [transaction] }
      before.transactions.length) := by
  intro own hown
  unfold Database.others at hown
  rw [List.eraseIdx_append_of_length_le le_rfl, Nat.sub_self, List.eraseIdx_cons_zero, List.append_nil] at hown
  obtain ⟨other, hother, rfl⟩ := List.mem_map.mp hown
  exact h other hother

omit [Sha256] [Base64] in
theorem Database.Idle.ended (h : Postgres.Idle (before.others index)) (transaction : Transaction) (committed : Tables) :
    Database.Idle { before with committed, transactions := before.transactions.set index transaction.ended } := by
  intro other hother
  obtain ⟨i, hi⟩ := List.getElem?_of_mem hother
  by_cases hsame : index = i
  · subst hsame
    rw [List.getElem?_set_self' ] at hi
    obtain ⟨_, -, rfl⟩ := Option.map_eq_some_iff.mp hi
    rfl
  · rw [List.getElem?_set_ne hsame] at hi
    exact h other.own (List.mem_map_of_mem (List.mem_eraseIdx_iff_getElem?.mpr ⟨i, Ne.symm hsame, hi⟩))

theorem Database.Executes.others (h : before.Executes index counted after) :
    after.others index = before.others index ∧ after.committed = before.committed ∧ after.users = before.users := by
  induction h with
  | done database => exact ⟨rfl, rfl, rfl⟩
  | statement hstep hrest ih =>
    obtain ⟨hothers, hcommitted, husers⟩ := ih
    cases Database.stepped hstep with
    | statement _ transaction next statement rest hget htodo hexecute =>
      exact ⟨hothers.trans (Database.others_set next), hcommitted, husers⟩

/-- What PostgreSQL makes of a batch: how many events it adds, and what it counts the captures as. -/
structure Report where
  added : ℕ
  counted : List (IngestDiagnosticCapture × Bool)

structure Report.Told (report : Report) (response : IngestEventsResponse) : Prop where
  accepted : response.accepted = report.added
  acceptedDiagnosticCaptures : response.acceptedDiagnosticCaptures = report.counted.countP Prod.snd
  duplicateDiagnosticCaptures : response.duplicateDiagnosticCaptures = report.counted.countP fun item => !item.2

/-- Batches that PostgreSQL ingests one after another. -/
inductive Database.IngestsAll : Database → List Batch → List Report → Database → Prop
  | nil (database : Database) : IngestsAll database [] [] database
  | cons {before middle after : Database} {batch : Batch} {batches : List Batch} {reports : List Report}
      {counted : List (IngestDiagnosticCapture × Bool)}
      (hfirst : before.Ingests batch.request batch.userId batch.maxBatchSize batch.draws batch.begunAt counted middle)
      (hrest : middle.IngestsAll batches reports after) :
      IngestsAll before (batch :: batches)
        (⟨middle.committed.events.length - before.committed.events.length, counted⟩ :: reports) after

variable [CaseMapping] {batch : Batch} {batches : List Batch} {reports : List Report} {store : Store}
  {later : List Uuid}

/-- SQLite's responses to the batches, one after another. -/
def ingestAllBatches : List Batch → Store → Except AppError (List IngestEventsResponse × Store)
  | [], store => .ok ([], store)
  | batch :: rest, store => do
    let (response, store) ← Storage.ingestEvents batch.request batch.userId batch.maxBatchSize batch.stored store
    let (responses, store) ← ingestAllBatches rest store
    return (response :: responses, store)

/-- The two databases between batches. -/
structure Database.Matches (database : Database) (store : Store) : Prop where
  users : database.users = store.users
  idle : database.Idle
  reachable : Reachable store
  twin : Twin database.committed store

omit [Sha256] [Base64] [CaseMapping] in
theorem Undrawn.start (users : List Uuid) (pks : List Uuid) : Undrawn pks { users } :=
  ⟨fun _ _ hmem => absurd hmem List.not_mem_nil, fun _ _ hmem => absurd hmem List.not_mem_nil⟩

theorem Database.Ingests.stored
    (h : before.Ingests batch.request batch.userId batch.maxBatchSize batch.draws batch.begunAt counted after)
    (hmatches : before.Matches store) (hportable : batch.Portable) (hundrawn : Undrawn (batch.capturePks ++ later) store)
    (hapart : (batch.capturePks ++ later).Nodup) :
    ∃ response stored, Storage.ingestEvents batch.request batch.userId batch.maxBatchSize batch.stored store =
        .ok (response, stored) ∧
      Report.Told ⟨after.committed.events.length - before.committed.events.length, counted⟩ response ∧
      after.Matches stored ∧ Undrawn later stored := by
  obtain ⟨begun, executed, hbegin, hexecutes, hcommit⟩ := h
  cases Database.stepped hbegin with
  | begin _ _ _ _ _ validated hvalid huser =>
    obtain ⟨hothers, hcommitted, husers⟩ := hexecutes.others
    obtain ⟨ran, hran, hruns⟩ := hexecutes.runs List.getElem?_concat_length
    cases Database.stepped hcommit with
    | commit _ transaction hget hrunning htodo =>
      cases hget.symm.trans hran
      have hidle := hmatches.idle.begun
        { userId := batch.userId
          begunAt := batch.begunAt
          todo := statements batch.request validated batch.draws }
      obtain ⟨events, captures, hevents, hcaptures, htwin, hlater, hkept, haccepted, hnew, hduplicates⟩ :=
        hruns.batch htodo rfl rfl rfl hidle hmatches.reachable.sound hmatches.twin.fresh (hmatches.users ▸ huser) hportable
          hundrawn hapart
      have hok : Storage.ingestEvents batch.request batch.userId batch.maxBatchSize batch.stored store =
          .ok (_, captures.store) :=
        bind_eq_ok.mpr ⟨_, hvalid, bind_eq_ok.mpr ⟨_, hevents, bind_eq_ok.mpr ⟨_, hcaptures, rfl⟩⟩⟩
      rw [hcommitted]
      have hcount : (ran.own.over before.committed).events.length = captures.store.events.length :=
        congrArg List.length htwin.events
      refine ⟨_, captures.store, hok, ⟨?_, hnew, hduplicates⟩, ⟨?_, ?_, hmatches.reachable.ingested_ok hok, htwin⟩, hlater⟩
      · rw [hcount, hmatches.twin.events, ← haccepted, Nat.add_sub_cancel]
      · exact husers.trans (hmatches.users.trans hkept.symm)
      · exact Database.Idle.ended (hothers ▸ hidle) ran _

theorem Database.IngestsAll.stored (h : before.IngestsAll batches reports after) (hmatches : before.Matches store)
    (hportable : ∀ batch ∈ batches, batch.Portable) (hundrawn : Undrawn (batches.flatMap Batch.capturePks) store)
    (hapart : (batches.flatMap Batch.capturePks).Nodup) :
    ∃ responses stored, ingestAllBatches batches store = .ok (responses, stored) ∧ after.Matches stored ∧
      List.Forall₂ Report.Told reports responses := by
  induction h generalizing store with
  | nil database => exact ⟨[], store, rfl, hmatches, .nil⟩
  | cons hfirst hrest ih =>
    obtain ⟨hportable, hportables⟩ := List.forall_mem_cons.mp hportable
    obtain ⟨response, stored, hok, htold, hmatches, hundrawn⟩ := hfirst.stored hmatches hportable hundrawn hapart
    obtain ⟨responses, last, hrest, hmatches, hall⟩ := ih hmatches hportables hundrawn (List.nodup_append.mp hapart).2.1
    exact ⟨response :: responses, last, bind_eq_ok.mpr ⟨_, hok, bind_eq_ok.mpr ⟨_, hrest, rfl⟩⟩, hmatches,
      .cons htold hall⟩

theorem matches_start (users : List Uuid) : Database.Matches { users, committed := {} } { users } := by
  refine ⟨rfl, ?_, .start users, ?_⟩
  · intro transaction hmem
    cases hmem
  · exact ⟨.nil, .nil, rfl, rfl, rfl, .nil, rfl, rfl⟩

/-- Whatever batches PostgreSQL ingests one after another, SQLite ingests them too: both end with the same rows, and
SQLite responds what PostgreSQL counts. -/
theorem twin_along {users : List Uuid} (h : Database.IngestsAll { users, committed := {} } batches reports after)
    (hportable : ∀ batch ∈ batches, batch.Portable) (hapart : (batches.flatMap Batch.capturePks).Nodup) :
    ∃ responses store, ingestAllBatches batches { users } = .ok (responses, store) ∧ Twin after.committed store ∧
      List.Forall₂ Report.Told reports responses := by
  obtain ⟨responses, store, hok, hmatches, htold⟩ := h.stored (matches_start users) hportable (Undrawn.start ..)
    hapart
  exact ⟨responses, store, hok, hmatches.twin, htold⟩

end Batches

section Redelivery

open Fixtures

variable [Sha256] [Base64]

/-- Ingests a batch on its own, with at most the given number of statements. -/
def Database.ingest (fuel : ℕ) (batch : Batch) (database : Database) :
    Option (List (IngestDiagnosticCapture × Bool) × Database) := do
  let index := database.transactions.length
  let begun ← database.step (.begin batch.request batch.userId batch.maxBatchSize batch.draws batch.begunAt)
  let (counted, executed) := begun.executed index fuel
  let after ← executed.step (.commit index)
  return (counted, after)

def Database.ingestAll (fuel : ℕ) : List Batch → Database → Option (List Report × Database)
  | [], database => some ([], database)
  | batch :: rest, database => do
    let (counted, middle) ← database.ingest fuel batch
    let (reports, after) ← middle.ingestAll fuel rest
    return (⟨middle.committed.events.length - database.committed.events.length, counted⟩ :: reports, after)

theorem Database.ingestsAll {fuel : ℕ} {batches : List Batch} {database after : Database} {reports : List Report}
    (h : database.ingestAll fuel batches = some (reports, after)) : database.IngestsAll batches reports after := by
  induction batches generalizing database reports with
  | nil =>
    cases h
    exact .nil _
  | cons batch rest ih =>
    obtain ⟨⟨counted, middle⟩, hfirst, h⟩ := Option.bind_eq_some_iff.mp h
    obtain ⟨⟨later, last⟩, hrest, h⟩ := Option.bind_eq_some_iff.mp h
    cases h
    obtain ⟨begun, hbegin, hfirst⟩ := Option.bind_eq_some_iff.mp hfirst
    obtain ⟨ended, hcommit, hfirst⟩ := Option.bind_eq_some_iff.mp hfirst
    cases hfirst
    exact .cons ⟨begun, _, hbegin, Database.executes_executed fuel begun, hcommit⟩ (ih hrest)

end Redelivery

section Redelivered

open Fixtures

local instance twinDigest : Sha256 := cargoDigest

local instance twinContent : Base64 := noContent

local instance twinCase : CaseMapping := asciiCase

/-- A request that is delivered late, after its response, and then once more with another. -/
def redelivery : List Batch := [
  ⟨{ events := [event "e1r" 2 .response [], event "e1" 1 .request []]
     diagnosticCaptures := [captureOf "c1" ["e1", "e1r"]] }, 7, 100, drawsFrom 100, 5⟩,
  ⟨{ events := [event "e1" 1 .request [], event "e0" 0 .request []]
     diagnosticCaptures := [captureOf "c1" ["e1"], captureOf "c2" ["e0"]] }, 7, 100, drawsFrom 200, 6⟩]

theorem redelivery_portable : ∀ batch ∈ redelivery, batch.Portable := by
  intro batch hbatch
  simp only [redelivery, List.mem_cons, List.not_mem_nil, or_false] at hbatch
  obtain rfl | rfl := hbatch
  · exact ⟨by decide, by decide, by decide⟩
  · exact ⟨by decide, by decide, by decide⟩

theorem redelivery_ingested : (newDatabase.ingestAll 30 redelivery).isSome = true := by decide +kernel

theorem twin_redelivered : ∃ reports database, newDatabase.ingestAll 30 redelivery = some (reports, database) ∧
    reports.map Report.added = [2, 1] ∧
    ∃ responses store, ingestAllBatches redelivery { users := [7] } = .ok (responses, store) ∧
      Twin database.committed store ∧ List.Forall₂ Report.Told reports responses := by
  obtain ⟨⟨reports, database⟩, hrun⟩ := Option.isSome_iff_exists.mp redelivery_ingested
  have hadded : (newDatabase.ingestAll 30 redelivery).map (fun outcome => outcome.1.map Report.added) = some [2, 1] := by
    decide +kernel
  rw [hrun] at hadded
  exact ⟨reports, database, hrun, Option.some.inj hadded,
    twin_along (Database.ingestsAll hrun) redelivery_portable (by decide)⟩

end Redelivered

end AbyssBackend.Postgres
