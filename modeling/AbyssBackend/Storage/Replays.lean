import AbyssBackend.Storage.Fixtures
import AbyssBackend.Storage.Invariants

namespace AbyssBackend.Storage

open Attachments Attempts Search Text

section Batches

variable {ι : Type} {one : ι → ℕ → Store → Except AppError (Bool × Store)} {items : List ι} {store : Store}
  {tally : Tally}

theorem ingestAll_counts (h : ingestAll one items store = .ok tally) :
    tally.accepted + tally.duplicates = items.length := by
  have hcounts : tally.accepted + tally.duplicates = items.zipIdx.length := by
    refine foldlM_ok h (P := fun done tally => tally.accepted + tally.duplicates = done.length) rfl ?_
    rintro done ⟨item, index⟩ before after hbefore hone
    obtain ⟨⟨new, stored⟩, -, hcount⟩ := bind_eq_ok.mp hone
    cases hcount
    rw [List.length_append, List.length_singleton, ← hbefore]
    cases new <;> simp only [Tally.count, Bool.false_eq_true, if_true, if_false] <;> omega
  rw [hcounts, List.length_zipIdx]

/-- What an item brings about when it is ingested and later items keep holds of every item in the end. -/
theorem ingestAll_each (h : ingestAll one items store = .ok tally) {I : Store → Prop} {Q : ι → Store → Prop}
    (hstart : I store) (hkeep : ∀ item index before new after, I before →
      one item index before = .ok (new, after) → I after ∧ Q item after ∧ ∀ other, Q other before → Q other after) :
    I tally.store ∧ ∀ item ∈ items, Q item tally.store := by
  have heach : I tally.store ∧ ∀ indexed ∈ items.zipIdx, Q indexed.1 tally.store := by
    refine foldlM_ok h (P := fun done tally => I tally.store ∧ ∀ indexed ∈ done, Q indexed.1 tally.store)
      ⟨hstart, by simp⟩ ?_
    rintro done ⟨item, index⟩ before after ⟨hbefore, hdone⟩ hone
    obtain ⟨⟨new, stored⟩, hok, hcount⟩ := bind_eq_ok.mp hone
    cases hcount
    obtain ⟨hafter, hitem, hothers⟩ := hkeep item index before.store new stored hbefore hok
    have hstore : (before.count (new, stored)).store = stored := by cases new <;> rfl
    rw [hstore]
    refine ⟨hafter, fun indexed hindexed => ?_⟩
    obtain hearlier | hlast := List.mem_append.mp hindexed
    · exact hothers _ (hdone indexed hearlier)
    · obtain rfl := List.mem_singleton.mp hlast
      exact hitem
  refine ⟨heach.1, fun item hitem => ?_⟩
  obtain ⟨index, hindex⟩ := List.getElem?_of_mem hitem
  exact heach.2 (item, index) (List.mem_zipIdx_iff_getElem?.mpr hindex)

theorem ingestAll_idle (hidle : ∀ item ∈ items, ∀ index, one item index store = .ok (false, store)) :
    ingestAll one items store = .ok ⟨0, items.length, store⟩ := by
  have hrun : ∀ indexed : List (ι × ℕ), (∀ x ∈ indexed, x.1 ∈ items) → ∀ duplicates,
      indexed.foldlM (fun (tally : Tally) place => do
        let outcome ← one place.1 place.2 tally.store
        return tally.count outcome) ⟨0, duplicates, store⟩ =
      .ok ⟨0, duplicates + indexed.length, store⟩ := by
    intro indexed
    induction indexed with
    | nil => exact fun _ _ => rfl
    | cons first rest ih =>
      obtain ⟨item, index⟩ := first
      intro hmem duplicates
      have hfirst := hidle item (hmem (item, index) (List.mem_cons_self ..)) index
      simp only [List.foldlM_cons, hfirst]
      apply (ih (fun x hx => hmem x (List.mem_cons_of_mem _ hx)) (duplicates + 1)).trans
      rw [List.length_cons, Nat.add_assoc, Nat.add_comm 1]
  have hall := hrun items.zipIdx (fun x hx => List.fst_mem_of_mem_zipIdx hx) 0
  rw [List.length_zipIdx, Nat.zero_add] at hall
  exact hall

end Batches

section Replay

variable [Sha256] [CaseMapping] {userId : Uuid} {store after : Store}

theorem ingestOneEvent_known {event : IngestUsageEvent} {attachments : List ValidatedImageAttachment}
    {draw : EventDraw} (h : event.eventId ∈ store.events.map EventRow.eventId) :
    ingestOneEvent userId event attachments draw store = .ok (false, store) := by
  rw [ingestOneEvent, if_pos (Rows.any_key.mpr h)]

theorem ingestOneEvent_keeps (h : Sound store) {event : IngestUsageEvent}
    {attachments : List ValidatedImageAttachment} {draw : EventDraw} {new : Bool}
    (hok : ingestOneEvent userId event attachments draw store = .ok (new, after)) :
    event.eventId ∈ after.events.map EventRow.eventId ∧
      ∀ eventId ∈ store.events.map EventRow.eventId, eventId ∈ after.events.map EventRow.eventId := by
  obtain ⟨-, hknown, rfl⟩ | ⟨-, deviceId, sessionPk, texts, refs, hadmitted⟩ :=
    ingestOneEvent_cases hok h.index.indexed h.index.places
  · exact ⟨hknown, fun _ hmem => hmem⟩
  · rw [hadmitted.events, List.map_append]
    exact ⟨List.mem_append_right _ (List.mem_singleton_self _), fun _ hmem => List.mem_append_left _ hmem⟩

omit [Sha256] [CaseMapping] in
theorem ingestOneDiagnosticCapture_known {capture : IngestDiagnosticCapture} {draw draw' : CaptureDraw} {new : Bool}
    (h : ingestOneDiagnosticCapture userId capture draw store = .ok (new, after)) {later : Store}
    (hevents : later.events = store.events)
    (hknown : (userId, normalizeText capture.captureId) ∈ later.captures.map DiagnosticCapture.key)
    (hfresh : draw'.capturePk ∉ later.captures.map DiagnosticCapture.id) :
    ingestOneDiagnosticCapture userId capture draw' later = .ok (false, later) := by
  rw [ingestOneDiagnosticCapture] at h ⊢
  rw [hevents]
  split_ifs at h ⊢ with hcount
  split at h
  · cases h
  · next first _ =>
    split_ifs at h ⊢
    have hinsert : later.insertCapture (newCapture userId first.deviceContextId first.sessionPk capture draw') =
        .ok (0, later) := by
      have hid : (later.captures.any fun other =>
          other.id == (newCapture userId first.deviceContextId first.sessionPk capture draw').id) = false :=
        Rows.free_iff.mpr hfresh
      have hkey : (later.captures.any fun other =>
          other.key == (newCapture userId first.deviceContextId first.sessionPk capture draw').key) = true :=
        Rows.any_key.mpr hknown
      rw [Store.insertCapture, if_neg (by simp only [hid, Bool.false_eq_true, not_false_eq_true]), if_pos hkey]
    rw [hinsert]
    rfl

omit [Sha256] [CaseMapping] in
theorem ingestOneDiagnosticCapture_keeps {capture : IngestDiagnosticCapture} {draw : CaptureDraw} {new : Bool}
    (h : ingestOneDiagnosticCapture userId capture draw store = .ok (new, after)) :
    after.events = store.events ∧
      (userId, normalizeText capture.captureId) ∈ after.captures.map DiagnosticCapture.key ∧
      ∀ key ∈ store.captures.map DiagnosticCapture.key, key ∈ after.captures.map DiagnosticCapture.key := by
  obtain ⟨-, hknown, rfl⟩ | ⟨-, -, deviceId, sessionPk, rows, rfl⟩ := ingestOneDiagnosticCapture_cases h
  · exact ⟨rfl, hknown, fun _ hmem => hmem⟩
  · rw [List.map_append]
    exact ⟨rfl, List.mem_append_right _ (List.mem_singleton_self _), fun _ hmem => List.mem_append_left _ hmem⟩

variable [Base64] {request : IngestEventsRequest} {maxBatchSize : ℕ} {draws : Draws}
  {response : IngestEventsResponse}

def CaptureStored (userId : Uuid) (events : List EventRow) (capture : IngestDiagnosticCapture) (store : Store) : Prop :=
  (∃ draw before new after, ingestOneDiagnosticCapture userId capture draw before = .ok (new, after) ∧
    before.events = events) ∧
  (userId, normalizeText capture.captureId) ∈ store.captures.map DiagnosticCapture.key

theorem Reachable.idempotent (h : Reachable store)
    (hok : ingestEvents request userId maxBatchSize draws store = .ok (response, after)) :
    response.accepted + response.duplicates = request.events.length ∧
    response.acceptedDiagnosticCaptures + response.duplicateDiagnosticCaptures =
      request.diagnosticCaptures.length ∧
    ∀ draws' : Draws, (∀ index, (draws'.capture index).capturePk ∉ after.captures.map DiagnosticCapture.id) →
      ingestEvents request userId maxBatchSize draws' after =
        .ok (⟨0, request.events.length, 0, [], 0, request.diagnosticCaptures.length⟩, after) := by
  obtain ⟨validated, events, captures, hvalidated, hevents, hcaptures, rfl, rfl⟩ := ingestEvents_ok.mp hok
  have hlength : (request.events.zip validated).length = request.events.length := by
    rw [List.length_zip, validateBatch_length hvalidated, min_self]
  obtain ⟨-, hknown⟩ := ingestAll_each hevents (I := Sound)
    (Q := fun item store => item.1.eventId ∈ store.events.map EventRow.eventId) h.sound
    fun item index before new after hbefore hone =>
      ⟨hbefore.ingestOneEvent hone, (ingestOneEvent_keeps hbefore hone).1,
        fun other => (ingestOneEvent_keeps hbefore hone).2 other.1.eventId⟩
  obtain ⟨hsame, hstored⟩ := ingestAll_each hcaptures (I := fun store => store.events = events.store.events)
    (Q := CaptureStored userId events.store.events) rfl fun capture index before new after hbefore hone => by
      obtain ⟨hkept, hkey, hkeys⟩ := ingestOneDiagnosticCapture_keeps hone
      exact ⟨hkept.trans hbefore, ⟨⟨_, before, new, after, hone, hbefore⟩, hkey⟩,
        fun other hother => ⟨hother.1, hkeys _ hother.2⟩⟩
  refine ⟨hlength ▸ ingestAll_counts hevents, ingestAll_counts hcaptures, fun draws' hfresh => ?_⟩
  have heventsIdle : ingestAll (fun item index =>
      ingestOneEvent userId item.1 item.2 (draws'.event index)) (request.events.zip validated) captures.store =
      .ok ⟨0, request.events.length, captures.store⟩ := by
    rw [← hlength]
    refine ingestAll_idle fun item hitem index => ingestOneEvent_known ?_
    rw [hsame]
    exact hknown item hitem
  have hcapturesIdle : ingestAll (fun capture index =>
      ingestOneDiagnosticCapture userId capture (draws'.capture index)) request.diagnosticCaptures captures.store =
      .ok ⟨0, request.diagnosticCaptures.length, captures.store⟩ := by
    apply ingestAll_idle
    intro capture hcapture index
    obtain ⟨⟨draw, before, new, after, hone, hbefore⟩, hkey⟩ := hstored capture hcapture
    exact ingestOneDiagnosticCapture_known hone (hsame.trans hbefore.symm) hkey (hfresh index)
  refine bind_eq_ok.mpr ⟨validated, hvalidated, bind_eq_ok.mpr ⟨_, heventsIdle, ?_⟩⟩
  exact bind_eq_ok.mpr ⟨_, hcapturesIdle, rfl⟩

end Replay

section Batch

open Fixtures

local instance replayDigest : Sha256 := cargoDigest

local instance replayContent : Base64 := noContent

local instance replayCase : CaseMapping := asciiCase

def emptyStore : Store := { users := [1] }

def batchStore : Store := afterIngest batch 1 10 (draws 100) emptyStore

def batchResponse : IngestEventsResponse := ⟨2, 1, 0, [], 1, 0⟩

set_option maxRecDepth 4000 in
theorem ingestEvents_batch : ingestEvents batch 1 10 (draws 100) emptyStore = .ok (batchResponse, batchStore) := rfl

theorem idempotent_batch :
    2 + 1 = batch.events.length ∧ 1 + 0 = batch.diagnosticCaptures.length ∧
    ingestEvents batch 1 10 (draws 1000) batchStore = .ok (⟨0, 3, 0, [], 0, 1⟩, batchStore) := by
  obtain ⟨hevents, hcaptures, hreplay⟩ := Reachable.idempotent (.start [1]) ingestEvents_batch
  refine ⟨hevents, hcaptures, hreplay (draws 1000) fun index => ?_⟩
  have hstored : batchStore.captures.map DiagnosticCapture.id = [100] := rfl
  have hlate : 100 < 1000 + index := Nat.lt_add_right index (by decide)
  simpa only [hstored, draws, List.mem_singleton] using hlate.ne'

end Batch

end AbyssBackend.Storage
