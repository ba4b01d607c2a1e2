import AbyssBackend.Library.Conflicts
import AbyssBackend.Storage.Fixtures
import AbyssBackend.Storage.Invariants

namespace AbyssBackend.Storage

open Attachments Attempts Conflicts Search Streams Text

def captureKey (userId : Uuid) (capture : IngestDiagnosticCapture) : Uuid × String :=
  (userId, normalizeText capture.captureId)

/-- Two captures of the batch share an id only where it was stored before. -/
def CapturesApart (userId : Uuid) (stored : List DiagnosticCapture) (captures : List IngestDiagnosticCapture) : Prop :=
  captures.Pairwise fun x y => captureKey userId x = captureKey userId y →
    captureKey userId x ∈ stored.map DiagnosticCapture.key

section Outcomes

variable {ι : Type} (one : ι → ℕ → Store → Except AppError (Bool × Store))

/-- The items in turn, each with what it is counted as. -/
def outcomes : ℕ → List ι → Store → Except AppError (List (ι × Bool))
  | _, [], _ => .ok []
  | index, item :: rest, store => do
    let (new, after) ← one item index store
    return (item, new) :: (← outcomes (index + 1) rest after)

variable {one} {items : List ι} {store : Store} {tally : Tally}

theorem foldlM_outcomes {index : ℕ} {start : Tally}
    (h : (items.zipIdx index).foldlM (fun (tally : Tally) (item, index) => do
      let outcome ← one item index tally.store
      return tally.count outcome) start = .ok tally) :
    ∃ counted, outcomes one index items start.store = .ok counted ∧
      tally.accepted = start.accepted + counted.countP Prod.snd ∧
      tally.duplicates = start.duplicates + counted.countP fun item => !item.2 := by
  induction items generalizing index start with
  | nil =>
    cases h
    exact ⟨[], rfl, rfl, rfl⟩
  | cons item rest ih =>
    rw [List.zipIdx_cons, List.foldlM_cons] at h
    obtain ⟨middle, hone, h⟩ := bind_eq_ok.mp h
    obtain ⟨⟨new, after⟩, hone, hcount⟩ := bind_eq_ok.mp hone
    obtain ⟨counted, hcounted, haccepted, hduplicates⟩ := ih h
    have hmiddle : middle = start.count (new, after) := (Except.ok.inj hcount).symm
    have hstore : middle.store = after := by rw [hmiddle]; cases new <;> rfl
    refine ⟨(item, new) :: counted, ?_, ?_, ?_⟩
    · rw [hstore] at hcounted
      exact bind_eq_ok.mpr ⟨(new, after), hone, bind_eq_ok.mpr ⟨counted, hcounted, rfl⟩⟩
    · rw [haccepted, hmiddle, List.countP_cons]
      cases new <;> simp only [Tally.count, Bool.false_eq_true, if_true, if_false] <;> omega
    · rw [hduplicates, hmiddle, List.countP_cons]
      cases new <;> simp only [Tally.count, Bool.false_eq_true, Bool.not_true, Bool.not_false, if_true, if_false] <;>
        omega

theorem ingestAll_outcomes (h : ingestAll one items store = .ok tally) :
    ∃ counted, outcomes one 0 items store = .ok counted ∧ tally.accepted = counted.countP Prod.snd ∧
      tally.duplicates = counted.countP fun item => !item.2 := by
  obtain ⟨counted, hcounted, haccepted, hduplicates⟩ := foldlM_outcomes h
  exact ⟨counted, hcounted, haccepted.trans (Nat.zero_add _), hduplicates.trans (Nat.zero_add _)⟩

end Outcomes

section Captures

variable {userId : Uuid} {store after : Store} {capture : IngestDiagnosticCapture}

theorem ingestOneDiagnosticCapture_new {draw : CaptureDraw} {new : Bool}
    (h : ingestOneDiagnosticCapture userId capture draw store = .ok (new, after)) :
    (new = true ↔ captureKey userId capture ∉ store.captures.map DiagnosticCapture.key) ∧
      ∀ key, key ∈ after.captures.map DiagnosticCapture.key ↔
        key = captureKey userId capture ∨ key ∈ store.captures.map DiagnosticCapture.key := by
  rcases ingestOneDiagnosticCapture_cases h with ⟨rfl, hknown, rfl⟩ | ⟨rfl, hfree, deviceId, sessionPk, rows, rfl⟩
  · refine ⟨iff_of_false Bool.false_ne_true (not_not.mpr hknown), fun key => ?_⟩
    exact (or_iff_right_of_imp fun hsame => hsame ▸ hknown).symm
  · refine ⟨iff_of_true rfl hfree, fun key => ?_⟩
    rw [List.map_append, List.mem_append, or_comm, List.map_singleton, List.mem_singleton]
    rfl

theorem outcomes_captures {draws : ℕ → CaptureDraw} {index : ℕ} {captures : List IngestDiagnosticCapture}
    {counted : List (IngestDiagnosticCapture × Bool)}
    (h : outcomes (fun capture index => ingestOneDiagnosticCapture userId capture (draws index)) index captures store =
      .ok counted) :
    counted = captures.zip (inserted (store.captures.map DiagnosticCapture.key) (captures.map (captureKey userId))) := by
  induction captures generalizing index store counted with
  | nil =>
    cases h
    rfl
  | cons capture captures ih =>
    rw [outcomes] at h
    obtain ⟨⟨new, after⟩, hone, h⟩ := bind_eq_ok.mp h
    obtain ⟨later, hlater, h⟩ := bind_eq_ok.mp h
    cases h
    obtain ⟨hnew, hkeys⟩ := ingestOneDiagnosticCapture_new hone
    rw [List.map_cons, inserted_cons hnew hkeys, List.zip_cons_cons, ih hlater]

/-- What a batch's captures are counted as. -/
def captureOutcomes [Sha256] [Base64] [CaseMapping] (request : IngestEventsRequest) (userId : Uuid) (maxBatchSize : ℕ)
    (draws : Draws) (store : Store) : Except AppError (List (IngestDiagnosticCapture × Bool)) := do
  let validatedAttachments ← validateBatch request maxBatchSize
  let events ← ingestAll (fun (event, attachments) index =>
    ingestOneEvent userId event attachments (draws.event index)) (request.events.zip validatedAttachments) store
  outcomes (fun capture index => ingestOneDiagnosticCapture userId capture (draws.capture index)) 0
    request.diagnosticCaptures events.store

variable [Sha256] [Base64] [CaseMapping] {request : IngestEventsRequest} {maxBatchSize : ℕ} {draws : Draws}
  {response : IngestEventsResponse}

theorem Reachable.captures_kept_iff (h : Reachable store)
    (hok : ingestEvents request userId maxBatchSize draws store = .ok (response, after)) :
    ∃ counted, captureOutcomes request userId maxBatchSize draws store = .ok counted ∧
      counted.map Prod.fst = request.diagnosticCaptures ∧
      response.acceptedDiagnosticCaptures = counted.countP Prod.snd ∧
      response.duplicateDiagnosticCaptures = (counted.countP fun item => !item.2) ∧
      ((∀ item ∈ counted, item.2 = false → captureKey userId item.1 ∈ store.captures.map DiagnosticCapture.key) ↔
        CapturesApart userId store.captures request.diagnosticCaptures) := by
  obtain ⟨validated, events, captures, hvalid, hevents, hcaptures, rfl, rfl⟩ := ingestEvents_ok.mp hok
  have hkept : Sound events.store ∧ events.store.captures = store.captures := by
    refine ingestAll_keeps hevents (P := fun kept => Sound kept ∧ kept.captures = store.captures) ⟨h.sound, rfl⟩ ?_
    rintro item index before new after ⟨hsound, hcaptures⟩ hone
    refine ⟨hsound.ingestOneEvent hone, ?_⟩
    obtain ⟨-, -, rfl⟩ | ⟨-, deviceId, sessionPk, texts, refs, hadmitted⟩ :=
      ingestOneEvent_cases hone hsound.index.indexed hsound.index.places
    · exact hcaptures
    · exact hadmitted.captures.trans hcaptures
  obtain ⟨counted, hcounted, haccepted, hduplicates⟩ := ingestAll_outcomes hcaptures
  have hzip := outcomes_captures hcounted
  rw [hkept.2] at hzip
  refine ⟨counted, bind_eq_ok.mpr ⟨validated, hvalid, bind_eq_ok.mpr ⟨events, hevents, hcounted⟩⟩, ?_, haccepted,
    hduplicates, ?_⟩
  · rw [hzip]
    exact List.map_fst_zip (by rw [inserted_length, List.length_map])
  · rw [hzip]
    exact skipped_iff_apart (captureKey userId) _ _

end Captures

end AbyssBackend.Storage
