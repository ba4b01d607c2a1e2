import AbyssBackend.Library.Attempts
import AbyssBackend.Library.Rows
import AbyssBackend.Usage.Contract

namespace AbyssBackend

open Attachments Attempts Text

def normalizeText (value : String) : String := trim value

def validateEventIds (requestEventIds : List String) : List String → List String → Except AppError Unit
  | _, [] => .ok ()
  | seen, eventId :: rest => do
    if !requestEventIds.contains eventId then
      throw (.validation "diagnostic capture event_ids must reference events in the same ingest request")
    if seen.contains eventId then
      throw (.validation "diagnostic capture event_ids must be unique")
    validateEventIds requestEventIds (seen ++ [eventId]) rest

def IngestDiagnosticCapture.validateEventCorrelation (capture : IngestDiagnosticCapture)
    (requestEventIds : List String) : Except AppError Unit := do
  if trim capture.captureId = "" then
    throw (.validation "diagnostic capture_id must not be empty")
  if capture.eventIds.isEmpty then
    throw (.validation "diagnostic capture must reference at least one event")
  validateEventIds requestEventIds [] capture.eventIds

def validateCaptures (requestEventIds : List String) :
    List String → List IngestDiagnosticCapture → Except AppError Unit
  | _, [] => .ok ()
  | seen, capture :: rest => do
    capture.validateEventCorrelation requestEventIds
    if seen.contains capture.captureId then
      throw (.validation "diagnostic capture ids must be unique within one ingest request")
    validateCaptures requestEventIds (seen ++ [capture.captureId]) rest

def validateBatch [Sha256] [Base64] (request : IngestEventsRequest) (maxBatchSize : ℕ) :
    Except AppError (List (List ValidatedImageAttachment)) := do
  if request.events.length > maxBatchSize then
    throw (.validation s!"events batch size must be <= {maxBatchSize}")
  let attachments ← request.events.mapM fun event => validateImageAttachments event.attachments
  if request.diagnosticCaptures.length > maxBatchSize then
    throw (.validation s!"diagnostic captures batch size must be <= {maxBatchSize}")
  validateCaptures (request.events.map IngestUsageEvent.eventId) [] request.diagnosticCaptures
  return attachments

section Correlation

variable {known known' seen seen' : List String}

theorem validateEventIds_cons {eventId : String} {rest : List String} :
    validateEventIds known seen (eventId :: rest) = .ok () ↔
      eventId ∈ known ∧ eventId ∉ seen ∧ validateEventIds known (seen ++ [eventId]) rest = .ok () := by
  rw [validateEventIds]
  by_cases hknown : eventId ∈ known
  · by_cases hseen : eventId ∈ seen
    · simp [hknown, hseen, throw_then]
    · simp [hknown, hseen]
  · simp [hknown, throw_then]

theorem validateEventIds_iff {eventIds : List String} : validateEventIds known seen eventIds = .ok () ↔
    eventIds ⊆ known ∧ eventIds.Nodup ∧ ∀ eventId ∈ eventIds, eventId ∉ seen := by
  induction eventIds generalizing seen with
  | nil => simp [validateEventIds]
  | cons eventId rest ih =>
    rw [validateEventIds_cons, ih, List.cons_subset, List.nodup_cons, List.forall_mem_cons]
    simp only [List.mem_append, List.mem_singleton, not_or]
    constructor
    · rintro ⟨hknown, hnew, hrest, hnodup, hothers⟩
      have hhead : eventId ∉ rest := fun hmem => (hothers eventId hmem).2 rfl
      exact ⟨⟨hknown, hrest⟩, ⟨hhead, hnodup⟩, hnew, fun other hother => (hothers other hother).1⟩
    · rintro ⟨⟨hknown, hrest⟩, ⟨hhead, hnodup⟩, hnew, hothers⟩
      exact ⟨hknown, hnew, hrest, hnodup, fun other hother =>
        ⟨hothers other hother, fun hsame => hhead (hsame ▸ hother)⟩⟩

theorem validateEventCorrelation_ok {capture : IngestDiagnosticCapture} :
    capture.validateEventCorrelation known = .ok () ↔ trim capture.captureId ≠ "" ∧ capture.eventIds ≠ [] ∧
      validateEventIds known [] capture.eventIds = .ok () := by
  rw [IngestDiagnosticCapture.validateEventCorrelation]
  by_cases hid : trim capture.captureId = ""
  · simp [hid, throw_then]
  · by_cases hevents : capture.eventIds = []
    · simp [hid, hevents, throw_then]
    · simp [hid, hevents]

theorem validateCaptures_cons {capture : IngestDiagnosticCapture} {rest : List IngestDiagnosticCapture} :
    validateCaptures known seen (capture :: rest) = .ok () ↔
      capture.validateEventCorrelation known = .ok () ∧ capture.captureId ∉ seen ∧
        validateCaptures known (seen ++ [capture.captureId]) rest = .ok () := by
  rw [validateCaptures, bind_eq_ok]
  by_cases hseen : capture.captureId ∈ seen
  · simp [hseen, throw_then]
  · simp [hseen, Unique.exists_iff]

theorem validateCaptures_iff {captures : List IngestDiagnosticCapture} :
    validateCaptures known seen captures = .ok () ↔
    (∀ capture ∈ captures, capture.validateEventCorrelation known = .ok ()) ∧
    (captures.map IngestDiagnosticCapture.captureId).Nodup ∧
    ∀ captureId ∈ captures.map IngestDiagnosticCapture.captureId, captureId ∉ seen := by
  induction captures generalizing seen with
  | nil => simp [validateCaptures]
  | cons capture rest ih =>
    rw [validateCaptures_cons, ih, List.forall_mem_cons, List.map_cons, List.nodup_cons, List.forall_mem_cons]
    simp only [List.mem_append, List.mem_singleton, not_or]
    constructor
    · rintro ⟨hcorrelated, hnew, hrest, hnodup, hothers⟩
      have hhead : capture.captureId ∉ rest.map IngestDiagnosticCapture.captureId :=
        fun hmem => (hothers _ hmem).2 rfl
      exact ⟨⟨hcorrelated, hrest⟩, ⟨hhead, hnodup⟩, hnew, fun other hother => (hothers other hother).1⟩
    · rintro ⟨⟨hcorrelated, hrest⟩, ⟨hhead, hnodup⟩, hnew, hothers⟩
      exact ⟨hcorrelated, hnew, hrest, hnodup,
        fun other hother =>
        ⟨hothers other hother, fun hsame => hhead (hsame ▸ hother)⟩⟩

theorem validateEventCorrelation_known {capture : IngestDiagnosticCapture}
    (h : capture.validateEventCorrelation known = .ok ()) (hknown : capture.eventIds ⊆ known') :
    capture.validateEventCorrelation known' = .ok () := by
  obtain ⟨hid, hevents, heventIds⟩ := validateEventCorrelation_ok.mp h
  obtain ⟨-, hnodup, hseen⟩ := validateEventIds_iff.mp heventIds
  exact validateEventCorrelation_ok.mpr ⟨hid, hevents, validateEventIds_iff.mpr ⟨hknown, hnodup, hseen⟩⟩

end Correlation

section Valid

variable [Sha256] [Base64] {request : IngestEventsRequest} {maxBatchSize : ℕ}
  {validated : List (List ValidatedImageAttachment)}

theorem validateBatch_ok (h : validateBatch request maxBatchSize = .ok validated) :
    List.Forall₂ (fun event attachments => validateImageAttachments event.attachments = .ok attachments)
      request.events validated := by
  rw [validateBatch] at h
  split at h
  · cases h
  · obtain ⟨attachments, hattachments, h⟩ := bind_eq_ok.mp h
    have hall := mapM_ok hattachments
    split at h
    · cases h
    · obtain ⟨⟨⟩, -, h⟩ := bind_eq_ok.mp h
      cases h
      exact hall

theorem validateBatch_length (h : validateBatch request maxBatchSize = .ok validated) :
    validated.length = request.events.length :=
  (validateBatch_ok h).length_eq.symm

theorem validateBatch_storable (h : validateBatch request maxBatchSize = .ok validated) :
    ∀ attachments ∈ validated, AllStorable attachments := by
  intro attachments hattachments
  obtain ⟨event, -, hvalid⟩ := Rows.forall₂_mem_right (validateBatch_ok h) hattachments
  exact validateImageAttachments_ok hvalid

theorem validateBatch_iff : validateBatch request maxBatchSize = .ok validated ↔
    request.events.length ≤ maxBatchSize ∧
    (request.events.mapM fun event => validateImageAttachments event.attachments) = .ok validated ∧
    request.diagnosticCaptures.length ≤ maxBatchSize ∧
    validateCaptures (request.events.map IngestUsageEvent.eventId) [] request.diagnosticCaptures = .ok () := by
  rw [validateBatch]
  by_cases hevents : maxBatchSize < request.events.length
  · simp [hevents, hevents.not_ge, throw_then]
  · by_cases hcaptures : maxBatchSize < request.diagnosticCaptures.length
    · simp [hevents, hcaptures, hcaptures.not_ge, throw_then, bind_eq_ok]
    · simp only [gt_iff_lt, hevents, hcaptures, if_false, not_lt.mp hevents, not_lt.mp hcaptures, true_and, bind_eq_ok]
      constructor
      · rintro ⟨attachments, hattachments, ⟨⟩, hvalid, ⟨⟩⟩
        exact ⟨hattachments, hvalid⟩
      · rintro ⟨hattachments, hvalid⟩
        exact ⟨validated, hattachments, (), hvalid, rfl⟩

end Valid

end AbyssBackend
