import AbyssBackend.Storage.Titles

namespace AbyssBackend.Storage

open Attachments Attempts Conversation Extents Search Text

variable [Sha256] [CaseMapping]

def FactsOf (event : EventRow) (row : StreamFactsRow) : Prop :=
  ∃ subagentId parentSubagentId turnId,
    row = { StreamFactsRow.read event.id event.eventType event.conversation event.previousResponseId.isSome with
      subagentId, parentSubagentId, turnId }

def RefsOf (texts : List SearchText) (event : EventRow) (refs : List SearchRef) : Prop :=
  List.Forall₂ (Refers event.userId event.id texts) (pieces event.conversation) refs

structure IndexKept (store : Store) : Prop where
  indexed : Indexed store.searchTexts store.searchTextsTrigram
  places : (store.searchRefs.map SearchRef.place).Nodup
  refs : ∃ groups, store.searchRefs = groups.flatten ∧ List.Forall₂ (RefsOf store.searchTexts) store.events groups
  used : ∀ text ∈ store.searchTexts, ∃ event ∈ store.events, event.userId = text.userId ∧
    ∃ piece ∈ pieces event.conversation, piece.text = text.text

/-- What every store keeps, whatever was ingested into it. -/
structure Sound (store : Store) : Prop where
  hierarchy : Hierarchy store
  streamFacts : List.Forall₂ FactsOf store.events store.streamFacts
  index : IndexKept store
  attachments : ∀ attachment ∈ store.attachments, ∃ event ∈ store.events,
    event.id = attachment.eventPk ∧ event.userId = attachment.userId
  titles : TitlesKept store.events store.sessionTitles

section Step

variable {userId deviceId sessionPk : Uuid} {event : IngestUsageEvent} {attachments : List ValidatedImageAttachment}
  {draw : EventDraw} {texts : List SearchText} {refs : List SearchRef} {store after : Store}

omit [CaseMapping] in
theorem newFacts_of (event : IngestUsageEvent) :
    FactsOf (newEvent userId deviceId sessionPk event draw) (newFacts draw.eventPk event) :=
  ⟨event.subagentId, event.parentSubagentId, event.turnId, rfl⟩

omit [CaseMapping] in
theorem RefsOf.mono {texts texts' : List SearchText} {row : EventRow} {refs : List SearchRef}
    (h : RefsOf texts row refs) (hsub : ∀ text ∈ texts, text ∈ texts') : RefsOf texts' row refs :=
  List.Forall₂.imp (fun _ _ hrefers => hrefers.mono hsub) h

theorem IndexKept.admitted (h : IndexKept store)
    (hadmitted : Admitted userId event attachments draw deviceId sessionPk texts refs store after) :
    IndexKept after := by
  refine ⟨hadmitted.indexed, hadmitted.places, ?_, fun text htext => ?_⟩
  · obtain ⟨groups, hgroups, hrefs⟩ := h.refs
    refine ⟨groups ++ [refs], ?_, ?_⟩
    · rw [hadmitted.searchRefs, hgroups, List.flatten_append, List.flatten_singleton]
    · rw [hadmitted.events]
      refine Rows.forall₂_concat (hrefs.imp fun _ _ hof => hof.mono fun text htext => ?_) hadmitted.refers
      rw [hadmitted.searchTexts]
      exact List.mem_append_left _ htext
  · rw [hadmitted.searchTexts] at htext
    rw [hadmitted.events]
    obtain hold | hnew := List.mem_append.mp htext
    · obtain ⟨row, hrow, hpiece⟩ := h.used text hold
      exact ⟨row, List.mem_append_left _ hrow, hpiece⟩
    · obtain ⟨howner, hpiece⟩ := hadmitted.textsUsed text hnew
      exact ⟨_, List.mem_append_right _ (List.mem_singleton_self _), howner.symm, hpiece⟩

theorem Sound.admitted (h : Sound store)
    (hadmitted : Admitted userId event attachments draw deviceId sessionPk texts refs store after) : Sound after := by
  have hhierarchy := h.hierarchy.admitted hadmitted
  refine ⟨hhierarchy, ?_, h.index.admitted hadmitted, fun attachment hattachment => ?_, ?_⟩
  · rw [hadmitted.events, hadmitted.streamFacts]
    exact Rows.forall₂_concat h.streamFacts (newFacts_of event)
  · rw [hadmitted.attachments] at hattachment
    rw [hadmitted.events]
    obtain hold | hnew := List.mem_append.mp hattachment
    · obtain ⟨row, hrow, hof⟩ := h.attachments attachment hold
      exact ⟨row, List.mem_append_left _ hrow, hof⟩
    · obtain ⟨indexed, -, rfl⟩ := List.mem_map.mp hnew
      exact ⟨_, List.mem_append_right _ (List.mem_singleton_self _), rfl, rfl⟩
  · have hnew : newEvent userId deviceId sessionPk event draw ∈ after.events := by
      rw [hadmitted.events]
      exact List.mem_append_right _ (List.mem_singleton_self _)
    rw [hadmitted.events]
    apply h.titles.kept hadmitted.titles
    intro other hother hsame
    refine hhierarchy.same_owner ?_ hnew hsame
    rw [hadmitted.events]
    exact List.mem_append_left _ hother

theorem Sound.ingestOneEvent (h : Sound store) {new : Bool}
    (hok : ingestOneEvent userId event attachments draw store = .ok (new, after)) : Sound after := by
  obtain ⟨-, -, rfl⟩ | ⟨-, deviceId, sessionPk, texts, refs, hadmitted⟩ :=
    ingestOneEvent_cases hok h.index.indexed h.index.places
  · exact h
  · exact h.admitted hadmitted

theorem Sound.ingestOneDiagnosticCapture (h : Sound store) {capture : IngestDiagnosticCapture} {draw : CaptureDraw}
    {new : Bool} (hok : ingestOneDiagnosticCapture userId capture draw store = .ok (new, after)) : Sound after := by
  obtain ⟨-, -, rfl⟩ | ⟨-, -, deviceId, sessionPk, rows, rfl⟩ := ingestOneDiagnosticCapture_cases hok
  · exact h
  · exact ⟨{ h.hierarchy with }, h.streamFacts, { h.index with }, h.attachments, h.titles⟩

variable [Base64]

theorem Sound.ingestEvents (h : Sound store) {request : IngestEventsRequest} {maxBatchSize : ℕ} {draws : Draws}
    {response : IngestEventsResponse}
    (hok : ingestEvents request userId maxBatchSize draws store = .ok (response, after)) : Sound after := by
  obtain ⟨validated, events, captures, -, hevents, hcaptures, rfl, rfl⟩ := ingestEvents_ok.mp hok
  have hmiddle : Sound events.store := ingestAll_keeps hevents h fun _ _ _ _ _ hbefore hstep =>
    hbefore.ingestOneEvent hstep
  exact ingestAll_keeps hcaptures hmiddle fun _ _ _ _ _ hbefore hstep => hbefore.ingestOneDiagnosticCapture hstep

omit [Base64] in
theorem sound_start (users : List Uuid) : Sound { users } where
  hierarchy := ⟨List.nodup_nil, List.nodup_nil, List.nodup_nil, List.nodup_nil, List.nodup_nil, List.nodup_nil,
    by simp, by simp, by simp, by simp, spans_nil, spans_nil⟩
  streamFacts := .nil
  index := ⟨⟨List.nodup_nil, List.nodup_nil, by simp, rfl⟩, List.nodup_nil, ⟨[], rfl, .nil⟩, by simp⟩
  attachments := by simp
  titles := ⟨List.nodup_nil, by simp, by simp⟩

theorem Reachable.sound (h : Reachable store) : Sound store := by
  induction h with
  | start users => exact sound_start users
  | @ingest store _ request userId maxBatchSize draws ih =>
    unfold afterIngest
    split
    · next response after hok => exact ih.ingestEvents hok
    · exact ih

theorem Reachable.ingested_ok (h : Reachable store) {request : IngestEventsRequest} {userId : Uuid} {maxBatchSize : ℕ}
    {draws : Draws} {response : IngestEventsResponse} {after : Store}
    (hok : ingestEvents request userId maxBatchSize draws store = .ok (response, after)) : Reachable after := by
  have hafter : afterIngest request userId maxBatchSize draws store = after := by
    rw [afterIngest, hok]
  exact hafter ▸ .ingest h request userId maxBatchSize draws

/-- What an empty store has, and every event and capture that is stored keeps. -/
theorem Reachable.keeps {P : Store → Prop} (h : Reachable store) (hstart : ∀ users, P { users })
    (hevent : ∀ userId event attachments draw before new after, Sound before → P before →
      Storage.ingestOneEvent userId event attachments draw before = .ok (new, after) → P after)
    (hcapture : ∀ userId capture draw before new after, P before →
      Storage.ingestOneDiagnosticCapture userId capture draw before = .ok (new, after) → P after) : P store := by
  induction h with
  | start users => exact hstart users
  | @ingest store hreachable request userId maxBatchSize draws ih =>
    unfold afterIngest
    split
    · next response after hok =>
      obtain ⟨validated, events, captures, -, hevents, hcaptures, rfl, rfl⟩ := ingestEvents_ok.mp hok
      have hmiddle : Sound events.store ∧ P events.store := by
        apply ingestAll_keeps hevents (P := fun store => Sound store ∧ P store) ⟨hreachable.sound, ih⟩
        rintro ⟨event, attachments⟩ index before new after ⟨hsound, hkept⟩ hstep
        exact ⟨hsound.ingestOneEvent hstep, hevent _ _ _ _ _ _ _ hsound hkept hstep⟩
      apply ingestAll_keeps hcaptures hmiddle.2
      intro capture index before new after hkept hstep
      exact hcapture _ _ _ _ _ _ hkept hstep
    · exact ih

end Step

section Grown

variable {userId : Uuid} {store : Store}

/-- The later store holds the events of the earlier one, and newer ones. -/
structure Grown (before after : Store) : Prop where
  sound : Sound before
  soundAfter : Sound after
  users : after.users = before.users
  events : before.events <+: after.events
  captures : after.captures = before.captures
  captureEvents : after.captureEvents = before.captureEvents

theorem events_grown (h : Sound store) {items : List (IngestUsageEvent × List ValidatedImageAttachment)}
    {draws : ℕ → EventDraw} {events : Tally} (hok : ingestAll (fun item index =>
      ingestOneEvent userId item.1 item.2 (draws index)) items store = .ok events) : Grown store events.store := by
  refine ingestAll_keeps hok (P := Grown store) ⟨h, h, rfl, List.prefix_rfl, rfl, rfl⟩ ?_
  intro item index before new after hbefore hstep
  obtain ⟨-, -, rfl⟩ | ⟨-, deviceId, sessionPk, texts, refs, hadmitted⟩ :=
    ingestOneEvent_cases hstep hbefore.soundAfter.index.indexed hbefore.soundAfter.index.places
  · exact hbefore
  · exact {
      sound := h
      soundAfter := hbefore.soundAfter.ingestOneEvent hstep
      users := hadmitted.users.trans hbefore.users
      events := hbefore.events.trans (hadmitted.events ▸ List.prefix_append _ _)
      captures := hadmitted.captures.trans hbefore.captures
      captureEvents := hadmitted.captureEvents.trans hbefore.captureEvents }

end Grown

section Attachments

variable {userId eventPk : Uuid} {event : IngestUsageEvent} {attachments : List ValidatedImageAttachment}
  {draw : EventDraw} {store before after : Store}

structure AttachmentsApart (store : Store) : Prop where
  ids : (store.attachments.map AttachmentRow.id).Nodup
  places : (store.attachments.map AttachmentRow.place).Nodup

omit [Sha256] [CaseMapping] in
theorem AttachmentsApart.inserted (h : AttachmentsApart store)
    (hok : insertAttachments userId eventPk attachments draw before = .ok after)
    (hsame : before.attachments = store.attachments) : AttachmentsApart after := by
  refine foldlM_ok hok (P := fun _ after => AttachmentsApart after) ⟨hsame ▸ h.ids, hsame ▸ h.places⟩ ?_
  rintro done ⟨attachment, index⟩ before after hbefore hstep
  obtain ⟨-, htaken, -, rfl⟩ := Store.write_eq_ok.mp hstep
  obtain ⟨hid, hplace⟩ := Rows.free_both_iff.mp htaken
  exact ⟨Rows.nodup_concat hbefore.ids hid, Rows.nodup_concat hbefore.places hplace⟩

theorem AttachmentsApart.ingestOneEvent (h : AttachmentsApart store) (hsound : Sound store) {new : Bool}
    (hok : ingestOneEvent userId event attachments draw store = .ok (new, after)) : AttachmentsApart after := by
  obtain ⟨-, -, rfl⟩ | ⟨rfl, deviceId, sessionPk, texts, refs, hadmitted⟩ :=
    ingestOneEvent_cases hok hsound.index.indexed hsound.index.places
  · exact h
  · rw [Storage.ingestOneEvent] at hok
    split_ifs at hok with hknown
    · cases hok
    · obtain ⟨⟨deviceId, withDevice⟩, hdevice, hok⟩ := bind_eq_ok.mp hok
      obtain ⟨devices, -, rfl⟩ := upsertDevice_spec hdevice
      obtain ⟨⟨sessionPk, withSession⟩, hsession, hok⟩ := bind_eq_ok.mp hok
      obtain ⟨sessions, -, rfl⟩ := upsertSession_spec hsession
      obtain ⟨⟨inserted, withEvent⟩, hinsert, hok⟩ := bind_eq_ok.mp hok
      obtain ⟨rfl, -, -⟩ | ⟨rfl, -, -, rfl⟩ := insertEvent_cases hinsert
      · cases hok
      · simp only [ne_eq, not_true_eq_false, if_false] at hok
        obtain ⟨withFacts, hfacts, hok⟩ := bind_eq_ok.mp hok
        obtain ⟨-, rfl⟩ := insertFacts_spec hfacts
        obtain ⟨withAttachments, hattachments, -⟩ := bind_eq_ok.mp hok
        have hapart := h.inserted hattachments rfl
        rw [insertAttachments_spec hattachments] at hapart
        exact ⟨hadmitted.attachments ▸ hapart.ids, hadmitted.attachments ▸ hapart.places⟩

theorem Reachable.attachmentsApart [Base64] (h : Reachable store) : AttachmentsApart store := by
  apply h.keeps
  · exact fun users => ⟨List.nodup_nil, List.nodup_nil⟩
  · exact fun userId event attachments draw before new after hsound hapart hok => hapart.ingestOneEvent hsound hok
  · intro userId capture draw before new after hapart hok
    obtain ⟨-, -, rfl⟩ | ⟨-, -, deviceId, sessionPk, rows, rfl⟩ := ingestOneDiagnosticCapture_cases hok
    · exact hapart
    · exact ⟨hapart.ids, hapart.places⟩

end Attachments

end AbyssBackend.Storage
