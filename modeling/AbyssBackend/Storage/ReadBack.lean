import AbyssBackend.Storage.ExactFilters
import AbyssBackend.Storage.Constraints
import AbyssBackend.Storage.MostRecent
import AbyssBackend.Usage.AttachmentLists

namespace AbyssBackend.Storage

open Attachments Attempts Groups PaddedBase64 Reports Search Sorting Streams Text

section Kept

variable [Sha256] [Base64] {store after : Store} {delivery : Delivery} {draw : EventDraw}
  {attachments : List ValidatedImageAttachment}

/-- The rows that a delivered event is kept as. -/
structure KeptAs (store : Store) (delivery : Delivery) (draw : EventDraw)
    (attachments : List ValidatedImageAttachment) : Prop where
  valid : validateImageAttachments delivery.event.attachments = .ok attachments
  event : ∃ sessionPk, ∃ device ∈ store.devices, device.key = delivery.deviceKey ∧
    newEvent delivery.userId device.id sessionPk delivery.event draw ∈ store.events
  facts : newFacts draw.eventPk delivery.event ∈ store.streamFacts
  attachments : (store.attachments.filter fun row => row.eventPk == draw.eventPk) =
    attachments.zipIdx.map fun indexed => newAttachment delivery.userId draw.eventPk indexed.1 draw indexed.2

/-- Every event that was stored is kept. -/
def LogKept (log : List Delivery) (store : Store) : Prop :=
  ∀ delivery ∈ log, ∃ draw attachments, KeptAs store delivery draw attachments

variable [CaseMapping] {userId deviceId sessionPk : Uuid} {event : IngestUsageEvent} {newDraw : EventDraw}
  {more : List ValidatedImageAttachment} {texts : List SearchText} {refs : List SearchRef}

theorem KeptAs.admitted (h : KeptAs store delivery draw attachments)
    (hadmitted : Admitted userId event more newDraw deviceId sessionPk texts refs store after) :
    KeptAs after delivery draw attachments := by
  obtain ⟨sessionPk', device, hdevice, hkey, hevent⟩ := h.event
  obtain ⟨seen, hseen, hid, hseenKey⟩ := hadmitted.device.kept_key hdevice
  refine ⟨h.valid, ⟨sessionPk', seen, hseen, hseenKey.trans hkey, ?_⟩, ?_, ?_⟩
  · rw [hadmitted.events, hid]
    exact List.mem_append_left _ hevent
  · rw [hadmitted.streamFacts]
    exact List.mem_append_left _ h.facts
  · have hother : newDraw.eventPk ≠ draw.eventPk := fun hsame =>
      hadmitted.newPk (hsame ▸ List.mem_map_of_mem hevent)
    rw [hadmitted.attachments, List.filter_append, h.attachments, List.append_right_eq_self]
    refine List.filter_eq_nil_iff.mpr fun row hrow => ?_
    obtain ⟨indexed, -, rfl⟩ := List.mem_map.mp hrow
    exact fun hsame => hother (beq_iff_eq.mp hsame)

theorem Admitted.kept (hsound : Sound store) (hvalid : validateImageAttachments event.attachments = .ok more)
    (hadmitted : Admitted userId event more newDraw deviceId sessionPk texts refs store after) :
    KeptAs after ⟨userId, event⟩ newDraw more := by
  obtain ⟨seen, hseen, rfl, hkey⟩ := hadmitted.device.seen_key
  refine ⟨hvalid, ⟨sessionPk, seen, hseen, hkey, ?_⟩, ?_, ?_⟩
  · rw [hadmitted.events]
    exact List.mem_append_right _ (List.mem_singleton_self _)
  · rw [hadmitted.streamFacts]
    exact List.mem_append_right _ (List.mem_singleton_self _)
  · have hnone : (store.attachments.filter fun row => row.eventPk == newDraw.eventPk) = [] :=
      List.filter_eq_nil_iff.mpr fun row hrow hsame =>
        (hsound.childless hadmitted.newPk).attachments row hrow (beq_iff_eq.mp hsame)
    rw [hadmitted.attachments, List.filter_append, hnone, List.nil_append]
    refine List.filter_eq_self.mpr fun row hrow => ?_
    obtain ⟨indexed, -, rfl⟩ := List.mem_map.mp hrow
    exact beq_self_eq_true _

theorem LogKept.received {log : List Delivery} (h : LogKept log store) (htracks : Tracks log store)
    (hvalid : validateImageAttachments event.attachments = .ok more) {new : Bool}
    (hok : ingestOneEvent userId event more newDraw store = .ok (new, after)) :
    LogKept (receive log ⟨userId, event⟩) after := by
  unfold receive
  obtain ⟨-, hknown, rfl⟩ | ⟨-, deviceId, sessionPk, texts, refs, hadmitted⟩ :=
    ingestOneEvent_cases hok htracks.sound.index.indexed htracks.sound.index.places
  · rw [if_pos (htracks.eventIds ▸ hknown)]
    exact h
  · rw [if_neg (htracks.eventIds ▸ hadmitted.newId)]
    intro delivery hdelivery
    obtain hold | hnew := List.mem_append.mp hdelivery
    · obtain ⟨draw, attachments, hkept⟩ := h delivery hold
      exact ⟨draw, attachments, hkept.admitted hadmitted⟩
    · obtain rfl := List.mem_singleton.mp hnew
      exact ⟨newDraw, more, hadmitted.kept htracks.sound hvalid⟩

theorem LogKept.batch {log : List Delivery} (h : LogKept log store) (htracks : Tracks log store) {draws : Draws}
    {items : List (IngestUsageEvent × List ValidatedImageAttachment)} {stop : Tally}
    (hvalid : ∀ item ∈ items, validateImageAttachments item.1.attachments = .ok item.2)
    (hok : ingestAll (fun item index => ingestOneEvent userId item.1 item.2 (draws.event index)) items store =
      .ok stop) : LogKept ((items.map fun item => Delivery.mk userId item.1).foldl receive log) stop.store := by
  have hrun : (∀ place ∈ items.zipIdx, validateImageAttachments place.1.1.attachments = .ok place.1.2) →
      Tracks ((items.zipIdx.map fun place => Delivery.mk userId place.1.1).foldl receive log) stop.store ∧
      LogKept ((items.zipIdx.map fun place => Delivery.mk userId place.1.1).foldl receive log) stop.store := by
    refine foldlM_ok hok (P := fun (done : List ((IngestUsageEvent × List ValidatedImageAttachment) × ℕ))
      (tally : Tally) => (∀ place ∈ done, validateImageAttachments place.1.1.attachments = .ok place.1.2) →
        Tracks ((done.map fun place => Delivery.mk userId place.1.1).foldl receive log) tally.store ∧
        LogKept ((done.map fun place => Delivery.mk userId place.1.1).foldl receive log) tally.store)
      (fun _ => ⟨htracks, h⟩) ?_
    rintro done ⟨⟨event, attachments⟩, index⟩ before after hbefore hstep hdone
    obtain ⟨⟨new, stored⟩, hone, hcount⟩ := bind_eq_ok.mp hstep
    cases hcount
    obtain ⟨hdone, hlast⟩ := List.forall_mem_append.mp hdone
    obtain ⟨htracks, hkept⟩ := hbefore hdone
    rw [List.map_append, List.map_singleton, List.foldl_concat]
    have hstored := hkept.received htracks (hlast _ (List.mem_singleton_self _)) hone
    have htracked := htracks.event hone
    cases new
    · exact ⟨htracked, hstored⟩
    · exact ⟨htracked, hstored⟩
  have hitems : (items.zipIdx.map fun place => Delivery.mk userId place.1.1) =
      items.map fun item => Delivery.mk userId item.1 := by
    conv_rhs => rw [← List.zipIdx_map_fst 0 items, List.map_map]
    rfl
  rw [hitems] at hrun
  apply (hrun _).2
  intro place hplace
  exact hvalid _ (List.fst_mem_of_mem_zipIdx hplace)

theorem Delivered.logKept {log : List Delivery} (h : Delivered log store) : LogKept log store := by
  induction h with
  | start users => simp [LogKept]
  | @ingest log store after h request userId maxBatchSize draws response hok ih =>
    obtain ⟨validated, events, captures, hvalidated, hevents, hcaptures, rfl, rfl⟩ := ingestEvents_ok.mp hok
    have hvalid : ∀ item ∈ request.events.zip validated,
        validateImageAttachments item.1.attachments = .ok item.2 := fun item hitem =>
      (List.forall₂_iff_zip.mp (validateBatch_ok hvalidated)).2 hitem
    have hmiddle := ih.batch h.tracks hvalid hevents
    have hitems : ((request.events.zip validated).map fun item => Delivery.mk userId item.1) =
        request.events.map (Delivery.mk userId) := by
      conv_rhs => rw [← List.map_fst_zip (validateBatch_length hvalidated).ge, List.map_map]
      rfl
    rw [hitems] at hmiddle
    apply ingestAll_keeps hcaptures hmiddle
    intro capture index before new after hbefore hstep
    obtain ⟨-, -, rfl⟩ | ⟨-, -, deviceId, sessionPk, rows, rfl⟩ := ingestOneDiagnosticCapture_cases hstep
    · exact hbefore
    · intro delivery hdelivery
      obtain ⟨draw, attachments, hkept⟩ := hbefore delivery hdelivery
      exact ⟨draw, attachments, { hkept with }⟩

end Kept

section Loads

variable {store : Store} {event : EventRow}

theorem loadDeviceContexts_self (hids : (store.devices.map DeviceRow.id).Nodup) {device : DeviceRow}
    (hdevice : device ∈ store.devices) (hid : device.id = event.deviceContextId) :
    loadDeviceContexts store [event] event.deviceContextId = some device := by
  apply Tables.ofPairs_of_mem
  · refine List.mem_map.mpr ⟨device, List.mem_filter.mpr ⟨hdevice, ?_⟩, by rw [hid]⟩
    simp [hid]
  · intro other hother
    obtain ⟨found, hfound, hpair⟩ := List.mem_map.mp hother
    obtain ⟨hfoundId, rfl⟩ := Prod.mk.inj hpair
    exact List.inj_on_of_nodup_map hids (List.mem_filter.mp hfound).1 hdevice (hfoundId.trans hid.symm)

theorem loadDeclaredIds_self (hpks : (store.streamFacts.map StreamFactsRow.eventPk).Nodup) {row : StreamFactsRow}
    (hrow : row ∈ store.streamFacts) (hpk : row.eventPk = event.id) :
    loadDeclaredIds store [event] event.id = some row.declared := by
  apply Tables.ofPairs_of_mem
  · refine List.mem_map.mpr ⟨row, List.mem_filter.mpr ⟨hrow, ?_⟩, by rw [hpk]⟩
    simp [hpk]
  · intro declared hdeclared
    obtain ⟨found, hfound, hpair⟩ := List.mem_map.mp hdeclared
    obtain ⟨hfoundPk, rfl⟩ := Prod.mk.inj hpair
    rw [List.inj_on_of_nodup_map hpks (List.mem_filter.mp hfound).1 hrow (hfoundPk.trans hpk.symm)]

theorem loadAttachments_self {rows : List AttachmentRow} (hrows : (store.attachments.filter fun row =>
    row.eventPk == event.id) = rows) (hsorted : rows.Pairwise fun x y => x.position < y.position) :
    (loadAttachments store [event] event.id).getD [] = rows.map AttachmentRow.response := by
  have hpks : ∀ row ∈ rows, row.eventPk = event.id := by
    intro row hrow
    rw [← hrows] at hrow
    exact beq_iff_eq.mp (List.mem_filter.mp hrow).2
  have horder : sortBy AttachmentRow.order rows = rows := by
    apply sortBy_eq (List.Perm.refl rows)
    · refine hsorted.imp_of_mem fun {x y} hx hy hxy => ?_
      rw [AttachmentRow.order, AttachmentRow.order, hpks x hx, hpks y hy]
      exact Prod.Lex.le_iff.mpr (Or.inr ⟨rfl, hxy.le⟩)
    · intro x hx y hy hsame
      have hposition : x.position = y.position := congrArg (fun order => (ofLex order).2) hsame
      have hdistinct : (rows.map AttachmentRow.position).Nodup :=
        List.pairwise_map.mpr (hsorted.imp fun hxy => hxy.ne)
      exact List.inj_on_of_nodup_map hdistinct hx hy hposition
  have hfilter : (store.attachments.filter fun row => ([event].map EventRow.id).contains row.eventPk) = rows := by
    rw [← hrows]
    apply List.filter_congr
    intro row _
    rw [Bool.eq_iff_iff]
    simp
  unfold loadAttachments
  simp only [hfilter, horder]
  cases hempty : rows with
  | nil => rfl
  | cons first others =>
    rw [← hempty]
    have hfirst : first ∈ rows := hempty ▸ List.mem_cons_self
    have hall : (rows.filter fun row => row.eventPk = event.id) = rows :=
      List.filter_eq_self.mpr fun row hrow => decide_eq_true (hpks row hrow)
    have hgroup : (event.id, rows) ∈ groupBy AttachmentRow.eventPk rows :=
      mem_groupBy.mpr ⟨hall.symm, first, hfirst, hpks first hfirst⟩
    apply Tables.getD_ofPairs
    · exact List.mem_map.mpr ⟨_, hgroup, rfl⟩
    · intro shown hshown
      obtain ⟨⟨eventPk, members⟩, hmembers, hpair⟩ := List.mem_map.mp hshown
      obtain ⟨rfl, rfl⟩ := Prod.mk.inj hpair
      rw [(mem_groupBy.mp hmembers).1, hall]

end Loads

section Reads

variable [Sha256] [Base64] {store : Store} {delivery : Delivery} {draw : EventDraw}
  {attachments : List ValidatedImageAttachment} {sent : IngestImageAttachment} {row : AttachmentRow}

/-- The row of an attachment that was sent. -/
structure SentAs (owner eventPk : Uuid) (sent : IngestImageAttachment) (row : AttachmentRow) : Prop where
  userId : row.userId = owner
  eventPk : row.eventPk = eventPk
  position : row.position = sent.position
  mediaType : row.mediaType = sent.mediaType
  byteSize : row.byteSize = sent.byteSize
  sha256 : hexEncode row.sha256 = trim sent.sha256
  content : Option.Rel (fun encoded bytes => encoded.toList = encode bytes ∧ bytes.length = sent.byteSize ∧
    Sha256.digestBytes bytes = row.sha256 ∧ sent.mediaType.matchesSignature bytes = true)
    sent.contentBase64 row.content

/-- An attachment that is shown as it was sent, and whose content is downloaded by the id shown. -/
structure Shown (store : Store) (owner : Uuid) (sent : IngestImageAttachment)
    (shown : UsageEventAttachmentResponse) : Prop where
  position : shown.position = sent.position
  mediaType : shown.mediaType = sent.mediaType
  byteSize : shown.byteSize = sent.byteSize
  sha256 : shown.sha256 = trim sent.sha256
  contentAvailable : shown.contentAvailable = sent.contentBase64.isSome
  content : ∀ encoded ∈ sent.contentBase64, ∃ content, encoded.toList = encode content ∧
    imageAttachment store owner shown.id = .ok ⟨sent.mediaType, trim sent.sha256, content⟩
  missing : sent.contentBase64 = none → imageAttachment store owner shown.id =
    .error (.notFound s!"image attachment content not found: {uuidText shown.id}")

omit [Base64] in
theorem newAttachment_sentAs {attachment : ValidatedImageAttachment} (h : Validates sent attachment)
    (owner : Uuid) (index : ℕ) :
    SentAs owner draw.eventPk sent (newAttachment owner draw.eventPk attachment draw index) := by
  refine ⟨rfl, rfl, h.position, h.mediaType, h.byteSize, h.sha256.2, ?_⟩
  have hcontent := h.content
  unfold newAttachment
  generalize sent.contentBase64 = declared, attachment.content = content at hcontent
  cases hcontent with
  | none => exact .none
  | some hbytes => exact .some hbytes

omit [Base64] in
theorem SentAs.shown {owner eventPk : Uuid} (h : SentAs owner eventPk sent row) (hapart : AttachmentsApart store)
    (hrow : row ∈ store.attachments) : Shown store owner sent row.response := by
  have hfind : (store.attachments.find? fun other => other.id == row.id && other.userId == owner) = some row := by
    apply Rows.find?_key hapart.ids hrow
    · simp [h.userId]
    · intro other _ hsame
      exact beq_iff_eq.mp (Bool.and_eq_true_iff.mp hsame).1
  have hcontent : (sent.contentBase64 = none ∧ row.content = none) ∨ ∃ encoded content,
      sent.contentBase64 = some encoded ∧ row.content = some content ∧ encoded.toList = encode content ∧
        content.length = sent.byteSize := by
    have hcontent := h.content
    generalize sent.contentBase64 = declared, row.content = stored at hcontent
    cases hcontent with
    | none => exact Or.inl ⟨rfl, rfl⟩
    | some hbytes => exact Or.inr ⟨_, _, rfl, rfl, hbytes.1, hbytes.2.1⟩
  obtain ⟨hsent, hstored⟩ | ⟨encoded, content, hsent, hstored, htext, hlength⟩ := hcontent
  · refine ⟨h.position, h.mediaType, h.byteSize, h.sha256, ?_, ?_, fun _ => ?_⟩
    · simp [AttachmentRow.response, hsent, hstored]
    · simp [hsent]
    · simp [AttachmentRow.response, imageAttachment, hfind, hstored]
  · refine ⟨h.position, h.mediaType, h.byteSize, h.sha256, ?_, ?_, ?_⟩
    · simp [AttachmentRow.response, hsent, hstored]
    · intro other hother
      obtain rfl : encoded = other := Option.some.inj (hsent.symm.trans hother)
      refine ⟨content, htext, ?_⟩
      simp [AttachmentRow.response, imageAttachment, hfind, hstored, hlength, h.byteSize, h.mediaType, h.sha256]
    · simp [hsent]

variable [LawfulBase64]

theorem KeptAs.attachmentRows (h : KeptAs store delivery draw attachments) :
    ((sortBy IngestImageAttachment.position delivery.event.attachments).Pairwise fun x y => x.position < y.position) ∧
    List.Forall₂ (SentAs delivery.userId draw.eventPk)
      (sortBy IngestImageAttachment.position delivery.event.attachments)
      (store.attachments.filter fun row => row.eventPk == draw.eventPk) := by
  obtain ⟨-, hfits, unsorted, hall, rfl⟩ := validateImageAttachments_eq_ok.mp h.valid
  refine ⟨sortBy_ascending hfits, ?_⟩
  rw [h.attachments, List.forall₂_map_right_iff]
  have hsorted : List.Forall₂ Validates (sortBy IngestImageAttachment.position delivery.event.attachments)
      ((sortBy ValidatedImageAttachment.position unsorted).zipIdx.map Prod.fst) := by
    rw [List.zipIdx_map_fst]
    exact forall₂_sortBy hall fun _ _ hvalidates => hvalidates.position.symm
  rw [List.forall₂_map_right_iff] at hsorted
  exact hsorted.imp fun _ indexed hvalidates => newAttachment_sentAs hvalidates delivery.userId indexed.2

/-- What an event that was sent reads as: its time cut to microseconds, zero for each count it leaves out, and of its
metadata what is recorded. The version of the operating system is left open: the row of the device has the last one
that any event reported. -/
structure ReadBack (store : Store) (delivery : Delivery) (response : UsageEventResponse) : Prop where
  eventId : response.eventId = delivery.event.eventId
  sessionId : response.sessionId = delivery.event.sessionId
  observedAt : response.observedAt = timestampFromMicros (timestampToMicros delivery.event.observedAt)
  eventType : response.eventType = delivery.event.eventType.asStr
  agent : response.agent = ⟨delivery.event.agent.name, delivery.event.agent.version⟩
  hostName : response.device.hostName = some delivery.event.device.hostName
  platform : response.device.platform = some delivery.event.device.platform
  llm : response.llm = ⟨delivery.event.llm.provider, delivery.event.llm.model⟩
  declared : response.declared =
    ⟨delivery.event.subagentId, delivery.event.parentSubagentId, delivery.event.turnId⟩
  responseId : response.responseId = delivery.event.responseId
  previousResponseId : response.previousResponseId = delivery.event.previousResponseId
  tokenUsage : response.tokenUsage =
    ⟨delivery.event.tokenUsage.inputTokens.getD 0, delivery.event.tokenUsage.outputTokens.getD 0,
      delivery.event.tokenUsage.cacheReadTokens.getD 0, delivery.event.tokenUsage.cacheWriteTokens.getD 0,
      delivery.event.tokenUsage.reasoningTokens.getD 0, delivery.event.tokenUsage.totalTokens.getD 0⟩
  recorded : ⟨response.purpose, response.omitted, response.http⟩ = RecordedMetadata.read delivery.event.metadata
  conversation : response.conversation = delivery.event.conversation
  location : response.location.isSome
  attachments : List.Forall₂ (Shown store delivery.userId)
    (sortBy IngestImageAttachment.position delivery.event.attachments) response.attachments

variable [CaseMapping]

theorem KeptAs.read (h : KeptAs store delivery draw attachments) (hsound : Sound store)
    (hapart : AttachmentsApart store) : ∃ response,
      SqliteFtsBackend.usageEvent store delivery.userId draw.eventPk = .ok response ∧
      ReadBack store delivery response := by
  have hierarchy := hsound.hierarchy
  obtain ⟨sessionPk, device, hdevice, hkey, hevent⟩ := h.event
  let event := newEvent delivery.userId device.id sessionPk delivery.event draw
  obtain ⟨session, hsession, hof⟩ := hierarchy.sessions event hevent
  have hstructure : sessionStructure store delivery.userId sessionPk =
      .ok (.derive (streamEvents store sessionPk)) := by
    have hown := hasOwnSession_of_mem hsession hof.userId
    rw [hof.id] at hown
    exact sessionStructure_of_event hown hevent rfl
  have hfactsPks : (store.streamFacts.map StreamFactsRow.eventPk).Nodup :=
    factsOf_pks hsound.streamFacts ▸ hierarchy.eventPks
  have hfind : (store.events.find? fun other => other.id == draw.eventPk && other.userId == delivery.userId) =
      some event := by
    apply Rows.find?_key hierarchy.eventPks hevent
    · simp [newEvent]
    · intro other _ hsame
      exact beq_iff_eq.mp (Bool.and_eq_true_iff.mp hsame).1
  obtain ⟨hascending, hrows⟩ := h.attachmentRows
  have hdeviceRow : loadDeviceContexts store [event] device.id = some device :=
    loadDeviceContexts_self hierarchy.deviceIds hdevice rfl
  have hdeclared : loadDeclaredIds store [event] draw.eventPk = some (newFacts draw.eventPk delivery.event).declared :=
    loadDeclaredIds_self hfactsPks h.facts (newFacts_of delivery.event).eventPk
  have hpositions : (store.attachments.filter fun row => row.eventPk == draw.eventPk).map AttachmentRow.position =
      (sortBy IngestImageAttachment.position delivery.event.attachments).map IngestImageAttachment.position :=
    (Rows.forall₂_map_eq hrows fun _ _ _ _ hsent => hsent.position.symm).symm
  have hshown : (loadAttachments store [event] draw.eventPk).getD [] =
      (store.attachments.filter fun row => row.eventPk == draw.eventPk).map AttachmentRow.response := by
    apply loadAttachments_self rfl
    rw [← List.pairwise_map] at hascending ⊢
    exact hpositions ▸ hascending
  obtain ⟨streamEvent, hstreamEvent, hpk⟩ := streamEvents_mem hevent
  have hlocation : ((SessionStructure.derive (streamEvents store sessionPk)).eventPosition draw.eventPk).isSome := by
    have hlocated := SessionStructure.eventPosition_isSome
      (streamEvents_pks hierarchy.eventPks hfactsPks sessionPk) hstreamEvent
    rwa [hpk] at hlocated
  have hread : usageEvent store delivery.userId draw.eventPk = .ok (eventResponse event
      (loadDeviceContexts store [event] device.id) ((loadDeclaredIds store [event] draw.eventPk).getD {})
      ((loadAttachments store [event] draw.eventPk).getD [])) := by
    rw [usageEvent, hfind]
    rfl
  rw [hdeviceRow, hdeclared, hshown, Option.getD_some] at hread
  simp only [DeviceRow.key, Delivery.deviceKey, Prod.mk.injEq] at hkey
  refine ⟨_, bind_eq_ok.mpr ⟨_, hread, bind_eq_ok.mpr ⟨_, hstructure, rfl⟩⟩, ?_⟩
  refine
    { eventId := rfl
      sessionId := rfl
      observedAt := rfl
      eventType := rfl
      agent := rfl
      hostName := congrArg some hkey.2.1
      platform := congrArg some hkey.2.2
      llm := rfl
      declared := rfl
      responseId := rfl
      previousResponseId := rfl
      tokenUsage := rfl
      recorded := rfl
      conversation := rfl
      location := hlocation
      attachments := ?_ }
  apply List.forall₂_map_right_iff.mpr
  apply Rows.forall₂_imp_mem hrows
  intro sent _ row hrow hsent
  exact hsent.shown hapart (List.mem_filter.mp hrow).1

omit [LawfulBase64] in
theorem Delivered.reachable {log : List Delivery} (h : Delivered log store) : Reachable store := by
  induction h with
  | start users => exact .start users
  | ingest _ _ _ _ _ _ hok ih => exact ih.ingested_ok hok

theorem Delivered.readable {log : List Delivery} (h : Delivered log store) (hdelivery : delivery ∈ log) :
    ∃ eventPk response, SqliteFtsBackend.usageEvent store delivery.userId eventPk = .ok response ∧
      ReadBack store delivery response := by
  obtain ⟨draw, attachments, hkept⟩ := h.logKept delivery hdelivery
  obtain ⟨response, hread, hback⟩ := hkept.read h.tracks.sound h.reachable.attachmentsApart
  exact ⟨draw.eventPk, response, hread, hback⟩

theorem Delivered.read_delivered {log : List Delivery} (h : Delivered log store) {owner eventPk : Uuid}
    {response : UsageEventResponse} (hread : SqliteFtsBackend.usageEvent store owner eventPk = .ok response) :
    ∃ delivery ∈ log, delivery.userId = owner ∧ ReadBack store delivery response := by
  obtain ⟨event, hevent, rfl, rfl⟩ : ∃ event ∈ store.events, event.id = eventPk ∧ event.userId = owner := by
    obtain ⟨found, hfound, -⟩ := bind_eq_ok.mp hread
    unfold usageEvent at hfound
    split at hfound
    · cases hfound
    · next event hevent =>
      have hboth := List.find?_some hevent
      simp only [Bool.and_eq_true, beq_iff_eq] at hboth
      exact ⟨event, List.mem_of_find?_eq_some hevent, hboth⟩
  have hknown : event.eventId ∈ log.map fun delivery => delivery.event.eventId :=
    h.tracks.eventIds ▸ List.mem_map_of_mem hevent
  obtain ⟨delivery, hdelivery, hid⟩ := List.mem_map.mp hknown
  obtain ⟨draw, attachments, hkept⟩ := h.logKept delivery hdelivery
  obtain ⟨sessionPk, device, -, -, hstored⟩ := hkept.event
  obtain rfl := List.inj_on_of_nodup_map h.tracks.sound.hierarchy.eventIds hstored hevent hid
  obtain ⟨response', hread', hback⟩ := hkept.read h.tracks.sound h.reachable.attachmentsApart
  obtain rfl := Except.ok.inj (hread'.symm.trans hread)
  exact ⟨delivery, hdelivery, rfl, hback⟩

/-- Every attachment that is stored was sent with an event that is. -/
theorem Delivered.attachment_sent {log : List Delivery} (h : Delivered log store) (hrow : row ∈ store.attachments) :
    ∃ delivery ∈ log, ∃ sent ∈ delivery.event.attachments, SentAs delivery.userId row.eventPk sent row := by
  obtain ⟨event, hevent, hpk, -⟩ := h.tracks.sound.attachments row hrow
  have hknown : event.eventId ∈ log.map fun delivery => delivery.event.eventId :=
    h.tracks.eventIds ▸ List.mem_map_of_mem hevent
  obtain ⟨delivery, hdelivery, hid⟩ := List.mem_map.mp hknown
  obtain ⟨draw, attachments, hkept⟩ := h.logKept delivery hdelivery
  obtain ⟨sessionPk, device, -, -, hstored⟩ := hkept.event
  obtain rfl := List.inj_on_of_nodup_map h.tracks.sound.hierarchy.eventIds hstored hevent hid
  have hown : row ∈ store.attachments.filter fun row => row.eventPk == draw.eventPk :=
    List.mem_filter.mpr ⟨hrow, beq_iff_eq.mpr hpk.symm⟩
  obtain ⟨sent, hsent, hof⟩ := Rows.forall₂_mem_right hkept.attachmentRows.2 hown
  exact ⟨delivery, hdelivery, sent, mem_sortBy.mp hsent, hpk ▸ hof⟩

end Reads

section Attached

open Fixtures

local instance attachedDigest : Sha256 :=
  ⟨fun bytes => if bytes = headerBytes then headerDigest else cargoDigest.digestBytes bytes⟩

local instance attachedContent : Base64 := ⟨fun text => decode text.toList⟩

local instance attachedContent_lawful : LawfulBase64 := ⟨fun _ _ => decode_eq_some⟩

local instance attachedCase : CaseMapping := asciiCase

/-- A content and an attachment without one, out of order. -/
def attachedBatch : IngestEventsRequest where
  events := [{ event "e1" 1 .request [] with conversation := none, attachments := [gifHeader, pngNamed] }]
  diagnosticCaptures := []

def attachedDraws : Draws where
  event index := { (draws 10).event index with attachmentIds := fun place => 100 + place }
  capture := (draws 10).capture

end Attached

end AbyssBackend.Storage
