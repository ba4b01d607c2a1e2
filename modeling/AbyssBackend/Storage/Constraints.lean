import AbyssBackend.Storage.Kept
import AbyssBackend.Storage.Replays
import Mathlib.Data.Nat.Pairing

namespace AbyssBackend.Storage

open Attachments Attempts Conversation Search Streams Text

section Draws

/-- The keys drawn for the events from the `first` on are in no row. -/
structure EventsFresh (draws : Draws) (first : ℕ) (store : Store) : Prop where
  devices : ∀ i ≥ first, (draws.event i).deviceId ∉ store.devices.map DeviceRow.id
  sessions : ∀ i ≥ first, (draws.event i).sessionPk ∉ store.sessions.map SessionRow.id
  events : ∀ i ≥ first, (draws.event i).eventPk ∉ store.events.map EventRow.id
  attachments : ∀ i ≥ first, ∀ j, (draws.event i).attachmentIds j ∉ store.attachments.map AttachmentRow.id

structure CapturesFresh (draws : Draws) (first : ℕ) (store : Store) : Prop where
  captures : ∀ i ≥ first, (draws.capture i).capturePk ∉ store.captures.map DiagnosticCapture.id
  links : ∀ i ≥ first, (draws.capture i).capturePk ∉ store.captureEvents.map DiagnosticCaptureEvent.capturePk

structure Distinct (draws : Draws) : Prop where
  deviceIds : Function.Injective fun i => (draws.event i).deviceId
  sessionPks : Function.Injective fun i => (draws.event i).sessionPk
  eventPks : Function.Injective fun i => (draws.event i).eventPk
  attachmentIds : Function.Injective fun place : ℕ × ℕ => (draws.event place.1).attachmentIds place.2
  capturePks : Function.Injective fun i => (draws.capture i).capturePk

/-- `Uuid::now_v7` gives new keys: none twice, and none that the store has. -/
structure Fresh (draws : Draws) (store : Store) : Prop where
  distinct : Distinct draws
  events : EventsFresh draws 0 store
  captures : CapturesFresh draws 0 store

end Draws

section Statements

variable {store : Store}

theorem hasDevice_iff {id : Uuid} : store.hasDevice id = true ↔ id ∈ store.devices.map DeviceRow.id := Rows.any_key

theorem hasSession_iff {id : Uuid} : store.hasSession id = true ↔ id ∈ store.sessions.map SessionRow.id := Rows.any_key

theorem hasEvent_iff {id : Uuid} : store.hasEvent id = true ↔ id ∈ store.events.map EventRow.id := Rows.any_key

theorem hasUser_iff {id : Uuid} : store.hasUser id = true ↔ id ∈ store.users := by simp [Store.hasUser]

variable {userId : Uuid} {event : IngestUsageEvent} {observedAt : ℤ} {draw : EventDraw}

theorem upsertDevice_total (howner : userId ∈ store.users) (hid : draw.deviceId ∉ store.devices.map DeviceRow.id) :
    ∃ deviceId after, upsertDevice userId event observedAt draw store = .ok (deviceId, after) := by
  unfold upsertDevice
  split
  · exact ⟨_, _, rfl⟩
  · next hnone =>
    have hinsert : store.insertDevice (newDevice userId event observedAt draw) =
        .ok { store with devices := store.devices ++ [newDevice userId event observedAt draw] } :=
      Store.write_eq_ok.mpr ⟨rfl, Rows.free_both_iff.mpr ⟨hid, Rows.find_none hnone⟩,
        congrArg Bool.not (hasUser_iff.mpr howner), rfl⟩
    exact ⟨_, _, bind_eq_ok.mpr ⟨_, hinsert, rfl⟩⟩

theorem upsertSession_total {deviceId : Uuid} (howner : userId ∈ store.users)
    (hdevice : deviceId ∈ store.devices.map DeviceRow.id) (hid : draw.sessionPk ∉ store.sessions.map SessionRow.id) :
    ∃ sessionPk after, upsertSession userId deviceId event observedAt draw store = .ok (sessionPk, after) := by
  unfold upsertSession
  split
  · have hmissing : (!store.hasDevice deviceId) = false := by simpa using hasDevice_iff.mpr hdevice
    exact ⟨_, _, bind_eq_ok.mpr ⟨_, Store.write_eq_ok.mpr ⟨rfl, rfl, hmissing, rfl⟩, rfl⟩⟩
  · next hnone =>
    have hmissing : (!store.hasUser userId || !store.hasDevice deviceId) = false := by
      simpa using ⟨hasUser_iff.mpr howner, hasDevice_iff.mpr hdevice⟩
    have hinsert : store.insertSession (newSession userId deviceId event observedAt draw) =
        .ok { store with sessions := store.sessions ++ [newSession userId deviceId event observedAt draw] } :=
      Store.write_eq_ok.mpr ⟨rfl, Rows.free_both_iff.mpr ⟨hid, Rows.find_none hnone⟩, hmissing, rfl⟩
    exact ⟨_, _, bind_eq_ok.mpr ⟨_, hinsert, rfl⟩⟩

/-- All six counters, absent ones read as zero, are those the events table admits. -/
def Countable (event : IngestUsageEvent) : Prop :=
  0 ≤ event.tokenUsage.inputTokens.getD 0 ∧ 0 ≤ event.tokenUsage.outputTokens.getD 0 ∧
    0 ≤ event.tokenUsage.cacheReadTokens.getD 0 ∧ 0 ≤ event.tokenUsage.cacheWriteTokens.getD 0 ∧
    0 ≤ event.tokenUsage.reasoningTokens.getD 0 ∧ 0 ≤ event.tokenUsage.totalTokens.getD 0

instance (event : IngestUsageEvent) : Decidable (Countable event) := inferInstanceAs (Decidable (_ ∧ _))

def Indexable (event : IngestUsageEvent) : Prop := ∀ piece ∈ pieces event.conversation, piece.entryIndex ≤ i32Max

instance (event : IngestUsageEvent) : Decidable (Indexable event) := List.decidableBAll _ _

variable {deviceId sessionPk : Uuid}

theorem insertEvent_rejected (h : ¬ Countable event) :
    store.insertEvent (newEvent userId deviceId sessionPk event draw) = .error (.database .check) := by
  unfold Store.insertEvent
  rw [if_pos]
  by_contra hchecks
  apply h
  simpa only [newEvent, not_or, not_lt, Countable] using (not_or.mp hchecks).2

theorem insertEvent_total (h : Countable event) (howner : userId ∈ store.users)
    (hdevice : deviceId ∈ store.devices.map DeviceRow.id) (hsession : sessionPk ∈ store.sessions.map SessionRow.id)
    (hnew : event.eventId ∉ store.events.map EventRow.eventId) (hpk : draw.eventPk ∉ store.events.map EventRow.id) :
    store.insertEvent (newEvent userId deviceId sessionPk event draw) =
      .ok (1, { store with events := store.events ++ [newEvent userId deviceId sessionPk event draw] }) := by
  have hchecks : ¬ ((newEvent userId deviceId sessionPk event draw).eventType ∉ ["request", "response"] ∨
      event.tokenUsage.inputTokens.getD 0 < 0 ∨ event.tokenUsage.outputTokens.getD 0 < 0 ∨
      event.tokenUsage.cacheReadTokens.getD 0 < 0 ∨ event.tokenUsage.cacheWriteTokens.getD 0 < 0 ∨
      event.tokenUsage.reasoningTokens.getD 0 < 0 ∨ event.tokenUsage.totalTokens.getD 0 < 0) := by
    simp only [not_or, not_lt, not_not]
    refine ⟨?_, h⟩
    cases htype : event.eventType <;> simp [newEvent, htype, UsageEventType.asStr]
  have hmissing : (!store.hasUser userId || !store.hasDevice deviceId || !store.hasSession sessionPk) = false := by
    simp [hasUser_iff.mpr howner, hasDevice_iff.mpr hdevice, hasSession_iff.mpr hsession]
  have hknown : (store.events.any fun other => other.eventId == event.eventId) = false := Rows.free_iff.mpr hnew
  have hwrite := Store.write_eq_ok.mpr ⟨rfl, Rows.free_iff.mpr hpk, hmissing,
    (rfl : { store with events := store.events ++ [newEvent userId deviceId sessionPk event draw] } = _)⟩
  exact (if_neg hchecks).trans ((if_neg (Bool.eq_false_iff.mp hknown)).trans (bind_eq_ok.mpr ⟨_, hwrite, rfl⟩))

end Statements

section Children

variable {userId eventPk : Uuid} {event : IngestUsageEvent} {draw : EventDraw} {store : Store}

theorem insertAttachments_total {attachments : List ValidatedImageAttachment} (hvalid : AllStorable attachments)
    (howner : userId ∈ store.users) (hevent : eventPk ∈ store.events.map EventRow.id)
    (hfree : ∀ row ∈ store.attachments, row.eventPk ≠ eventPk)
    (hids : ∀ j, draw.attachmentIds j ∉ store.attachments.map AttachmentRow.id)
    (hapart : Function.Injective draw.attachmentIds) :
    ∃ after, insertAttachments userId eventPk attachments draw store = .ok after := by
  suffices hrun : ∃ after, insertAttachments userId eventPk attachments draw store = .ok after ∧
      after = { store with attachments := store.attachments ++
        (attachments.zipIdx.map fun indexed => newAttachment userId eventPk indexed.1 draw indexed.2) } by
    obtain ⟨after, hok, -⟩ := hrun
    exact ⟨after, hok⟩
  refine foldlM_total (P := fun (done : List (ValidatedImageAttachment × ℕ)) (after : Store) =>
    after = { store with attachments := store.attachments ++
      (done.map fun indexed => newAttachment userId eventPk indexed.1 draw indexed.2) }) ?_ ?_
  · simp
  · rintro done ⟨attachment, index⟩ rest before hsplit rfl
    have hindexed : (attachment, index) ∈ attachments.zipIdx :=
      hsplit ▸ List.mem_append_right _ (List.mem_cons_self ..)
    have hrow := hvalid.each attachment (List.fst_mem_of_mem_zipIdx hindexed)
    have hpositions : ((attachments.zipIdx).map fun indexed => indexed.1.position).Nodup := by
      have hfirst : (attachments.zipIdx.map fun indexed => indexed.1.position) =
          attachments.map ValidatedImageAttachment.position := by
        conv_rhs => rw [← List.zipIdx_map_fst 0 attachments, List.map_map]
        rfl
      exact hfirst ▸ hvalid.positions
    have hindices : ((attachments.zipIdx).map Prod.snd).Nodup := by
      rw [List.zipIdx_map_snd]
      exact List.nodup_range'
    rw [← hsplit] at hpositions hindices
    have hrejected : (decide (attachment.position < 0) || decide (attachment.byteSize ≤ 0) ||
        decide (8388608 < attachment.byteSize) || attachment.sha256.length != 32 ||
        attachment.content.any fun content => (content.length : ℤ) != attachment.byteSize) = false := by
      obtain ⟨hpositive, hbounded⟩ := hrow.byteSize
      have hbound : attachment.byteSize ≤ 8388608 := hbounded
      have hcontent : (attachment.content.any fun content => (content.length : ℤ) != attachment.byteSize) = false := by
        rw [Option.any_eq_false]
        intro content hcontent
        simp [hrow.content content hcontent]
      simp [hrow.position, hpositive, hbound, hrow.sha256, hcontent]
    have hmissing : (!store.hasUser userId || !store.hasEvent eventPk) = false := by
      simp [hasUser_iff.mpr howner, hasEvent_iff.mpr hevent]
    refine ⟨_, Store.write_eq_ok.mpr ⟨hrejected, Rows.free_both_iff.mpr ⟨?_, ?_⟩, hmissing, rfl⟩, ?_⟩
    · rw [List.map_append, List.map_map, List.mem_append, not_or]
      refine ⟨hids index, fun hdone => ?_⟩
      obtain ⟨other, hother, hsame⟩ := List.mem_map.mp hdone
      exact Rows.nodup_before hindices (List.mem_map.mpr ⟨other, hother, hapart hsame⟩)
    · rw [List.map_append, List.map_map, List.mem_append, not_or]
      refine ⟨fun hold => ?_, fun hdone => ?_⟩
      · obtain ⟨row, hrow, hplace⟩ := List.mem_map.mp hold
        exact hfree row hrow (congrArg Prod.fst hplace)
      · obtain ⟨other, hother, hsame⟩ := List.mem_map.mp hdone
        exact Rows.nodup_before hpositions (List.mem_map.mpr ⟨other, hother, congrArg Prod.snd hsame⟩)
    · simp

theorem insertFacts_total [Sha256] (hevent : eventPk ∈ store.events.map EventRow.id)
    (hfree : eventPk ∉ store.streamFacts.map StreamFactsRow.eventPk) :
    ∃ after, insertStreamFacts eventPk event store = .ok after := by
  have hpk : (newFacts eventPk event).eventPk = eventPk := by
    unfold newFacts StreamFactsRow.read
    split <;> rfl
  refine ⟨_, Store.write_eq_ok.mpr ⟨rfl, Rows.free_iff.mpr ?_, ?_, rfl⟩⟩
  · rwa [hpk]
  · rw [hpk, hasEvent_iff.mpr hevent, Bool.not_true]

theorem insertRefs_total {refs : List SearchRef} (hplaces : ((store.searchRefs ++ refs).map SearchRef.place).Nodup)
    (hfields : ∀ ref ∈ refs, ref.field ∈ ["text", "name"]) :
    ∃ after, refs.foldlM (fun (store : Store) ref => store.insertRef ref) store = .ok after := by
  suffices hrun : ∃ after, refs.foldlM (fun (store : Store) ref => store.insertRef ref) store = .ok after ∧
      after = { store with searchRefs := store.searchRefs ++ refs } by
    obtain ⟨after, hok, -⟩ := hrun
    exact ⟨after, hok⟩
  refine foldlM_total (P := fun done after => after = { store with searchRefs := store.searchRefs ++ done }) ?_ ?_
  · simp
  · rintro done ref rest before rfl rfl
    have hfield : (!(["text", "name"].contains ref.field)) = false := by
      have hmem := hfields ref (List.mem_append_right _ (List.mem_cons_self ..))
      rw [Bool.not_eq_false', List.contains_iff_mem]
      exact hmem
    have hfree : ref.place ∉ (store.searchRefs ++ done).map SearchRef.place := by
      rw [← List.append_assoc] at hplaces
      exact Rows.nodup_before hplaces
    exact ⟨_, Store.write_eq_ok.mpr ⟨hfield, Rows.free_iff.mpr hfree, rfl, rfl⟩, by simp [List.append_assoc]⟩

variable {sessionPk : Uuid}

theorem capture_total {eventType : String} {observedAt now : ℤ} (howner : userId ∈ store.users)
    (hsession : sessionPk ∈ store.sessions.map SessionRow.id) (hevent : eventPk ∈ store.events.map EventRow.id) :
    ∃ changed after, capture userId sessionPk eventPk eventType observedAt now store = .ok (changed, after) := by
  unfold capture
  split_ifs
  · exact ⟨_, _, rfl⟩
  · exact ⟨_, _, rfl⟩
  · have hmissing : (!store.hasSession sessionPk || !store.hasUser userId ||
        (some eventPk).any fun eventPk => !store.hasEvent eventPk) = false := by
      simp [hasSession_iff.mpr hsession, hasUser_iff.mpr howner, hasEvent_iff.mpr hevent]
    exact ⟨_, _, bind_eq_ok.mpr ⟨_, Store.write_eq_ok.mpr ⟨rfl, rfl, hmissing, rfl⟩, rfl⟩⟩

end Children

section Index

variable [Sha256] [CaseMapping] {owner eventPk : Uuid} {store : Store}

theorem textId_total (owner : Uuid) (text : String) (store : Store) :
    ∃ id after, textId owner text store = .ok (id, after) := by
  unfold textId Store.insertOrIgnoreText
  by_cases hknown : (store.searchTexts.any fun other => other.hash == (owner, Sha256.digest text)) = true
  · simp only [hknown, if_true]
    split
    · exact ⟨_, _, rfl⟩
    · next hnone => exact absurd (Rows.any_key.mp hknown) (Rows.find_none hnone)
  · simp only [hknown]
    exact ⟨_, _, rfl⟩

theorem pieceRefs_total {pieces : List Piece} (h : ∀ piece ∈ pieces, piece.entryIndex ≤ i32Max) :
    ∃ refs after, pieceRefs owner eventPk pieces store = .ok (refs, after) := by
  induction pieces generalizing store with
  | nil => exact ⟨_, _, rfl⟩
  | cons piece rest ih =>
    obtain ⟨hpiece, hrest⟩ := List.forall_mem_cons.mp h
    obtain ⟨id, withText, htext⟩ := textId_total owner piece.text store
    obtain ⟨refs, after, hrefs⟩ : ∃ refs after, pieceRefs owner eventPk rest withText = .ok (refs, after) := ih hrest
    unfold pieceRefs
    rw [if_neg (not_lt.mpr hpiece)]
    exact ⟨_, _, bind_eq_ok.mpr ⟨_, htext, bind_eq_ok.mpr ⟨_, hrefs, rfl⟩⟩⟩

theorem pieceRefs_rejected {pieces : List Piece} (h : ¬ ∀ piece ∈ pieces, piece.entryIndex ≤ i32Max) :
    ∃ message, pieceRefs owner eventPk pieces store = .error (.validation message) := by
  induction pieces generalizing store with
  | nil => simp at h
  | cons piece rest ih =>
    unfold pieceRefs
    by_cases hpiece : piece.entryIndex > i32Max
    · rw [if_pos hpiece]
      exact ⟨_, rfl⟩
    · rw [if_neg hpiece]
      obtain ⟨id, withText, htext⟩ := textId_total owner piece.text store
      obtain ⟨message, hmessage⟩ : ∃ message, pieceRefs owner eventPk rest withText = .error (.validation message) :=
        ih fun hrest => h (List.forall_mem_cons.mpr ⟨not_lt.mp hpiece, hrest⟩)
      exact ⟨message, bind_eq_error.mpr (Or.inr ⟨_, htext, bind_eq_error.mpr (Or.inl hmessage)⟩)⟩

omit [CaseMapping] in
/-- The places of a new event's texts are free: its key is new, and its pieces are apart. -/
theorem refs_nodup {texts : List SearchText} {conversation : Option Value} {refs old : List SearchRef}
    (hrefers : List.Forall₂ (Refers owner eventPk texts) (pieces conversation) refs)
    (hold : (old.map SearchRef.place).Nodup) (hfree : ∀ ref ∈ old, ref.eventPk ≠ eventPk) :
    ((old ++ refs).map SearchRef.place).Nodup := by
  have hnew : (refs.map SearchRef.place).Nodup := by
    have hplaces : (pieces conversation).map (fun piece => (eventPk, (piece.entryIndex : ℤ), piece.field.asStr)) =
        refs.map SearchRef.place := Rows.forall₂_map_eq hrefers fun piece _ ref _ href => by
      rw [SearchRef.place, href.eventPk, href.entryIndex, href.field]
    rw [← hplaces, List.Nodup, List.pairwise_map]
    refine (pieces_sorted conversation).imp fun {x y} hlt hsame => hlt.ne ?_
    simp only [Prod.mk.injEq, Int.natCast_inj, asStr_inj, true_and] at hsame
    rw [Piece.place, Piece.place, hsame.1, hsame.2]
  rw [List.map_append, List.nodup_append]
  refine ⟨hold, hnew, ?_⟩
  rintro place hplace place' hplace' rfl
  obtain ⟨ref, href, rfl⟩ := List.mem_map.mp hplace
  obtain ⟨other, hother, hsame⟩ := List.mem_map.mp hplace'
  obtain ⟨piece, -, hof⟩ := Rows.forall₂_mem_right hrefers hother
  exact hfree ref href ((congrArg Prod.fst hsame).symm.trans hof.eventPk)

theorem indexEvent_total {conversation : Option Value}
    (hindexed : Indexed store.searchTexts store.searchTextsTrigram) (hold : (store.searchRefs.map SearchRef.place).Nodup)
    (hfree : ∀ ref ∈ store.searchRefs, ref.eventPk ≠ eventPk)
    (h : ∀ piece ∈ pieces conversation, piece.entryIndex ≤ i32Max) :
    ∃ after, indexEvent owner eventPk conversation store = .ok after := by
  obtain ⟨refs, withTexts, hrefs⟩ : ∃ refs after, pieceRefs owner eventPk (pieces conversation) store =
      .ok (refs, after) := pieceRefs_total h
  obtain ⟨new, rfl, -, -, hrefers⟩ := pieceRefs_spec hindexed hrefs
  have hplaces : (((store.withTexts new).searchRefs ++ refs).map SearchRef.place).Nodup :=
    refs_nodup hrefers hold hfree
  obtain ⟨after, hafter⟩ := insertRefs_total hplaces fun ref href => by
    obtain ⟨piece, -, hof⟩ := Rows.forall₂_mem_right hrefers href
    rw [hof.field]
    cases piece.field <;> simp [PieceField.asStr]
  exact ⟨after, bind_eq_ok.mpr ⟨_, hrefs, hafter⟩⟩

theorem indexEvent_rejected {conversation : Option Value}
    (h : ¬ ∀ piece ∈ pieces conversation, piece.entryIndex ≤ i32Max) :
    ∃ message, indexEvent owner eventPk conversation store = .error (.validation message) := by
  obtain ⟨message, hmessage⟩ : ∃ message, pieceRefs owner eventPk (pieces conversation) store =
      .error (.validation message) := pieceRefs_rejected h
  exact ⟨message, bind_eq_error.mpr (Or.inl hmessage)⟩

end Index

section Events

variable [Sha256] [CaseMapping] {userId : Uuid} {event : IngestUsageEvent}
  {attachments : List ValidatedImageAttachment} {draw : EventDraw} {store : Store}

/-- The keys drawn for one event are in no row. -/
structure KeysFree (draw : EventDraw) (store : Store) : Prop where
  device : draw.deviceId ∉ store.devices.map DeviceRow.id
  session : draw.sessionPk ∉ store.sessions.map SessionRow.id
  event : draw.eventPk ∉ store.events.map EventRow.id
  attachments : ∀ j, draw.attachmentIds j ∉ store.attachments.map AttachmentRow.id
  apart : Function.Injective draw.attachmentIds

omit [Sha256] [CaseMapping] in
/-- The upserts succeed, and leave the event's device and session in the tables. -/
theorem upserts_total (event : IngestUsageEvent) (observedAt : ℤ) (howner : userId ∈ store.users)
    (hfree : KeysFree draw store) :
    ∃ deviceId sessionPk withDevice devices sessions,
      upsertDevice userId event observedAt draw store = .ok (deviceId, withDevice) ∧
      upsertSession userId deviceId event observedAt draw withDevice =
        .ok (sessionPk, { store with devices, sessions }) ∧
      deviceId ∈ devices.map DeviceRow.id ∧ sessionPk ∈ sessions.map SessionRow.id := by
  obtain ⟨deviceId, withDevice, hdevice⟩ : ∃ deviceId after,
      upsertDevice userId event observedAt draw store = .ok (deviceId, after) := upsertDevice_total howner hfree.device
  obtain ⟨devices, hseen, rfl⟩ := upsertDevice_spec hdevice
  obtain ⟨device, hmem, rfl, -⟩ := hseen.seen
  have hknown := List.mem_map_of_mem (f := DeviceRow.id) hmem
  obtain ⟨sessionPk, withSession, hsession⟩ : ∃ sessionPk after,
      upsertSession userId device.id event observedAt draw { store with devices } = .ok (sessionPk, after) :=
    upsertSession_total howner hknown hfree.session
  obtain ⟨sessions, hof, rfl⟩ := upsertSession_spec hsession
  obtain ⟨session, hsessionMem, rfl, -⟩ := hof.seen
  exact ⟨_, _, _, _, _, hdevice, hsession, hknown, List.mem_map_of_mem hsessionMem⟩

/-- No row refers to the event yet. -/
structure Childless (eventPk : Uuid) (store : Store) : Prop where
  facts : eventPk ∉ store.streamFacts.map StreamFactsRow.eventPk
  attachments : ∀ row ∈ store.attachments, row.eventPk ≠ eventPk
  refs : ∀ ref ∈ store.searchRefs, ref.eventPk ≠ eventPk

theorem Sound.childless (h : Sound store) {eventPk : Uuid} (hfree : eventPk ∉ store.events.map EventRow.id) :
    Childless eventPk store := by
  refine ⟨factsOf_pks h.streamFacts ▸ hfree, fun row hrow hsame => ?_, fun ref href hsame => ?_⟩
  · obtain ⟨owner, howner, hid, -⟩ := h.attachments row hrow
    exact hfree (hsame ▸ hid ▸ List.mem_map_of_mem howner)
  · obtain ⟨groups, hgroups, hrefs⟩ := h.index.refs
    obtain ⟨group, hgroup, hmem⟩ := List.mem_flatten.mp (hgroups ▸ href)
    obtain ⟨owner, howner, hof⟩ := Rows.forall₂_mem_right hrefs hgroup
    obtain ⟨piece, -, hrefers⟩ := Rows.forall₂_mem_right hof hmem
    exact hfree (hsame ▸ hrefers.eventPk ▸ List.mem_map_of_mem howner)

theorem children_outcome (event : IngestUsageEvent) (observedAt : ℤ) {sessionPk : Uuid} (howner : userId ∈ store.users)
    (hsession : sessionPk ∈ store.sessions.map SessionRow.id) (hevent : draw.eventPk ∈ store.events.map EventRow.id)
    (hvalid : AllStorable attachments) (hchildless : Childless draw.eventPk store)
    (hids : ∀ j, draw.attachmentIds j ∉ store.attachments.map AttachmentRow.id)
    (hapart : Function.Injective draw.attachmentIds) (hindexed : Indexed store.searchTexts store.searchTextsTrigram)
    (hplaces : (store.searchRefs.map SearchRef.place).Nodup) :
    (Indexable event ∧ ∃ after withFacts withAttachments withIndex changed,
      insertStreamFacts draw.eventPk event store = .ok withFacts ∧
      insertAttachments userId draw.eventPk attachments draw withFacts = .ok withAttachments ∧
      indexEvent userId draw.eventPk event.conversation withAttachments = .ok withIndex ∧
      capture userId sessionPk draw.eventPk event.eventType.asStr observedAt draw.titledAt withIndex =
        .ok (changed, after)) ∨
    (¬ Indexable event ∧ ∃ message withFacts withAttachments,
      insertStreamFacts draw.eventPk event store = .ok withFacts ∧
      insertAttachments userId draw.eventPk attachments draw withFacts = .ok withAttachments ∧
      indexEvent userId draw.eventPk event.conversation withAttachments = .error (.validation message)) := by
  obtain ⟨withFacts, hfacts⟩ : ∃ after, insertStreamFacts draw.eventPk event store = .ok after :=
    insertFacts_total hevent hchildless.facts
  obtain ⟨-, rfl⟩ := insertFacts_spec hfacts
  obtain ⟨withAttachments, hattachments⟩ : ∃ after, insertAttachments userId draw.eventPk attachments draw
      { store with streamFacts := store.streamFacts ++ [newFacts draw.eventPk event] } = .ok after :=
    insertAttachments_total hvalid howner hevent hchildless.attachments hids hapart
  obtain rfl := insertAttachments_spec hattachments
  by_cases hindexable : Indexable event
  · obtain ⟨withIndex, hindex⟩ : ∃ after, indexEvent userId draw.eventPk event.conversation { store with
        streamFacts := store.streamFacts ++ [newFacts draw.eventPk event]
        attachments := store.attachments ++
          (attachments.zipIdx.map fun indexed => newAttachment userId draw.eventPk indexed.1 draw indexed.2) } =
          .ok after :=
      indexEvent_total hindexed hplaces hchildless.refs hindexable
    obtain ⟨texts, refs, hwithIndex, -⟩ := indexEvent_spec hindex hindexed hplaces
    obtain ⟨changed, after, htitle⟩ : ∃ changed after, capture userId sessionPk draw.eventPk event.eventType.asStr
        observedAt draw.titledAt withIndex = .ok (changed, after) := by
      apply capture_total <;> rw [hwithIndex]
      · exact howner
      · exact hsession
      · exact hevent
    exact Or.inl ⟨hindexable, after, _, _, _, changed, hfacts, hattachments, hindex, htitle⟩
  · obtain ⟨message, hmessage⟩ := indexEvent_rejected hindexable
    exact Or.inr ⟨hindexable, message, _, _, hfacts, hattachments, hmessage⟩

theorem ingestOneEvent_outcome (h : Sound store) (howner : userId ∈ store.users) (hvalid : AllStorable attachments)
    (hfree : KeysFree draw store) (hnew : event.eventId ∉ store.events.map EventRow.eventId) :
    (Countable event ∧ Indexable event ∧
      ∃ after, ingestOneEvent userId event attachments draw store = .ok (true, after)) ∨
    (Countable event ∧ ¬ Indexable event ∧
      ∃ message, ingestOneEvent userId event attachments draw store = .error (.validation message)) ∨
    (¬ Countable event ∧ ingestOneEvent userId event attachments draw store = .error (.database .check)) := by
  obtain ⟨deviceId, sessionPk, withDevice, devices, sessions, hdevice, hsession, hdeviceMem, hsessionMem⟩ :=
    upserts_total event (timestampToMicros event.observedAt) howner hfree
  unfold ingestOneEvent
  rw [if_neg (Bool.eq_false_iff.mp (Rows.free_iff.mpr hnew))]
  by_cases hcount : Countable event
  · obtain ⟨withEvent, hevent, hwithEvent⟩ : ∃ withEvent : Store,
        ({ store with devices, sessions } : Store).insertEvent (newEvent userId deviceId sessionPk event draw) =
          .ok (1, withEvent) ∧ withEvent = { store with
            devices, sessions, events := store.events ++ [newEvent userId deviceId sessionPk event draw] } :=
      ⟨_, insertEvent_total hcount howner hdeviceMem hsessionMem hnew hfree.event, rfl⟩
    have heventMem : draw.eventPk ∈ withEvent.events.map EventRow.id := by
      simp [hwithEvent, newEvent]
    have hchildren := children_outcome event (timestampToMicros event.observedAt)
      (hwithEvent ▸ howner : userId ∈ withEvent.users)
      (hwithEvent ▸ hsessionMem : sessionPk ∈ withEvent.sessions.map SessionRow.id) heventMem hvalid
      (hwithEvent ▸ { h.childless hfree.event with } : Childless draw.eventPk withEvent)
      (hwithEvent ▸ hfree.attachments) hfree.apart (hwithEvent ▸ h.index.indexed) (hwithEvent ▸ h.index.places)
    obtain ⟨hindexable, after, withFacts, withAttachments, withIndex, changed, hfacts, hattachments, hindex, htitle⟩ |
      ⟨hindexable, message, withFacts, withAttachments, hfacts, hattachments, hindex⟩ := hchildren
    · refine Or.inl ⟨hcount, hindexable, after, ?_⟩
      refine bind_eq_ok.mpr ⟨_, hdevice, bind_eq_ok.mpr ⟨_, hsession, bind_eq_ok.mpr ⟨_, hevent, ?_⟩⟩⟩
      simp only [ne_eq, not_true_eq_false, if_false]
      refine bind_eq_ok.mpr ⟨_, hfacts, bind_eq_ok.mpr ⟨_, hattachments, bind_eq_ok.mpr ⟨_, hindex, ?_⟩⟩⟩
      exact bind_eq_ok.mpr ⟨_, htitle, rfl⟩
    · refine Or.inr (Or.inl ⟨hcount, hindexable, message, ?_⟩)
      refine bind_eq_error.mpr (Or.inr ⟨_, hdevice, bind_eq_error.mpr (Or.inr ⟨_, hsession, ?_⟩)⟩)
      refine bind_eq_error.mpr (Or.inr ⟨_, hevent, ?_⟩)
      simp only [ne_eq, not_true_eq_false, if_false]
      refine bind_eq_error.mpr (Or.inr ⟨_, hfacts, bind_eq_error.mpr (Or.inr ⟨_, hattachments, ?_⟩)⟩)
      exact bind_eq_error.mpr (Or.inl hindex)
  · refine Or.inr (Or.inr ⟨hcount, ?_⟩)
    refine bind_eq_error.mpr (Or.inr ⟨_, hdevice, bind_eq_error.mpr (Or.inr ⟨_, hsession, ?_⟩)⟩)
    exact bind_eq_error.mpr (Or.inl (insertEvent_rejected hcount))

end Events

section Batch

variable [Sha256] [CaseMapping] {userId : Uuid} {draws : Draws} {first : ℕ} {store after : Store}

omit [Sha256] [CaseMapping] in
theorem EventsFresh.keysFree (h : EventsFresh draws first store) (hdistinct : Distinct draws) :
    KeysFree (draws.event first) store where
  device := h.devices first le_rfl
  session := h.sessions first le_rfl
  event := h.events first le_rfl
  attachments := h.attachments first le_rfl
  apart j j' hsame := by
    have hplace : (first, j) = (first, j') := hdistinct.attachmentIds hsame
    exact congrArg Prod.snd hplace

omit [Sha256] [CaseMapping] in
theorem EventsFresh.mono (h : EventsFresh draws first store) : EventsFresh draws (first + 1) store where
  devices i hi := h.devices i (Nat.le_of_succ_le hi)
  sessions i hi := h.sessions i (Nat.le_of_succ_le hi)
  events i hi := h.events i (Nat.le_of_succ_le hi)
  attachments i hi := h.attachments i (Nat.le_of_succ_le hi)

omit [Sha256] [CaseMapping] in
theorem DeviceSeen.ids_subset {event : IngestUsageEvent} {observedAt : ℤ} {draw : EventDraw}
    {devices seen : List DeviceRow} {deviceId : Uuid}
    (h : DeviceSeen userId event observedAt draw devices deviceId seen) {id : Uuid} (hid : id ∈ seen.map DeviceRow.id) :
    id ∈ devices.map DeviceRow.id ∨ id = draw.deviceId := by
  cases h with
  | known existing hfound =>
    have hsame : (Rows.update DeviceRow.id existing.id (seenDevice existing event observedAt draw) devices).map
        DeviceRow.id = devices.map DeviceRow.id := Rows.map_update fun _ _ _ => rfl
    exact Or.inl (hsame ▸ hid)
  | new hkey hfree => simpa [newDevice] using hid

omit [Sha256] [CaseMapping] in
theorem SessionSeen.ids_subset {event : IngestUsageEvent} {observedAt : ℤ} {draw : EventDraw}
    {sessions seen : List SessionRow} {deviceId sessionPk : Uuid}
    (h : SessionSeen userId deviceId event observedAt draw sessions sessionPk seen) {id : Uuid}
    (hid : id ∈ seen.map SessionRow.id) : id ∈ sessions.map SessionRow.id ∨ id = draw.sessionPk := by
  cases h with
  | known existing hfound =>
    have hsame : (Rows.update SessionRow.id existing.id (seenSession existing deviceId event observedAt draw)
        sessions).map SessionRow.id = sessions.map SessionRow.id := Rows.map_update fun _ _ _ => rfl
    exact Or.inl (hsame ▸ hid)
  | new hkey hfree => simpa [newSession] using hid

theorem EventsFresh.admitted (h : EventsFresh draws first store) (hdistinct : Distinct draws)
    {event : IngestUsageEvent} {attachments : List ValidatedImageAttachment} {deviceId sessionPk : Uuid}
    {texts : List SearchText} {refs : List SearchRef}
    (hadmitted : Admitted userId event attachments (draws.event first) deviceId sessionPk texts refs store after) :
    EventsFresh draws (first + 1) after := by
  have hlater := h.mono
  refine ⟨fun i hi hmem => ?_, fun i hi hmem => ?_, fun i hi hmem => ?_, fun i hi j hmem => ?_⟩
  · obtain hold | hsame := hadmitted.device.ids_subset hmem
    · exact hlater.devices i hi hold
    · exact absurd (hdistinct.deviceIds hsame) (by omega)
  · obtain hold | hsame := hadmitted.session.ids_subset hmem
    · exact hlater.sessions i hi hold
    · exact absurd (hdistinct.sessionPks hsame) (by omega)
  · rw [hadmitted.events, List.map_append, List.mem_append] at hmem
    obtain hold | hnew := hmem
    · exact hlater.events i hi hold
    · exact absurd (hdistinct.eventPks (List.mem_singleton.mp hnew)) (by omega)
  · rw [hadmitted.attachments, List.map_append, List.mem_append] at hmem
    obtain hold | hnew := hmem
    · exact hlater.attachments i hi j hold
    · rw [List.map_map] at hnew
      obtain ⟨indexed, -, hsame⟩ := List.mem_map.mp hnew
      have hplace : (first, indexed.2) = (i, j) := hdistinct.attachmentIds hsame
      have : first = i := congrArg Prod.fst hplace
      omega

/-- Reading the batch in order until a new event has too many entries, every new event is countable. -/
def Storable (known : List String) : List IngestUsageEvent → Prop
  | [] => True
  | event :: rest =>
    if event.eventId ∈ known then Storable known rest
    else Countable event ∧ (Indexable event → Storable (known ++ [event.eventId]) rest)

def ingestFrom {ι : Type} (one : ι → ℕ → Store → Except AppError (Bool × Store)) (items : List ι) (first : ℕ)
    (tally : Tally) : Except AppError Tally :=
  (items.zipIdx first).foldlM (fun (tally : Tally) (item, index) => do
    let outcome ← one item index tally.store
    return tally.count outcome) tally

omit [Sha256] [CaseMapping] in
theorem ingestFrom_cons {ι : Type} {one : ι → ℕ → Store → Except AppError (Bool × Store)} {item : ι} {items : List ι}
    {tally : Tally} : ingestFrom one (item :: items) first tally = (do
      let outcome ← one item first tally.store
      ingestFrom one items (first + 1) (tally.count outcome)) := by
  simp only [ingestFrom, List.zipIdx_cons, List.foldlM_cons, bind_assoc, pure_bind]

omit [Sha256] [CaseMapping] in
theorem count_store (tally : Tally) (outcome : Bool × Store) : (tally.count outcome).store = outcome.2 := by
  cases outcome with
  | mk new store => cases new <;> rfl

/-- A batch of events fails with a database error exactly where it is not storable. -/
theorem events_outcome (hdistinct : Distinct draws) {items : List (IngestUsageEvent × List ValidatedImageAttachment)}
    {tally : Tally} (h : Sound tally.store) (howner : userId ∈ tally.store.users)
    (hvalid : ∀ item ∈ items, AllStorable item.2) (hfresh : EventsFresh draws first tally.store)
    {one : IngestUsageEvent × List ValidatedImageAttachment → ℕ → Store → Except AppError (Bool × Store)}
    (hone : ∀ item index store, one item index store =
      ingestOneEvent userId item.1 item.2 (draws.event index) store) :
    (Storable (tally.store.events.map EventRow.eventId) (items.map Prod.fst) ∧
      ((∃ stop, ingestFrom one items first tally = .ok stop) ∨
        ∃ message, ingestFrom one items first tally = .error (.validation message))) ∨
    (¬ Storable (tally.store.events.map EventRow.eventId) (items.map Prod.fst) ∧
      ingestFrom one items first tally = .error (.database .check)) := by
  induction items generalizing first tally with
  | nil => exact Or.inl ⟨trivial, Or.inl ⟨tally, rfl⟩⟩
  | cons item items ih =>
    obtain ⟨event, attachments⟩ := item
    obtain ⟨hattachments, hrest⟩ := List.forall_mem_cons.mp hvalid
    rw [ingestFrom_cons, hone, List.map_cons, Storable]
    by_cases hknown : event.eventId ∈ tally.store.events.map EventRow.eventId
    · rw [if_pos hknown, ingestOneEvent_known hknown]
      have hsame : (tally.count (false, tally.store)).store = tally.store := count_store ..
      have hnext := ih (hsame.symm ▸ h) (hsame.symm ▸ howner) hrest (hsame.symm ▸ hfresh.mono)
      rwa [hsame] at hnext
    · rw [if_neg hknown]
      obtain ⟨hcount, hindexable, after, hok⟩ | ⟨hcount, hindexable, message, herror⟩ | ⟨hcount, herror⟩ :=
        ingestOneEvent_outcome h howner hattachments (hfresh.keysFree hdistinct) hknown
      · obtain ⟨habsurd, -⟩ | ⟨-, deviceId, sessionPk, texts, refs, hadmitted⟩ :=
          ingestOneEvent_cases hok h.index.indexed h.index.places
        · cases habsurd
        · have hsame : (tally.count (true, after)).store = after := count_store ..
          have hnext := ih (hsame.symm ▸ h.admitted hadmitted) (hsame.symm ▸ hadmitted.users.symm ▸ howner) hrest
            (hsame.symm ▸ hfresh.admitted hdistinct hadmitted)
          rw [hsame, hadmitted.events, List.map_append, List.map_singleton] at hnext
          have hstorable : (Countable event ∧ (Indexable event → Storable
              (tally.store.events.map EventRow.eventId ++ [event.eventId]) (items.map Prod.fst))) ↔
              Storable (tally.store.events.map EventRow.eventId ++ [event.eventId]) (items.map Prod.fst) :=
            ⟨fun hall => hall.2 hindexable, fun hall => ⟨hcount, fun _ => hall⟩⟩
          rw [hok, hstorable]
          exact hnext
      · refine Or.inl ⟨⟨hcount, fun habsurd => absurd habsurd hindexable⟩, Or.inr ⟨message, ?_⟩⟩
        exact bind_eq_error.mpr (Or.inl herror)
      · exact Or.inr ⟨fun hall => hcount hall.1, bind_eq_error.mpr (Or.inl herror)⟩

end Batch

section Captures

variable {userId : Uuid} {draws : Draws} {first : ℕ} {store after : Store}

theorem insertCaptureEvents_total {capturePk : Uuid} {rows : List EventRow}
    (hcapture : capturePk ∈ store.captures.map DiagnosticCapture.id)
    (hevents : ∀ row ∈ rows, row.id ∈ store.events.map EventRow.id) (hpks : (rows.map EventRow.id).Nodup)
    (hfree : capturePk ∉ store.captureEvents.map DiagnosticCaptureEvent.capturePk) :
    ∃ after, rows.foldlM (fun (store : Store) row => store.insertCaptureEvent ⟨capturePk, row.id⟩) store =
      .ok after := by
  suffices hrun : ∃ after,
      rows.foldlM (fun (store : Store) row => store.insertCaptureEvent ⟨capturePk, row.id⟩) store = .ok after ∧
        after = { store with captureEvents := store.captureEvents ++ rows.map fun row => ⟨capturePk, row.id⟩ } by
    obtain ⟨after, hok, -⟩ := hrun
    exact ⟨after, hok⟩
  refine foldlM_total (P := fun (done : List EventRow) (after : Store) => after = { store with
    captureEvents := store.captureEvents ++ done.map fun row => ⟨capturePk, row.id⟩ }) ?_ ?_
  · simp
  · rintro done row rest before rfl rfl
    have hmissing : (!(store.captures.any fun capture => capture.id == capturePk) || !store.hasEvent row.id) = false := by
      have hevent := hevents row (List.mem_append_right _ (List.mem_cons_self ..))
      rw [Rows.any_key.mpr hcapture, hasEvent_iff.mpr hevent]
      rfl
    have hnew : (⟨capturePk, row.id⟩ : DiagnosticCaptureEvent) ∉
        store.captureEvents ++ done.map fun row => ⟨capturePk, row.id⟩ := by
      rw [List.mem_append, not_or]
      refine ⟨fun hold => hfree (List.mem_map.mpr ⟨_, hold, rfl⟩), fun hdone => ?_⟩
      obtain ⟨other, hother, hsame⟩ := List.mem_map.mp hdone
      exact Rows.nodup_before hpks (List.mem_map.mpr ⟨other, hother, congrArg DiagnosticCaptureEvent.eventPk hsame⟩)
    have htaken : ((store.captureEvents ++ done.map fun row => DiagnosticCaptureEvent.mk capturePk row.id).any fun other =>
        other == (⟨capturePk, row.id⟩ : DiagnosticCaptureEvent)) = false := by
      rw [List.any_eq_false]
      exact fun other hother hsame => hnew (eq_of_beq hsame ▸ hother)
    exact ⟨_, Store.write_eq_ok.mpr ⟨rfl, htaken, hmissing, rfl⟩, by simp [List.append_assoc]⟩

theorem insertCapture_total {row : DiagnosticCapture} (hid : row.id ∉ store.captures.map DiagnosticCapture.id)
    (howner : row.userId ∈ store.users) (hdevice : row.deviceContextId ∈ store.devices.map DeviceRow.id)
    (hsession : row.sessionPk ∈ store.sessions.map SessionRow.id) :
    store.insertCapture row = .ok (0, store) ∨
      store.insertCapture row = .ok (1, { store with captures := store.captures ++ [row] }) := by
  have hmissing : (!store.hasUser row.userId || !store.hasDevice row.deviceContextId ||
      !store.hasSession row.sessionPk) = false := by
    rw [hasUser_iff.mpr howner, hasDevice_iff.mpr hdevice, hasSession_iff.mpr hsession]
    rfl
  unfold Store.insertCapture
  rw [if_neg (Bool.eq_false_iff.mp (Rows.free_iff.mpr hid))]
  split_ifs
  · exact Or.inl rfl
  · exact Or.inr (bind_eq_ok.mpr ⟨_, Store.write_eq_ok.mpr ⟨rfl, rfl, hmissing, rfl⟩, rfl⟩)

theorem ingestOneDiagnosticCapture_outcome (h : Hierarchy store) (howner : userId ∈ store.users)
    {capture : IngestDiagnosticCapture} {draw : CaptureDraw}
    (hcapture : draw.capturePk ∉ store.captures.map DiagnosticCapture.id)
    (hlinks : draw.capturePk ∉ store.captureEvents.map DiagnosticCaptureEvent.capturePk) :
    (∃ outcome, ingestOneDiagnosticCapture userId capture draw store = .ok outcome) ∨
      ∃ message, ingestOneDiagnosticCapture userId capture draw store = .error (.validation message) := by
  unfold ingestOneDiagnosticCapture
  extract_lets events
  split_ifs
  · exact Or.inr ⟨_, rfl⟩
  · cases hfirst : events.head? with
    | none => exact Or.inr ⟨_, rfl⟩
    | some row =>
      simp only
      split_ifs
      · exact Or.inr ⟨_, rfl⟩
      · obtain ⟨hrow, -⟩ := List.mem_filter.mp (List.mem_of_head? hfirst)
        obtain ⟨device, hdevice, hon⟩ := h.devices row hrow
        obtain ⟨session, hsession, hof⟩ := h.sessions row hrow
        obtain hknown | hinserted : _ ∨ _ := insertCapture_total
          (show (newCapture userId row.deviceContextId row.sessionPk capture draw).id ∉ _ from hcapture) howner
          (List.mem_map.mpr ⟨device, hdevice, hon.id⟩) (List.mem_map.mpr ⟨session, hsession, hof.id⟩)
        · exact Or.inl ⟨(false, store), bind_eq_ok.mpr ⟨(0, store), hknown, rfl⟩⟩
        · obtain ⟨linked, hlinked⟩ : ∃ after, events.foldlM (fun (store : Store) row =>
              store.insertCaptureEvent ⟨draw.capturePk, row.id⟩) { store with captures := store.captures ++
                [newCapture userId row.deviceContextId row.sessionPk capture draw] } = .ok after := by
            apply insertCaptureEvents_total
            · simp [newCapture]
            · exact fun other hother => List.mem_map_of_mem (List.mem_filter.mp hother).1
            · exact h.eventPks.sublist (List.filter_sublist.map _)
            · exact hlinks
          exact Or.inl ⟨(true, linked), bind_eq_ok.mpr ⟨(1, _), hinserted, bind_eq_ok.mpr ⟨_, hlinked, rfl⟩⟩⟩

variable [Sha256] [CaseMapping]

omit [Sha256] [CaseMapping] in
theorem CapturesFresh.mono (h : CapturesFresh draws first store) : CapturesFresh draws (first + 1) store where
  captures i hi := h.captures i (Nat.le_of_succ_le hi)
  links i hi := h.links i (Nat.le_of_succ_le hi)

omit [Sha256] [CaseMapping] in
theorem CapturesFresh.captured (h : CapturesFresh draws first store) (hdistinct : Distinct draws)
    {capture : IngestDiagnosticCapture} {deviceId sessionPk : Uuid} {rows : List EventRow} :
    CapturesFresh draws (first + 1) { store with
      captures := store.captures ++ [newCapture userId deviceId sessionPk capture (draws.capture first)]
      captureEvents := store.captureEvents ++ rows.map fun row => ⟨(draws.capture first).capturePk, row.id⟩ } := by
  have hlater := h.mono
  refine ⟨fun i hi hmem => ?_, fun i hi hmem => ?_⟩
  · rw [List.map_append, List.mem_append] at hmem
    obtain hold | hnew := hmem
    · exact hlater.captures i hi hold
    · exact absurd (hdistinct.capturePks (List.mem_singleton.mp hnew)) (by omega)
  · rw [List.map_append, List.map_map, List.mem_append] at hmem
    obtain hold | hnew := hmem
    · exact hlater.links i hi hold
    · obtain ⟨row, -, hsame⟩ := List.mem_map.mp hnew
      exact absurd (hdistinct.capturePks hsame) (by omega)

theorem captures_outcome (hdistinct : Distinct draws) {items : List IngestDiagnosticCapture} {tally : Tally}
    (h : Sound tally.store) (howner : userId ∈ tally.store.users) (hfresh : CapturesFresh draws first tally.store)
    {one : IngestDiagnosticCapture → ℕ → Store → Except AppError (Bool × Store)}
    (hone : ∀ capture index store, one capture index store =
      ingestOneDiagnosticCapture userId capture (draws.capture index) store) :
    (∃ stop, ingestFrom one items first tally = .ok stop) ∨
      ∃ message, ingestFrom one items first tally = .error (.validation message) := by
  induction items generalizing first tally with
  | nil => exact Or.inl ⟨tally, rfl⟩
  | cons capture items ih =>
    rw [ingestFrom_cons, hone]
    obtain ⟨⟨new, after⟩, hok⟩ | ⟨message, herror⟩ := ingestOneDiagnosticCapture_outcome h.hierarchy howner
      (hfresh.captures first le_rfl) (hfresh.links first le_rfl)
    · have hsame : (tally.count (new, after)).store = after := count_store ..
      rw [hok]
      apply ih
      · exact hsame.symm ▸ h.ingestOneDiagnosticCapture hok
      · obtain ⟨-, -, rfl⟩ | ⟨-, -, deviceId, sessionPk, rows, rfl⟩ := ingestOneDiagnosticCapture_cases hok
        · exact hsame.symm ▸ howner
        · exact hsame.symm ▸ howner
      · obtain ⟨-, -, rfl⟩ | ⟨-, -, deviceId, sessionPk, rows, rfl⟩ := ingestOneDiagnosticCapture_cases hok
        · exact hsame.symm ▸ hfresh.mono
        · exact hsame.symm ▸ hfresh.captured hdistinct
    · exact Or.inr ⟨message, bind_eq_error.mpr (Or.inl herror)⟩

end Captures

section Ingest

variable [Sha256] [Base64] [CaseMapping] {userId : Uuid} {request : IngestEventsRequest} {maxBatchSize : ℕ}
  {draws : Draws} {store : Store}

omit [Base64] in
/-- What the events of a batch leave for its captures. -/
theorem events_kept (h : Sound store) (hfresh : CapturesFresh draws 0 store)
    {items : List (IngestUsageEvent × List ValidatedImageAttachment)} {stop : Tally}
    (hok : ingestAll (fun item index => ingestOneEvent userId item.1 item.2 (draws.event index)) items store =
      .ok stop) :
    Sound stop.store ∧ stop.store.users = store.users ∧ CapturesFresh draws 0 stop.store := by
  have hgrown := events_grown h hok
  exact ⟨hgrown.soundAfter, hgrown.users, hgrown.captures ▸ hfresh.captures, hgrown.captureEvents ▸ hfresh.links⟩

/-- A statement of the batch broke a constraint, which aborts the batch with a database error. -/
def BreaksConstraint {α : Type} (outcome : Except AppError α) : Prop := ∃ broken, outcome = .error (.database broken)

theorem ingestEvents_constraints (h : Sound store) (howner : userId ∈ store.users) (hfresh : Fresh draws store)
    {validated : List (List ValidatedImageAttachment)} (hvalid : validateBatch request maxBatchSize = .ok validated) :
    ¬ BreaksConstraint (ingestEvents request userId maxBatchSize draws store) ↔
      Storable (store.events.map EventRow.eventId) request.events := by
  have hitems : (request.events.zip validated).map Prod.fst = request.events :=
    List.map_fst_zip (validateBatch_length hvalid).ge
  have hall : ∀ item ∈ request.events.zip validated, AllStorable item.2 := fun item hitem =>
    validateBatch_storable hvalid _ (List.of_mem_zip hitem).2
  have hevents := events_outcome hfresh.distinct (show Sound (Tally.mk 0 0 store).store from h) howner hall
    hfresh.events (fun _ _ _ => rfl)
  rw [hitems] at hevents
  obtain ⟨hstorable, ⟨stop, hstop⟩ | ⟨message, hmessage⟩⟩ | ⟨hstorable, hbroken⟩ := hevents
  · refine iff_of_true (fun ⟨broken, herror⟩ => ?_) hstorable
    obtain ⟨hsound, husers, hcaptures⟩ := events_kept h hfresh.captures hstop
    have hcaptured : (∃ last, ingestAll (fun capture index =>
          ingestOneDiagnosticCapture userId capture (draws.capture index)) request.diagnosticCaptures stop.store =
            .ok last) ∨ ∃ message, ingestAll (fun capture index =>
          ingestOneDiagnosticCapture userId capture (draws.capture index)) request.diagnosticCaptures stop.store =
            .error (.validation message) :=
      captures_outcome hfresh.distinct (show Sound (Tally.mk 0 0 stop.store).store from hsound) (husers ▸ howner)
        hcaptures (fun _ _ _ => rfl)
    obtain ⟨last, hlast⟩ | ⟨message, hmessage⟩ := hcaptured
    · obtain ⟨outcome, hok⟩ : ∃ outcome, ingestEvents request userId maxBatchSize draws store = .ok outcome :=
        ⟨_, bind_eq_ok.mpr ⟨_, hvalid, bind_eq_ok.mpr ⟨stop, hstop, bind_eq_ok.mpr ⟨last, hlast, rfl⟩⟩⟩⟩
      cases hok.symm.trans herror
    · have hrejected : ingestEvents request userId maxBatchSize draws store = .error (.validation message) :=
        bind_eq_error.mpr (Or.inr ⟨_, hvalid, bind_eq_error.mpr (Or.inr ⟨stop, hstop,
          bind_eq_error.mpr (Or.inl hmessage)⟩)⟩)
      cases hrejected.symm.trans herror
  · refine iff_of_true (fun ⟨broken, herror⟩ => ?_) hstorable
    have hrejected : ingestEvents request userId maxBatchSize draws store = .error (.validation message) :=
      bind_eq_error.mpr (Or.inr ⟨_, hvalid, bind_eq_error.mpr (Or.inl hmessage)⟩)
    cases hrejected.symm.trans herror
  · refine iff_of_false (fun hkept => hkept ⟨.check, ?_⟩) hstorable
    exact bind_eq_error.mpr (Or.inr ⟨_, hvalid, bind_eq_error.mpr (Or.inl hbroken)⟩)

/-- A validated batch of an owner breaks a constraint exactly where a new event has a negative counter. -/
theorem Reachable.constraints_kept_iff (h : Reachable store) (howner : userId ∈ store.users)
    (hfresh : Fresh draws store) {validated : List (List ValidatedImageAttachment)}
    (hvalid : validateBatch request maxBatchSize = .ok validated) :
    ¬ BreaksConstraint (ingestEvents request userId maxBatchSize draws store) ↔
      Storable (store.events.map EventRow.eventId) request.events :=
  ingestEvents_constraints h.sound howner hfresh hvalid

end Ingest

section NegativeCounter

open Fixtures

local instance counterDigest : Sha256 := cargoDigest

local instance counterContent : Base64 := noContent

local instance counterCase : CaseMapping := asciiCase

def pairedDraws : Draws where
  event index := ⟨0, index, index, index, Nat.pair index, 0⟩
  capture index := ⟨index, 0⟩

theorem pairedDraws_distinct : Distinct pairedDraws where
  deviceIds _ _ h := h
  sessionPks _ _ h := h
  eventPks _ _ h := h
  attachmentIds _ _ h := Prod.ext (Nat.pair_eq_pair.mp h).1 (Nat.pair_eq_pair.mp h).2
  capturePks _ _ h := h

theorem pairedDraws_fresh : Fresh pairedDraws { users := [7] } where
  distinct := pairedDraws_distinct
  events := ⟨by simp, by simp, by simp, by simp⟩
  captures := ⟨by simp, by simp⟩

theorem Reachable.batch_constraints_kept :
    ¬ BreaksConstraint (ingestEvents batch 7 100 pairedDraws { users := [7] }) ↔ Storable [] batch.events :=
  Reachable.constraints_kept_iff (.start [7]) (by decide) pairedDraws_fresh rfl

/-- An event that reports minus one input tokens. -/
def negativeCounter : IngestEventsRequest where
  events := [{ event "e1" 1 .request [⟨"user", "cargo test", none, none⟩] with
    tokenUsage := ⟨some (-1), none, none, none, none, none⟩ }]
  diagnosticCaptures := []

theorem negativeCounter_aborts :
    Reachable { users := [7] } ∧ validateBatch negativeCounter 100 = .ok [[]] ∧
      BreaksConstraint (ingestEvents negativeCounter 7 100 pairedDraws { users := [7] }) :=
  ⟨.start [7], rfl, .check, rfl⟩

end NegativeCounter

end AbyssBackend.Storage
