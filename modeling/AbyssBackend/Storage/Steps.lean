import AbyssBackend.Library.Attempts
import AbyssBackend.Storage.Ingest

namespace AbyssBackend.Storage

open Attachments Attempts Conversation Search Streams Text

variable {userId deviceId sessionPk eventPk : Uuid} {event : IngestUsageEvent} {observedAt : ℤ} {draw : EventDraw}
  {store after : Store}

section Upserts

theorem insertDevice_spec {row : DeviceRow} (h : store.insertDevice row = .ok after) :
    row.id ∉ store.devices.map DeviceRow.id ∧ row.key ∉ store.devices.map DeviceRow.key ∧
      row.userId ∈ store.users ∧ after = { store with devices := store.devices ++ [row] } := by
  obtain ⟨-, htaken, hmissing, rfl⟩ := Store.write_eq_ok.mp h
  obtain ⟨hid, hkey⟩ := Rows.free_both_iff.mp htaken
  exact ⟨hid, hkey, by simpa [Store.hasUser] using hmissing, rfl⟩

theorem insertSession_spec {row : SessionRow} (h : store.insertSession row = .ok after) :
    row.id ∉ store.sessions.map SessionRow.id ∧ row.key ∉ store.sessions.map SessionRow.key ∧
      after = { store with sessions := store.sessions ++ [row] } := by
  obtain ⟨-, htaken, -, rfl⟩ := Store.write_eq_ok.mp h
  obtain ⟨hid, hkey⟩ := Rows.free_both_iff.mp htaken
  exact ⟨hid, hkey, rfl⟩

inductive DeviceSeen (userId : Uuid) (event : IngestUsageEvent) (observedAt : ℤ) (draw : EventDraw)
    (devices : List DeviceRow) : Uuid → List DeviceRow → Prop
  | known (existing : DeviceRow) (hfound : Rows.find DeviceRow.key
      (userId, event.device.hostName, event.device.platform) devices = some existing) :
      DeviceSeen userId event observedAt draw devices existing.id
        (Rows.update DeviceRow.id existing.id (seenDevice existing event observedAt draw) devices)
  | new (hkey : (userId, event.device.hostName, event.device.platform) ∉ devices.map DeviceRow.key)
      (hid : draw.deviceId ∉ devices.map DeviceRow.id) :
      DeviceSeen userId event observedAt draw devices draw.deviceId
        (devices ++ [newDevice userId event observedAt draw])

inductive SessionSeen (userId deviceId : Uuid) (event : IngestUsageEvent) (observedAt : ℤ) (draw : EventDraw)
    (sessions : List SessionRow) : Uuid → List SessionRow → Prop
  | known (existing : SessionRow) (hfound : Rows.find SessionRow.key
      (userId, event.agent.name, event.sessionId) sessions = some existing) :
      SessionSeen userId deviceId event observedAt draw sessions existing.id
        (Rows.update SessionRow.id existing.id (seenSession existing deviceId event observedAt draw) sessions)
  | new (hkey : (userId, event.agent.name, event.sessionId) ∉ sessions.map SessionRow.key)
      (hid : draw.sessionPk ∉ sessions.map SessionRow.id) :
      SessionSeen userId deviceId event observedAt draw sessions draw.sessionPk
        (sessions ++ [newSession userId deviceId event observedAt draw])

theorem upsertDevice_spec (h : upsertDevice userId event observedAt draw store = .ok (deviceId, after)) :
    ∃ devices, DeviceSeen userId event observedAt draw store.devices deviceId devices ∧
      after = { store with devices } := by
  rw [upsertDevice] at h
  split at h
  · next existing hfound =>
    cases h
    exact ⟨_, .known existing hfound, rfl⟩
  · obtain ⟨inserted, hinsert, hdone⟩ := bind_eq_ok.mp h
    cases hdone
    obtain ⟨hid, hkey, -, rfl⟩ := insertDevice_spec hinsert
    exact ⟨_, .new hkey hid, rfl⟩

theorem upsertSession_spec (h : upsertSession userId deviceId event observedAt draw store = .ok (sessionPk, after)) :
    ∃ sessions, SessionSeen userId deviceId event observedAt draw store.sessions sessionPk sessions ∧
      after = { store with sessions } := by
  rw [upsertSession] at h
  split at h
  · next existing hfound =>
    obtain ⟨updated, hupdate, hdone⟩ := bind_eq_ok.mp h
    cases hdone
    obtain ⟨-, -, -, rfl⟩ := Store.write_eq_ok.mp hupdate
    exact ⟨_, .known existing hfound, rfl⟩
  · obtain ⟨inserted, hinsert, hdone⟩ := bind_eq_ok.mp h
    cases hdone
    obtain ⟨hid, hkey, rfl⟩ := insertSession_spec hinsert
    exact ⟨_, .new hkey hid, rfl⟩

end Upserts

section Inserts

theorem insertEvent_cases {row : EventRow} {inserted : ℕ} (h : store.insertEvent row = .ok (inserted, after)) :
    (inserted = 0 ∧ row.eventId ∈ store.events.map EventRow.eventId ∧ after = store) ∨
    (inserted = 1 ∧ row.eventId ∉ store.events.map EventRow.eventId ∧ row.id ∉ store.events.map EventRow.id ∧
      after = { store with events := store.events ++ [row] }) := by
  rw [Store.insertEvent] at h
  split_ifs at h with _ hknown
  · cases h
    exact Or.inl ⟨rfl, Rows.any_key.mp hknown, rfl⟩
  · obtain ⟨written, hwrite, hdone⟩ := bind_eq_ok.mp h
    cases hdone
    obtain ⟨-, htaken, -, rfl⟩ := Store.write_eq_ok.mp hwrite
    exact Or.inr ⟨rfl, Rows.free_iff.mp (by simpa using hknown), Rows.free_iff.mp htaken, rfl⟩

theorem insertFacts_spec {row : StreamFactsRow} (h : store.insertFacts row = .ok after) :
    row.eventPk ∉ store.streamFacts.map StreamFactsRow.eventPk ∧
      after = { store with streamFacts := store.streamFacts ++ [row] } := by
  obtain ⟨-, htaken, -, rfl⟩ := Store.write_eq_ok.mp h
  exact ⟨Rows.free_iff.mp htaken, rfl⟩

theorem insertAttachments_spec {attachments : List ValidatedImageAttachment}
    (h : insertAttachments userId eventPk attachments draw store = .ok after) :
    after = { store with attachments := store.attachments ++
      (attachments.zipIdx.map fun indexed => newAttachment userId eventPk indexed.1 draw indexed.2) } := by
  refine foldlM_ok h (P := fun done after => after = { store with attachments := store.attachments ++
    (done.map fun indexed => newAttachment userId eventPk indexed.1 draw indexed.2) }) (by simp) ?_
  rintro done ⟨attachment, index⟩ before after rfl hstep
  obtain ⟨-, -, -, rfl⟩ := Store.write_eq_ok.mp hstep
  simp

theorem insertRefs_spec {refs : List SearchRef}
    (h : refs.foldlM (fun (store : Store) ref => store.insertRef ref) store = .ok after)
    (hplaces : (store.searchRefs.map SearchRef.place).Nodup) :
    ((store.searchRefs ++ refs).map SearchRef.place).Nodup ∧
      after = { store with searchRefs := store.searchRefs ++ refs } := by
  refine foldlM_ok h (P := fun done after => ((store.searchRefs ++ done).map SearchRef.place).Nodup ∧
    after = { store with searchRefs := store.searchRefs ++ done }) (by simpa using hplaces) ?_
  rintro done ref before after ⟨hnodup, rfl⟩ hstep
  obtain ⟨-, htaken, -, rfl⟩ := Store.write_eq_ok.mp hstep
  rw [← List.append_assoc]
  exact ⟨Rows.nodup_concat hnodup (Rows.free_iff.mp htaken), rfl⟩

theorem insertCapture_cases {row : DiagnosticCapture} {inserted : ℕ}
    (h : store.insertCapture row = .ok (inserted, after)) :
    (inserted = 0 ∧ row.key ∈ store.captures.map DiagnosticCapture.key ∧ after = store) ∨
    (inserted = 1 ∧ row.key ∉ store.captures.map DiagnosticCapture.key ∧
      after = { store with captures := store.captures ++ [row] }) := by
  rw [Store.insertCapture] at h
  split_ifs at h with _ hknown
  · cases h
    exact Or.inl ⟨rfl, Rows.any_key.mp hknown, rfl⟩
  · obtain ⟨written, hwrite, hdone⟩ := bind_eq_ok.mp h
    cases hdone
    obtain ⟨-, -, -, rfl⟩ := Store.write_eq_ok.mp hwrite
    exact Or.inr ⟨rfl, Rows.free_iff.mp (Bool.eq_false_iff.mpr hknown), rfl⟩

theorem insertCaptureEvents_spec {capturePk : Uuid} {events : List EventRow}
    (h : events.foldlM (fun (store : Store) row => store.insertCaptureEvent ⟨capturePk, row.id⟩) store = .ok after) :
    after = { store with captureEvents := store.captureEvents ++ (events.map fun row => ⟨capturePk, row.id⟩) } := by
  refine foldlM_ok h (P := fun done after => after = { store with
    captureEvents := store.captureEvents ++ (done.map fun row => ⟨capturePk, row.id⟩) }) (by simp) ?_
  rintro done row before after rfl hstep
  obtain ⟨-, -, -, rfl⟩ := Store.write_eq_ok.mp hstep
  simp

end Inserts

section Index

variable [Sha256] [CaseMapping]

def trigramRow (text : SearchText) : TrigramRow := ⟨text.id, fold text.text⟩

/-- The texts are told apart by id and by owner and hash, and each is indexed once. -/
structure Indexed (texts : List SearchText) (trigram : List TrigramRow) : Prop where
  ids : (texts.map SearchText.id).Nodup
  hashes : (texts.map SearchText.hash).Nodup
  digests : ∀ text ∈ texts, text.sha256 = Sha256.digest text.text
  trigram : trigram = texts.map trigramRow

structure Refers (owner eventPk : Uuid) (texts : List SearchText) (piece : Piece) (ref : SearchRef) : Prop where
  eventPk : ref.eventPk = eventPk
  entryIndex : ref.entryIndex = piece.entryIndex
  field : ref.field = piece.field.asStr
  text : ∃ text ∈ texts, text.id = ref.textId ∧ text.userId = owner ∧ text.sha256 = Sha256.digest piece.text

def Store.withTexts (store : Store) (new : List SearchText) : Store :=
  { store with
    searchTexts := store.searchTexts ++ new
    searchTextsTrigram := store.searchTextsTrigram ++ new.map trigramRow }

omit [Sha256] [CaseMapping] in
theorem nextTextId_not_mem : store.nextTextId ∉ store.searchTexts.map SearchText.id := by
  have hle : ∀ (ids : List ℕ), ∀ id ∈ ids, id ≤ ids.foldr max 0 := by
    intro ids
    induction ids with
    | nil => simp
    | cons first ids ih =>
      intro id hid
      rw [List.foldr_cons]
      rcases List.mem_cons.mp hid with rfl | hrest
      · exact le_max_left _ _
      · exact (ih id hrest).trans (le_max_right _ _)
  intro hmem
  have hbound := hle _ _ hmem
  rw [Store.nextTextId] at hbound
  omega

theorem textId_spec {owner : Uuid} {text : String} {id : ℕ}
    (hindexed : Indexed store.searchTexts store.searchTextsTrigram) (h : textId owner text store = .ok (id, after)) :
    ∃ new, after = store.withTexts new ∧ Indexed after.searchTexts after.searchTextsTrigram ∧
      (∀ row ∈ new, row.userId = owner ∧ row.text = text) ∧
      ∃ row ∈ after.searchTexts, row.id = id ∧ row.userId = owner ∧ row.sha256 = Sha256.digest text := by
  rw [textId, Store.insertOrIgnoreText] at h
  by_cases hknown : (store.searchTexts.any fun other => other.hash == (owner, Sha256.digest text)) = true
  · simp only [hknown, if_true] at h
    split at h
    · next found hfound =>
      cases h
      obtain ⟨hmem, hhash⟩ := Rows.find_mem hfound
      refine ⟨[], by simp [Store.withTexts], hindexed, by simp, found, hmem, rfl, ?_, ?_⟩
      · exact congrArg Prod.fst hhash
      · exact congrArg Prod.snd hhash
    · cases h
  · have hnew := Rows.free_iff.mp (Bool.eq_false_iff.mpr hknown)
    simp only [hknown] at h
    cases h
    refine ⟨[⟨store.nextTextId, owner, Sha256.digest text, text⟩], rfl, ?_, by simp, _,
      List.mem_append_right _ (List.mem_singleton_self _), rfl, rfl, rfl⟩
    refine ⟨Rows.nodup_concat hindexed.ids nextTextId_not_mem, Rows.nodup_concat hindexed.hashes hnew, ?_, ?_⟩
    · intro row hrow
      obtain hold | hlast := List.mem_append.mp hrow
      · exact hindexed.digests row hold
      · obtain rfl := List.mem_singleton.mp hlast
        rfl
    · simp [Store.insertTrigram, hindexed.trigram, trigramRow]

omit [CaseMapping] in
theorem Refers.mono {owner eventPk : Uuid} {texts texts' : List SearchText} {piece : Piece} {ref : SearchRef}
    (h : Refers owner eventPk texts piece ref) (hsub : ∀ row ∈ texts, row ∈ texts') :
    Refers owner eventPk texts' piece ref := by
  obtain ⟨row, hrow, hfacts⟩ := h.text
  exact { h with text := ⟨row, hsub row hrow, hfacts⟩ }

theorem pieceRefs_spec {owner : Uuid} {pieces : List Piece} {refs : List SearchRef}
    (hindexed : Indexed store.searchTexts store.searchTextsTrigram)
    (h : pieceRefs owner eventPk pieces store = .ok (refs, after)) :
    ∃ new, after = store.withTexts new ∧ Indexed after.searchTexts after.searchTextsTrigram ∧
      (∀ row ∈ new, row.userId = owner ∧ ∃ piece ∈ pieces, piece.text = row.text) ∧
      List.Forall₂ (Refers owner eventPk after.searchTexts) pieces refs := by
  induction pieces generalizing store refs with
  | nil =>
    cases h
    exact ⟨[], by simp [Store.withTexts], hindexed, by simp, .nil⟩
  | cons piece rest ih =>
    rw [pieceRefs] at h
    split_ifs at h
    · cases h
    · obtain ⟨⟨id, middle⟩, hid, h⟩ := bind_eq_ok.mp h
      obtain ⟨⟨others, last⟩, hothers, h⟩ := bind_eq_ok.mp h
      cases h
      obtain ⟨first, rfl, hmiddle, hfirst, row, hrow, hrowId, hrowOwner, hrowDigest⟩ := textId_spec hindexed hid
      obtain ⟨more, rfl, hlast, hmore, hrefs⟩ := ih hmiddle hothers
      refine ⟨first ++ more, by simp [Store.withTexts, List.append_assoc], hlast, ?_, .cons ?_ hrefs⟩
      · intro new hnew
        obtain hold | hlater := List.mem_append.mp hnew
        · exact ⟨(hfirst new hold).1, piece, List.mem_cons_self .., (hfirst new hold).2.symm⟩
        · obtain ⟨howner, other, hother, htext⟩ := hmore new hlater
          exact ⟨howner, other, List.mem_cons_of_mem _ hother, htext⟩
      · exact ⟨rfl, rfl, rfl, row, List.mem_append_left _ hrow, hrowId, hrowOwner, hrowDigest⟩

theorem indexEvent_spec {owner : Uuid} {conversation : Option Value}
    (h : indexEvent owner eventPk conversation store = .ok after)
    (hindexed : Indexed store.searchTexts store.searchTextsTrigram)
    (hplaces : (store.searchRefs.map SearchRef.place).Nodup) :
    ∃ new refs, after = { store.withTexts new with searchRefs := store.searchRefs ++ refs } ∧
      Indexed after.searchTexts after.searchTextsTrigram ∧ (after.searchRefs.map SearchRef.place).Nodup ∧
      (∀ row ∈ new, row.userId = owner ∧ ∃ piece ∈ pieces conversation, piece.text = row.text) ∧
      List.Forall₂ (Refers owner eventPk after.searchTexts) (pieces conversation) refs := by
  obtain ⟨⟨refs, middle⟩, hrefs, hinsert⟩ := bind_eq_ok.mp h
  obtain ⟨new, rfl, hmiddle, hnew, hrefers⟩ := pieceRefs_spec hindexed hrefs
  obtain ⟨hnodup, rfl⟩ := insertRefs_spec hinsert hplaces
  exact ⟨new, refs, rfl, hmiddle, hnodup, hnew, hrefers⟩

end Index

section Titles

inductive TitleKept (userId sessionPk eventPk : Uuid) (eventType : String) (observedAt now : ℤ)
    (titles : List SessionTitle) : List SessionTitle → Prop
  | response (h : eventType ≠ "request") : TitleKept userId sessionPk eventPk eventType observedAt now titles titles
  | later (h : eventType = "request") (stored : ℤ × Uuid) (hstored : storedTitle sessionPk titles = some stored)
      (hle : registeredLe stored (observedAt, eventPk) = true) :
      TitleKept userId sessionPk eventPk eventType observedAt now titles titles
  | earliest (h : eventType = "request") (hfirst : ∀ stored, storedTitle sessionPk titles = some stored →
      registeredLe stored (observedAt, eventPk) = false) :
      TitleKept userId sessionPk eventPk eventType observedAt now titles
        (SessionTitle.upsert ⟨sessionPk, userId, none, some eventPk, some observedAt, now⟩ titles)

theorem capture_spec {eventType : String} {now : ℤ} {changed : Bool}
    (h : capture userId sessionPk eventPk eventType observedAt now store = .ok (changed, after)) :
    ∃ titles, TitleKept userId sessionPk eventPk eventType observedAt now store.sessionTitles titles ∧
      after = { store with sessionTitles := titles } := by
  rw [capture] at h
  split_ifs at h with htype hlater
  · cases h
    exact ⟨_, .response htype, rfl⟩
  · cases h
    obtain ⟨stored, hstored, hle⟩ := (Option.any_eq_true _ _).mp hlater
    exact ⟨_, .later (not_not.mp htype) stored hstored hle, rfl⟩
  · obtain ⟨titled, htitled, hdone⟩ := bind_eq_ok.mp h
    cases hdone
    obtain ⟨-, -, -, rfl⟩ := Store.write_eq_ok.mp htitled
    refine ⟨_, .earliest (not_not.mp htype) fun stored hstored => ?_, rfl⟩
    rw [hstored] at hlater
    simpa using hlater

end Titles

section Events

variable [Sha256] [CaseMapping] {attachments : List ValidatedImageAttachment}

/-- What storing a new event does to the tables. -/
structure Admitted (userId : Uuid) (event : IngestUsageEvent) (attachments : List ValidatedImageAttachment)
    (draw : EventDraw) (deviceId sessionPk : Uuid) (texts : List SearchText) (refs : List SearchRef)
    (store after : Store) : Prop where
  users : after.users = store.users
  device : DeviceSeen userId event (timestampToMicros event.observedAt) draw store.devices deviceId after.devices
  session : SessionSeen userId deviceId event (timestampToMicros event.observedAt) draw store.sessions sessionPk
    after.sessions
  newId : event.eventId ∉ store.events.map EventRow.eventId
  newPk : draw.eventPk ∉ store.events.map EventRow.id
  events : after.events = store.events ++ [newEvent userId deviceId sessionPk event draw]
  streamFacts : after.streamFacts = store.streamFacts ++ [newFacts draw.eventPk event]
  attachments : after.attachments = store.attachments ++
    attachments.zipIdx.map fun indexed => newAttachment userId draw.eventPk indexed.1 draw indexed.2
  searchTexts : after.searchTexts = store.searchTexts ++ texts
  indexed : Indexed after.searchTexts after.searchTextsTrigram
  searchRefs : after.searchRefs = store.searchRefs ++ refs
  places : (after.searchRefs.map SearchRef.place).Nodup
  textsUsed : ∀ row ∈ texts, row.userId = userId ∧ ∃ piece ∈ pieces event.conversation, piece.text = row.text
  refers : List.Forall₂ (Refers userId draw.eventPk after.searchTexts) (pieces event.conversation) refs
  titles : TitleKept userId sessionPk draw.eventPk event.eventType.asStr (timestampToMicros event.observedAt)
    draw.titledAt store.sessionTitles after.sessionTitles
  captures : after.captures = store.captures
  captureEvents : after.captureEvents = store.captureEvents

theorem ingestOneEvent_cases {new : Bool}
    (h : ingestOneEvent userId event attachments draw store = .ok (new, after))
    (hindexed : Indexed store.searchTexts store.searchTextsTrigram)
    (hplaces : (store.searchRefs.map SearchRef.place).Nodup) :
    (new = false ∧ event.eventId ∈ store.events.map EventRow.eventId ∧ after = store) ∨
    (new = true ∧ ∃ deviceId sessionPk texts refs,
      Admitted userId event attachments draw deviceId sessionPk texts refs store after) := by
  rw [ingestOneEvent] at h
  split_ifs at h with hknown
  · cases h
    exact Or.inl ⟨rfl, Rows.any_key.mp hknown, rfl⟩
  · have hnew : event.eventId ∉ store.events.map EventRow.eventId :=
      Rows.free_iff.mp (Bool.eq_false_iff.mpr hknown)
    obtain ⟨⟨deviceId, withDevice⟩, hdevice, h⟩ := bind_eq_ok.mp h
    obtain ⟨devices, hseen, rfl⟩ := upsertDevice_spec hdevice
    obtain ⟨⟨sessionPk, withSession⟩, hsession, h⟩ := bind_eq_ok.mp h
    obtain ⟨sessions, hof, rfl⟩ := upsertSession_spec hsession
    obtain ⟨⟨inserted, withEvent⟩, hinsert, h⟩ := bind_eq_ok.mp h
    obtain ⟨-, hmem, -⟩ | ⟨rfl, -, hpk, rfl⟩ := insertEvent_cases hinsert
    · exact absurd hmem hnew
    · simp only [ne_eq, not_true_eq_false, if_false] at h
      obtain ⟨withFacts, hfacts, h⟩ := bind_eq_ok.mp h
      obtain ⟨-, rfl⟩ := insertFacts_spec hfacts
      obtain ⟨withAttachments, hattachments, h⟩ := bind_eq_ok.mp h
      obtain rfl := insertAttachments_spec hattachments
      obtain ⟨withIndex, hindex, h⟩ := bind_eq_ok.mp h
      obtain ⟨texts, refs, rfl, hindexed, hplaces, htexts, hrefers⟩ := indexEvent_spec hindex hindexed hplaces
      obtain ⟨⟨changed, withTitle⟩, htitle, h⟩ := bind_eq_ok.mp h
      obtain ⟨titles, hkept, rfl⟩ := capture_spec htitle
      cases h
      exact Or.inr ⟨rfl, deviceId, sessionPk, texts, refs, rfl, hseen, hof, hnew, hpk, rfl, rfl, rfl, rfl, hindexed,
        rfl, hplaces, htexts, hrefers, hkept, rfl, rfl⟩

end Events

section Batches

theorem ingestOneDiagnosticCapture_cases {capture : IngestDiagnosticCapture} {draw : CaptureDraw} {new : Bool}
    (h : ingestOneDiagnosticCapture userId capture draw store = .ok (new, after)) :
    (new = false ∧ (userId, normalizeText capture.captureId) ∈ store.captures.map DiagnosticCapture.key ∧
      after = store) ∨
    (new = true ∧ (userId, normalizeText capture.captureId) ∉ store.captures.map DiagnosticCapture.key ∧
      ∃ deviceId sessionPk, ∃ rows : List EventRow, after = { store with
      captures := store.captures ++ [newCapture userId deviceId sessionPk capture draw]
      captureEvents := store.captureEvents ++ rows.map fun row => ⟨draw.capturePk, row.id⟩ }) := by
  rw [ingestOneDiagnosticCapture] at h
  split_ifs at h
  · split at h
    · cases h
    · next first _ =>
      split_ifs at h
      · obtain ⟨⟨inserted, withCapture⟩, hinsert, h⟩ := bind_eq_ok.mp h
        obtain ⟨rfl, hknown, rfl⟩ | ⟨rfl, hfree, rfl⟩ := insertCapture_cases hinsert
        · cases h
          exact Or.inl ⟨rfl, hknown, rfl⟩
        · simp only [if_true] at h
          obtain ⟨linked, hlinks, h⟩ := bind_eq_ok.mp h
          cases h
          obtain rfl := insertCaptureEvents_spec hlinks
          exact Or.inr ⟨rfl, hfree, _, _, _, rfl⟩

theorem ingestAll_keeps {ι : Type} {one : ι → ℕ → Store → Except AppError (Bool × Store)} {items : List ι}
    {tally : Tally} (h : ingestAll one items store = .ok tally) {P : Store → Prop} (hstart : P store)
    (hstep : ∀ item index before new after, P before → one item index before = .ok (new, after) → P after) :
    P tally.store := by
  refine foldlM_ok h (P := fun _ tally => P tally.store) hstart ?_
  rintro - ⟨item, index⟩ before after hbefore hone
  obtain ⟨⟨new, stored⟩, hok, hcount⟩ := bind_eq_ok.mp hone
  cases hcount
  have hstored := hstep item index before.store new stored hbefore hok
  cases new <;> exact hstored

/-- The response to a batch whose events and captures were counted. -/
def responseOf (events captures : Tally) : IngestEventsResponse where
  accepted := events.accepted
  duplicates := events.duplicates
  rejected := 0
  errors := []
  acceptedDiagnosticCaptures := captures.accepted
  duplicateDiagnosticCaptures := captures.duplicates

theorem ingestEvents_ok [Sha256] [Base64] [CaseMapping] {request : IngestEventsRequest} {maxBatchSize : ℕ}
    {draws : Draws} {response : IngestEventsResponse} :
    ingestEvents request userId maxBatchSize draws store = .ok (response, after) ↔
    ∃ validated events captures, validateBatch request maxBatchSize = .ok validated ∧
      ingestAll (fun item index => ingestOneEvent userId item.1 item.2 (draws.event index))
        (request.events.zip validated) store = .ok events ∧
      ingestAll (fun capture index => ingestOneDiagnosticCapture userId capture (draws.capture index))
        request.diagnosticCaptures events.store = .ok captures ∧
      response = responseOf events captures ∧ after = captures.store := by
  constructor
  · intro h
    obtain ⟨validated, hvalid, h⟩ := bind_eq_ok.mp h
    obtain ⟨events, hevents, h⟩ := bind_eq_ok.mp h
    obtain ⟨captures, hcaptures, h⟩ := bind_eq_ok.mp h
    cases h
    exact ⟨validated, events, captures, hvalid, hevents, hcaptures, rfl, rfl⟩
  · rintro ⟨validated, events, captures, hvalid, hevents, hcaptures, rfl, rfl⟩
    refine bind_eq_ok.mpr ⟨validated, hvalid, bind_eq_ok.mpr ⟨events, hevents, ?_⟩⟩
    exact bind_eq_ok.mpr ⟨captures, hcaptures, rfl⟩

end Batches

end AbyssBackend.Storage
