import AbyssBackend.Postgres.Captures
import AbyssBackend.Storage.Constraints

namespace AbyssBackend.Postgres

open Attachments Attempts Drafts Search Storage Streams Text

/-- The same rows in both databases; PostgreSQL moves a row that it updates. -/
structure Twin (tables : Tables) (store : Store) : Prop where
  devices : tables.devices.Perm store.devices
  sessions : tables.sessions.Perm store.sessions
  events : tables.events = store.events
  streamFacts : tables.streamFacts = store.streamFacts
  attachments : tables.attachments = store.attachments
  sessionTitles : tables.sessionTitles.Perm store.sessionTitles
  captures : tables.captures = store.captures
  captureEvents : tables.captureEvents = store.captureEvents

/-- No other transaction holds a row. -/
def Idle (others : List Tables) : Prop := ∀ own ∈ others, own = {}

section Times

/-- A moment that both databases keep as the same count of microseconds. -/
def Kept (moment : DateTime) : Prop := timestamptz moment = timestampToMicros moment

instance (moment : DateTime) : Decidable (Kept moment) := inferInstanceAs (Decidable (_ = _))

theorem kept_iff (moment : ℤ) : Kept moment ↔ postgresEpoch ≤ moment ∨ 1000 ∣ moment := by
  show (moment - 946684800000000000).tdiv 1000 + 946684800000000 = moment / 1000 ↔
    (946684800000000000 : ℤ) ≤ moment ∨ 1000 ∣ moment
  rcases le_or_gt (946684800000000000 : ℤ) moment with hle | hlt
  · rw [Int.tdiv_eq_ediv_of_nonneg (by omega)]
    omega
  · have hdiv : (moment - 946684800000000000).tdiv 1000 = -((946684800000000000 - moment) / 1000) := by
      rw [← Int.neg_sub, Int.neg_tdiv, Int.tdiv_eq_ediv_of_nonneg (by omega)]
    rw [hdiv]
    omega

end Times

section Statements

variable {others : List Tables} {committed : Tables} {transaction : Transaction} {store : Store} {delivery : Delivery}

theorem pending_idle {ρ : Type} {table : Tables → List ρ} {p : ρ → Bool} (hidle : Idle others)
    (hempty : table {} = []) : pending others table p = false := by
  refine List.any_eq_false.mpr fun own hown => ?_
  rw [hidle own hown, hempty]
  exact Bool.false_ne_true

theorem unused_free {ρ : Type} {table : Tables → List ρ} {id : ρ → Uuid} {k : Uuid}
    (h : unused others committed transaction.own table (fun row => id row == k) = true) :
    k ∉ (table committed).map id ∧ k ∉ (table transaction.own).map id := by
  refine ⟨fun hmem => ?_, fun hmem => ?_⟩
  all_goals
    obtain ⟨row, hrow, hid⟩ := List.mem_map.mp hmem
    have hunused := unused_iff.mp h _ (by simp) row hrow
    exact beq_eq_false_iff_ne.mp hunused hid

theorem upsertDevice_twin {row : DeviceRow} (hrow : upsertDevice others committed transaction delivery = some row)
    (hidle : Idle others) (htwin : Twin (view committed transaction) store) (hhierarchy : Hierarchy store)
    (howner : transaction.userId ∈ store.users) :
    ∃ devices, Storage.upsertDevice transaction.userId delivery.event delivery.observedAt delivery.draw store =
        .ok (row.id, { store with devices }) ∧
      (overlay DeviceRow.id [row] (view committed transaction).devices).Perm devices ∧
      row.id ∈ devices.map DeviceRow.id := by
  have hkeys := (htwin.devices.map DeviceRow.key).nodup_iff.mpr hhierarchy.deviceKeys
  have hids := (htwin.devices.map DeviceRow.id).nodup_iff.mpr hhierarchy.deviceIds
  unfold upsertDevice at hrow
  dsimp only at hrow
  rw [pending_idle hidle rfl, if_neg Bool.false_ne_true, Rows.find_perm htwin.devices hkeys] at hrow
  split at hrow
  · next existing hfound =>
    cases hrow
    obtain ⟨hmem, -⟩ := Rows.find_mem hfound
    have hperm : (overlay DeviceRow.id [seenDevice existing delivery.event delivery.observedAt delivery.draw existing]
        (view committed transaction).devices).Perm (Rows.update DeviceRow.id existing.id
          (seenDevice existing delivery.event delivery.observedAt delivery.draw) store.devices) :=
      overlay_update htwin.devices hids (htwin.devices.mem_iff.mpr hmem) rfl rfl
    rw [Storage.upsertDevice, hfound]
    refine ⟨_, rfl, hperm, (hperm.map DeviceRow.id).mem_iff.mp ?_⟩
    exact keys_overlay.mpr (Or.inr (List.mem_singleton_self _))
  · next hnone =>
    split at hrow
    · next hunused =>
      cases hrow
      obtain ⟨hcommitted, hown⟩ := unused_free hunused
      have hfree : delivery.draw.deviceId ∉ (view committed transaction).devices.map DeviceRow.id := fun hmem =>
        (keys_overlay.mp hmem).elim hcommitted hown
      have hfresh := mt (htwin.devices.map DeviceRow.id).mem_iff.mpr hfree
      have hinsert : store.insertDevice (newDevice transaction.userId delivery.event delivery.observedAt delivery.draw) =
          .ok { store with devices := store.devices ++
            [newDevice transaction.userId delivery.event delivery.observedAt delivery.draw] } :=
        Store.write_eq_ok.mpr ⟨rfl, Rows.free_both_iff.mpr ⟨hfresh, Rows.find_none hnone⟩,
          congrArg Bool.not (hasUser_iff.mpr howner), rfl⟩
      rw [Storage.upsertDevice, hnone]
      refine ⟨_, bind_eq_ok.mpr ⟨_, hinsert, rfl⟩, ?_, ?_⟩
      · rw [overlay_new hfree]
        exact htwin.devices.append_right _
      · exact List.mem_map_of_mem (List.mem_append_right _ (List.mem_singleton_self _))
    · cases hrow

theorem upsertSession_twin {deviceId : Uuid} {row : SessionRow}
    (hrow : upsertSession others committed transaction deviceId delivery = some row) (hidle : Idle others)
    (htwin : Twin (view committed transaction) store) (hids : (store.sessions.map SessionRow.id).Nodup)
    (hkeys : (store.sessions.map SessionRow.key).Nodup) (howner : transaction.userId ∈ store.users)
    (hdevice : deviceId ∈ store.devices.map DeviceRow.id) :
    ∃ sessions, Storage.upsertSession transaction.userId deviceId delivery.event delivery.observedAt delivery.draw
        store = .ok (row.id, { store with sessions }) ∧
      (overlay SessionRow.id [row] (view committed transaction).sessions).Perm sessions ∧
      row.id ∈ sessions.map SessionRow.id := by
  have hkeys := (htwin.sessions.map SessionRow.key).nodup_iff.mpr hkeys
  have hids := (htwin.sessions.map SessionRow.id).nodup_iff.mpr hids
  unfold upsertSession at hrow
  dsimp only at hrow
  rw [pending_idle hidle rfl, if_neg Bool.false_ne_true, Rows.find_perm htwin.sessions hkeys] at hrow
  split at hrow
  · next existing hfound =>
    cases hrow
    obtain ⟨hmem, -⟩ := Rows.find_mem hfound
    have hperm : (overlay SessionRow.id [seenSession existing deviceId delivery.event delivery.observedAt delivery.draw
        existing] (view committed transaction).sessions).Perm (Rows.update SessionRow.id existing.id
          (seenSession existing deviceId delivery.event delivery.observedAt delivery.draw) store.sessions) :=
      overlay_update htwin.sessions hids (htwin.sessions.mem_iff.mpr hmem) rfl rfl
    have hmissing : (!store.hasDevice deviceId) = false := congrArg Bool.not (hasDevice_iff.mpr hdevice)
    rw [Storage.upsertSession, hfound]
    refine ⟨_, bind_eq_ok.mpr ⟨_, Store.write_eq_ok.mpr ⟨rfl, rfl, hmissing, rfl⟩, rfl⟩, hperm,
      (hperm.map SessionRow.id).mem_iff.mp ?_⟩
    exact keys_overlay.mpr (Or.inr (List.mem_singleton_self _))
  · next hnone =>
    split at hrow
    · next hunused =>
      cases hrow
      obtain ⟨hcommitted, hown⟩ := unused_free hunused
      have hfree : delivery.draw.sessionPk ∉ (view committed transaction).sessions.map SessionRow.id := fun hmem =>
        (keys_overlay.mp hmem).elim hcommitted hown
      have hfresh := mt (htwin.sessions.map SessionRow.id).mem_iff.mpr hfree
      have hmissing : (!store.hasUser transaction.userId || !store.hasDevice deviceId) = false := by
        simp [hasUser_iff.mpr howner, hasDevice_iff.mpr hdevice]
      have hinsert : store.insertSession (newSession transaction.userId deviceId delivery.event delivery.observedAt
          delivery.draw) = .ok { store with sessions := store.sessions ++
            [newSession transaction.userId deviceId delivery.event delivery.observedAt delivery.draw] } :=
        Store.write_eq_ok.mpr ⟨rfl, Rows.free_both_iff.mpr ⟨hfresh, Rows.find_none hnone⟩, hmissing, rfl⟩
      rw [Storage.upsertSession, hnone]
      refine ⟨_, bind_eq_ok.mpr ⟨_, hinsert, rfl⟩, ?_, ?_⟩
      · rw [overlay_new hfree]
        exact htwin.sessions.append_right _
      · exact List.mem_map_of_mem (List.mem_append_right _ (List.mem_singleton_self _))
    · cases hrow

theorem newEvent_kept (hkept : Kept delivery.event.observedAt) (userId deviceId sessionPk : Uuid) :
    newEvent userId deviceId sessionPk delivery =
      Storage.newEvent userId deviceId sessionPk delivery.event delivery.draw := by
  unfold newEvent Delivery.observedAt
  rw [hkept]
  rfl

theorem insertEvent_twin (hidle : Idle others) {row : EventRow} {inserted : Bool}
    (hnew : row.eventId ∉ (view committed transaction).events.map EventRow.eventId)
    (hrow : insertEvent others committed transaction row = some inserted) :
    inserted = true ∧ EventRow.accepted row = true ∧ row.id ∉ (view committed transaction).events.map EventRow.id := by
  unfold insertEvent at hrow
  rw [pending_idle hidle rfl, Bool.or_false, Rows.free_iff.mpr hnew] at hrow
  split at hrow
  · cases hrow
  · next haccepted =>
    rw [if_neg Bool.false_ne_true] at hrow
    split at hrow
    · next hunused =>
      cases hrow
      obtain ⟨hcommitted, hown⟩ := unused_free hunused
      refine ⟨rfl, by simpa using haccepted, ?_⟩
      rw [view, Tables.over, List.map_append, List.mem_append]
      exact not_or.mpr ⟨hcommitted, hown⟩
    · cases hrow

theorem countable_of_accepted {userId deviceId sessionPk : Uuid} {event : IngestUsageEvent} {draw : EventDraw}
    (h : EventRow.accepted (Storage.newEvent userId deviceId sessionPk event draw) = true) : Countable event := by
  simp only [EventRow.accepted, Storage.newEvent, Bool.and_eq_true] at h
  obtain ⟨⟨⟨⟨⟨⟨-, hinput⟩, houtput⟩, hread⟩, hwrite⟩, hreasoning⟩, htotal⟩ := h
  exact ⟨of_decide_eq_true hinput, of_decide_eq_true houtput, of_decide_eq_true hread, of_decide_eq_true hwrite,
    of_decide_eq_true hreasoning, of_decide_eq_true htotal⟩

theorem not_rejected {row : AttachmentRow} (h : AttachmentRow.accepted row = true) :
    (decide (row.position < 0) || decide (row.byteSize ≤ 0) || decide (8388608 < row.byteSize) ||
      row.sha256.length != 32 || row.content.any fun content => (content.length : ℤ) != row.byteSize) = false := by
  simp only [AttachmentRow.accepted, Bool.and_eq_true, decide_eq_true_eq, beq_iff_eq] at h
  obtain ⟨⟨⟨⟨hposition, hpositive⟩, hbounded⟩, hdigest⟩, hcontent⟩ := h
  have hsizes : (row.content.any fun content => (content.length : ℤ) != row.byteSize) = false := by
    cases hrow : row.content with
    | none => rfl
    | some content =>
      rw [hrow] at hcontent
      exact congrArg Bool.not hcontent
  simp [hposition, hpositive, hbounded, hdigest, hsizes]

theorem insertAttachments_twin (hevent : delivery.draw.eventPk ∈ store.events.map EventRow.id)
    (howner : transaction.userId ∈ store.users)
    (hattachments : (view committed transaction).attachments = store.attachments)
    (hrows : insertAttachments others committed transaction (attachmentRows transaction delivery) = true) :
    Storage.insertAttachments transaction.userId delivery.draw.eventPk delivery.attachments delivery.draw store =
      .ok { store with attachments := store.attachments ++ attachmentRows transaction delivery } := by
  simp only [insertAttachments, Bool.and_eq_true, List.all_eq_true, decide_eq_true_eq] at hrows
  obtain ⟨⟨⟨haccepted, hids⟩, hplaces⟩, hunused⟩ := hrows
  have hfree : ∀ row ∈ attachmentRows transaction delivery, row.id ∉ store.attachments.map AttachmentRow.id ∧
      row.place ∉ store.attachments.map AttachmentRow.place := by
    intro row hrow
    rw [← Rows.free_both_iff, List.any_eq_false]
    intro other hother
    rw [← hattachments, view, Tables.over, List.mem_append] at hother
    exact Bool.eq_false_iff.mp (hother.elim (unused_iff.mp (hunused row hrow) committed (by simp) other)
      (unused_iff.mp (hunused row hrow) transaction.own (by simp) other))
  let made (indexed : ValidatedImageAttachment × ℕ) : AttachmentRow :=
    newAttachment transaction.userId delivery.draw.eventPk indexed.1 delivery.draw indexed.2
  have hmade : attachmentRows transaction delivery = delivery.attachments.zipIdx.map made := rfl
  suffices hrun : ∃ after, Storage.insertAttachments transaction.userId delivery.draw.eventPk delivery.attachments
      delivery.draw store = .ok after ∧
        after = { store with attachments := store.attachments ++ delivery.attachments.zipIdx.map made } by
    obtain ⟨after, hok, rfl⟩ := hrun
    exact hok
  refine foldlM_total (P := fun (done : List (ValidatedImageAttachment × ℕ)) (after : Store) =>
    after = { store with attachments := store.attachments ++ done.map made }) ?_ ?_
  · simp
  · rintro done ⟨attachment, index⟩ rest before hsplit rfl
    rw [hmade, ← hsplit, List.map_append, List.map_cons] at haccepted hids hplaces hfree
    have hmem : made (attachment, index) ∈ done.map made ++ made (attachment, index) :: rest.map made :=
      List.mem_append_right _ List.mem_cons_self
    obtain ⟨hid, hplace⟩ := hfree _ hmem
    have hmissing : (!store.hasUser transaction.userId || !store.hasEvent delivery.draw.eventPk) = false := by
      simp [hasUser_iff.mpr howner, hasEvent_iff.mpr hevent]
    refine ⟨_, Store.write_eq_ok.mpr ⟨not_rejected (haccepted _ hmem), Rows.free_both_iff.mpr ⟨?_, ?_⟩, hmissing, rfl⟩,
      by simp; rfl⟩
    · rw [List.map_append, List.mem_append]
      exact not_or.mpr ⟨hid, Rows.nodup_before hids⟩
    · rw [List.map_append, List.mem_append]
      exact not_or.mpr ⟨hplace, Rows.nodup_before hplaces⟩

theorem upsert_known {titles titles' : List SessionTitle} (hperm : titles.Perm titles')
    (hkeys : (titles.map SessionTitle.sessionPk).Nodup) {row existing : SessionTitle} (hmem : existing ∈ titles)
    (hpk : existing.sessionPk = row.sessionPk) :
    (overlay SessionTitle.sessionPk [row.set existing] titles).Perm (row.upsert titles') := by
  have hknown : (titles'.any fun other => other.sessionPk == row.sessionPk) = true :=
    Rows.any_key.mpr (List.mem_map.mpr ⟨existing, hperm.mem_iff.mp hmem, hpk⟩)
  rw [SessionTitle.upsert, if_pos hknown, ← hpk]
  exact overlay_update hperm hkeys hmem rfl rfl

theorem upsert_new {titles titles' : List SessionTitle} (hperm : titles.Perm titles') {row : SessionTitle}
    (hfree : row.sessionPk ∉ titles.map SessionTitle.sessionPk) :
    (overlay SessionTitle.sessionPk [row] titles).Perm (row.upsert titles') := by
  have hunknown : (titles'.any fun other => other.sessionPk == row.sessionPk) = false :=
    Rows.free_iff.mpr (mt (hperm.map SessionTitle.sessionPk).mem_iff.mpr hfree)
  rw [SessionTitle.upsert, hunknown, if_neg Bool.false_ne_true, overlay_new hfree]
  exact hperm.append_right _

theorem captureTitle_twin {sessionPk : Uuid} {title : Option SessionTitle}
    (htitle : captureTitle others committed transaction sessionPk delivery = some title) (hidle : Idle others)
    (htwin : Twin (view committed transaction) store) (hkeys : (store.sessionTitles.map SessionTitle.sessionPk).Nodup)
    (howner : transaction.userId ∈ store.users) (hsession : sessionPk ∈ store.sessions.map SessionRow.id)
    (hevent : delivery.draw.eventPk ∈ store.events.map EventRow.id) :
    ∃ changed titles, Storage.capture transaction.userId sessionPk delivery.draw.eventPk delivery.event.eventType.asStr
        delivery.observedAt transaction.begunAt store = .ok (changed, { store with sessionTitles := titles }) ∧
      (overlay SessionTitle.sessionPk title.toList (view committed transaction).sessionTitles).Perm titles := by
  have hkeys' := (htwin.sessionTitles.map SessionTitle.sessionPk).nodup_iff.mpr hkeys
  have hstored : storedTitle sessionPk (view committed transaction).sessionTitles =
      storedTitle sessionPk store.sessionTitles := by
    unfold storedTitle
    rw [Rows.find_perm htwin.sessionTitles hkeys']
  have hmissing : (!store.hasSession sessionPk || !store.hasUser transaction.userId ||
      (some delivery.draw.eventPk).any fun eventPk => !store.hasEvent eventPk) = false := by
    simp [hasSession_iff.mpr hsession, hasUser_iff.mpr howner, hasEvent_iff.mpr hevent]
  unfold captureTitle at htitle
  unfold Storage.capture
  dsimp only at htitle
  rw [pending_idle hidle rfl, if_neg Bool.false_ne_true, hstored, Rows.find_perm htwin.sessionTitles hkeys'] at htitle
  cases htype : delivery.event.eventType with
  | response =>
    rw [if_pos (by rw [htype]; exact UsageEventType.noConfusion)] at htitle
    cases htitle
    exact ⟨_, _, if_pos (by decide), by simpa [overlay] using htwin.sessionTitles⟩
  | request =>
    rw [if_neg (not_not.mpr htype)] at htitle
    rw [if_neg (by decide)]
    split at htitle
    · next hlater =>
      cases htitle
      rw [if_pos hlater]
      exact ⟨_, _, rfl, by simpa [overlay] using htwin.sessionTitles⟩
    · next hearlier =>
      rw [if_neg hearlier]
      refine ⟨_, _, bind_eq_ok.mpr ⟨_, Store.write_eq_ok.mpr ⟨rfl, rfl, hmissing, rfl⟩, rfl⟩, ?_⟩
      split at htitle
      · next existing hfound =>
        cases htitle
        obtain ⟨hmem, hpk⟩ := Rows.find_mem hfound
        exact upsert_known htwin.sessionTitles hkeys' (htwin.sessionTitles.mem_iff.mpr hmem) hpk
      · next hnone =>
        cases htitle
        exact upsert_new htwin.sessionTitles
          (mt (htwin.sessionTitles.map SessionTitle.sessionPk).mem_iff.mp (Rows.find_none hnone))

end Statements

section Views

variable {own committed : Tables} {store : Store}

theorem Twin.withDevices (h : Twin (own.over committed) store) {row : DeviceRow} {devices : List DeviceRow}
    (hperm : (overlay DeviceRow.id [row] (own.over committed).devices).Perm devices) :
    Twin (({ own with devices := overlay DeviceRow.id [row] own.devices } : Tables).over committed)
      { store with devices } :=
  { h with devices := (List.Perm.of_eq overlay_overlay).trans hperm }

theorem Twin.withSessions (h : Twin (own.over committed) store) {row : SessionRow} {sessions : List SessionRow}
    (hperm : (overlay SessionRow.id [row] (own.over committed).sessions).Perm sessions) :
    Twin (({ own with sessions := overlay SessionRow.id [row] own.sessions } : Tables).over committed)
      { store with sessions } :=
  { h with sessions := (List.Perm.of_eq overlay_overlay).trans hperm }

theorem Twin.withTitles (h : Twin (own.over committed) store) {new titles : List SessionTitle}
    (hperm : (overlay SessionTitle.sessionPk new (own.over committed).sessionTitles).Perm titles) :
    Twin (({ own with sessionTitles := overlay SessionTitle.sessionPk new own.sessionTitles } : Tables).over committed)
      { store with sessionTitles := titles } :=
  { h with sessionTitles := (List.Perm.of_eq overlay_overlay).trans hperm }

theorem Twin.withEvents (h : Twin (own.over committed) store) (more : List EventRow) :
    Twin (({ own with events := own.events ++ more } : Tables).over committed)
      { store with events := store.events ++ more } :=
  { h with events := by rw [← h.events]; exact (List.append_assoc ..).symm }

theorem Twin.withFacts (h : Twin (own.over committed) store) (more : List StreamFactsRow) :
    Twin (({ own with streamFacts := own.streamFacts ++ more } : Tables).over committed)
      { store with streamFacts := store.streamFacts ++ more } :=
  { h with streamFacts := by rw [← h.streamFacts]; exact (List.append_assoc ..).symm }

theorem Twin.withAttachments (h : Twin (own.over committed) store) (more : List AttachmentRow) :
    Twin (({ own with attachments := own.attachments ++ more } : Tables).over committed)
      { store with attachments := store.attachments ++ more } :=
  { h with attachments := by rw [← h.attachments]; exact (List.append_assoc ..).symm }

theorem Twin.withCaptures (h : Twin (own.over committed) store) (more : List DiagnosticCapture) :
    Twin (({ own with captures := own.captures ++ more } : Tables).over committed)
      { store with captures := store.captures ++ more } :=
  { h with captures := by rw [← h.captures]; exact (List.append_assoc ..).symm }

theorem Twin.withCaptureEvents (h : Twin (own.over committed) store) (more : List DiagnosticCaptureEvent) :
    Twin (({ own with captureEvents := own.captureEvents ++ more } : Tables).over committed)
      { store with captureEvents := store.captureEvents ++ more } :=
  { h with captureEvents := by rw [← h.captureEvents]; exact (List.append_assoc ..).symm }

theorem Twin.withIndex [CaseMapping] {tables : Tables} (h : Twin tables store) (new : List SearchText) (refs : List SearchRef) :
    Twin tables { store.withTexts new with searchRefs := store.searchRefs ++ refs } :=
  { h with }

end Views

section Events

variable [Sha256] {others : List Tables} {committed : Tables} {transaction after : Transaction}
  {counted : List (IngestDiagnosticCapture × Bool)} {store : Store} {delivery : Delivery} {rest : List Statement}

theorem Transaction.Runs.next {statement : Statement} (h : transaction.Runs others committed counted after)
    (htodo : transaction.todo = statement :: rest) (hdone : after.todo = []) (hevent : statement.ofCapture = false) :
    ∃ middle : Transaction, execute others committed { transaction with todo := rest } statement = some middle ∧
      middle.Runs others committed counted after := by
  obtain ⟨middle, later, hexecute, rfl, hruns⟩ := h.first htodo hdone
  rw [counts_event hevent, List.nil_append]
  exact ⟨middle, hexecute, hruns⟩

/-- An event without attachments writes none. -/
theorem Transaction.Runs.attachments (h : transaction.Runs others committed counted after) (hdone : after.todo = [])
    (htodo : transaction.todo = (if delivery.attachments.isEmpty then [] else [.insertAttachments delivery]) ++ rest)
    (howner : transaction.userId ∈ store.users) (hevent : delivery.draw.eventPk ∈ store.events.map EventRow.id)
    (hattachments : (view committed transaction).attachments = store.attachments) :
    ∃ middle : Transaction, middle.Runs others committed counted after ∧ middle.todo = rest ∧
      middle.userId = transaction.userId ∧ middle.begunAt = transaction.begunAt ∧
      middle.own = { transaction.own with
        attachments := transaction.own.attachments ++ attachmentRows transaction delivery } ∧
      Storage.insertAttachments transaction.userId delivery.draw.eventPk delivery.attachments delivery.draw store =
        .ok { store with attachments := store.attachments ++ attachmentRows transaction delivery } := by
  cases hempty : delivery.attachments with
  | nil =>
    rw [hempty] at htodo
    have hrows : attachmentRows transaction delivery = [] := by simp [attachmentRows, hempty]
    refine ⟨transaction, h, htodo, rfl, rfl, ?_, ?_⟩
    · rw [hrows, List.append_nil]
    · rw [hrows, List.append_nil]
      rfl
  | cons first more =>
    rw [hempty] at htodo
    obtain ⟨middle, hexecute, hruns⟩ := h.next htodo hdone rfl
    simp only [execute] at hexecute
    split at hexecute
    · next hrows =>
      cases hexecute
      rw [← hempty]
      exact ⟨_, hruns, rfl, rfl, rfl, rfl, insertAttachments_twin hevent howner hattachments hrows⟩
    · cases hexecute

/-- The upserts of a new event. -/
theorem Transaction.Runs.upserts (h : transaction.Runs others committed counted after) (hdone : after.todo = [])
    (htodo : transaction.todo = .upsertDevice delivery :: rest) (hidle : Idle others) (hhierarchy : Hierarchy store)
    (htwin : Twin (view committed transaction) store) (howner : transaction.userId ∈ store.users) :
    ∃ (middle : Transaction) (deviceId sessionPk : Uuid) (devices : List DeviceRow) (sessions : List SessionRow),
      middle.Runs others committed counted after ∧ middle.todo = .insertEvent deviceId sessionPk delivery :: rest ∧
      middle.userId = transaction.userId ∧ middle.begunAt = transaction.begunAt ∧
      Storage.upsertDevice transaction.userId delivery.event delivery.observedAt delivery.draw store =
        .ok (deviceId, { store with devices }) ∧
      Storage.upsertSession transaction.userId deviceId delivery.event delivery.observedAt delivery.draw
        { store with devices } = .ok (sessionPk, { store with devices, sessions }) ∧
      deviceId ∈ devices.map DeviceRow.id ∧ sessionPk ∈ sessions.map SessionRow.id ∧
      Twin (view committed middle) { store with devices, sessions } := by
  obtain ⟨_, hdevice, hruns⟩ := h.next htodo hdone rfl
  obtain ⟨device, hdeviceRow, rfl⟩ := Option.map_eq_some_iff.mp hdevice
  obtain ⟨devices, hstoredDevice, hdevices, hdeviceId⟩ := upsertDevice_twin hdeviceRow hidle htwin hhierarchy howner
  have htwin := htwin.withDevices hdevices
  obtain ⟨_, hsession, hruns⟩ := hruns.next rfl hdone rfl
  obtain ⟨session, hsessionRow, rfl⟩ := Option.map_eq_some_iff.mp hsession
  obtain ⟨sessions, hstoredSession, hsessions, hsessionPk⟩ := upsertSession_twin hsessionRow hidle htwin
    hhierarchy.sessionIds hhierarchy.sessionKeys howner hdeviceId
  exact ⟨_, device.id, session.id, devices, sessions, hruns, rfl, rfl, rfl, hstoredDevice, hstoredSession, hdeviceId,
    hsessionPk, htwin.withSessions hsessions⟩

variable [CaseMapping]

/-- The draw with which SQLite titles a session at the time PostgreSQL does. -/
def EventDraw.titled (draw : EventDraw) (titledAt : ℤ) : EventDraw := { draw with titledAt }

/-- What is written under an event that is there. -/
theorem Transaction.Runs.children {sessionPk : Uuid} (h : transaction.Runs others committed counted after)
    (hdone : after.todo = []) (htodo : transaction.todo =
      (if delivery.attachments.isEmpty then [] else [.insertAttachments delivery]) ++
        ([.insertStreamFacts delivery, .insertOutboxTask delivery, .captureTitle sessionPk delivery] ++ rest))
    (hidle : Idle others) (htwin : Twin (view committed transaction) store) (howner : transaction.userId ∈ store.users)
    (hsession : sessionPk ∈ store.sessions.map SessionRow.id)
    (hevent : delivery.draw.eventPk ∈ store.events.map EventRow.id) (hchildless : Childless delivery.draw.eventPk store)
    (hindexed : Indexed store.searchTexts store.searchTextsTrigram)
    (hplaces : (store.searchRefs.map SearchRef.place).Nodup)
    (hkeys : (store.sessionTitles.map SessionTitle.sessionPk).Nodup) (hindexable : Indexable delivery.event) :
    ∃ (middle : Transaction) (withFacts withAttachments withIndex stored : Store) (changed : Bool),
      middle.Runs others committed counted after ∧ middle.todo = rest ∧ middle.userId = transaction.userId ∧
      middle.begunAt = transaction.begunAt ∧
      insertStreamFacts delivery.draw.eventPk delivery.event store = .ok withFacts ∧
      Storage.insertAttachments transaction.userId delivery.draw.eventPk delivery.attachments delivery.draw withFacts =
        .ok withAttachments ∧
      indexEvent transaction.userId delivery.draw.eventPk delivery.event.conversation withAttachments =
        .ok withIndex ∧
      Storage.capture transaction.userId sessionPk delivery.draw.eventPk delivery.event.eventType.asStr
        delivery.observedAt transaction.begunAt withIndex = .ok (changed, stored) ∧
      Twin (view committed middle) stored := by
  obtain ⟨withFacts, hfacts⟩ : ∃ after, insertStreamFacts delivery.draw.eventPk delivery.event store = .ok after :=
    insertFacts_total hevent hchildless.facts
  obtain ⟨-, rfl⟩ := insertFacts_spec hfacts
  obtain ⟨attached, hruns, htodo, huser, hbegun, hown, hattachments⟩ := h.attachments hdone htodo
    (show transaction.userId ∈ ({ store with
      streamFacts := store.streamFacts ++ [newFacts delivery.draw.eventPk delivery.event] } : Store).users from howner)
    hevent htwin.attachments
  have htwin := htwin.withAttachments (attachmentRows transaction delivery)
  rw [← hown] at htwin
  obtain ⟨_, hfactsRow, hruns⟩ := hruns.next htodo hdone rfl
  simp only [execute] at hfactsRow
  split at hfactsRow
  · cases hfactsRow
    have htwin := htwin.withFacts [newFacts delivery.draw.eventPk delivery.event]
    obtain ⟨_, htask, hruns⟩ := hruns.next rfl hdone rfl
    simp only [execute] at htask
    split at htask
    · cases htask
      obtain ⟨withIndex, hindex⟩ : ∃ after, indexEvent transaction.userId delivery.draw.eventPk
          delivery.event.conversation { store with
            streamFacts := store.streamFacts ++ [newFacts delivery.draw.eventPk delivery.event]
            attachments := store.attachments ++ attachmentRows transaction delivery } = .ok after :=
        indexEvent_total hindexed hplaces hchildless.refs hindexable
      obtain ⟨texts, refs, rfl, -⟩ := indexEvent_spec hindex hindexed hplaces
      obtain ⟨_, htitled, hruns⟩ := hruns.next rfl hdone rfl
      obtain ⟨title, htitle, rfl⟩ := Option.map_eq_some_iff.mp htitled
      have htwin := htwin.withIndex texts refs
      obtain ⟨changed, titles, hcapture, htitles⟩ := captureTitle_twin htitle hidle { htwin with } hkeys
        (huser.symm ▸ howner) hsession hevent
      simp only [huser, hbegun] at hcapture
      refine ⟨_, _, _, _, _, changed, hruns, rfl, huser, hbegun, hfacts, hattachments, hindex, hcapture, ?_⟩
      exact { htwin.withTitles htitles with }
    · cases htask
  · cases hfactsRow

/-- SQLite ingests an event as PostgreSQL does. -/
theorem Transaction.Runs.ingestOneEvent (h : transaction.Runs others committed counted after) (hdone : after.todo = [])
    (htodo : transaction.todo = .selectEvent delivery :: rest) (hidle : Idle others) (hsound : Sound store)
    (htwin : Twin (view committed transaction) store) (howner : transaction.userId ∈ store.users)
    (hkept : Kept delivery.event.observedAt) (hindexable : Indexable delivery.event) :
    ∃ (middle : Transaction) (new : Bool) (stored : Store), middle.Runs others committed counted after ∧
      middle.todo = rest ∧ middle.userId = transaction.userId ∧ middle.begunAt = transaction.begunAt ∧
      Storage.ingestOneEvent transaction.userId delivery.event delivery.attachments
        (EventDraw.titled delivery.draw transaction.begunAt) store = .ok (new, stored) ∧
      Twin (view committed middle) stored := by
  obtain ⟨_, hselect, hruns⟩ := h.next htodo hdone rfl
  simp only [execute] at hselect
  split at hselect
  · next hknown =>
    cases hselect
    refine ⟨_, false, store, hruns, rfl, rfl, rfl, ?_, htwin⟩
    rw [Storage.ingestOneEvent, if_pos]
    rw [← htwin.events]
    exact hknown
  · next hunknown =>
    cases hselect
    have hnew : delivery.event.eventId ∉ store.events.map EventRow.eventId :=
      htwin.events ▸ Rows.free_iff.mp (Bool.eq_false_iff.mpr hunknown)
    obtain ⟨upserted, deviceId, sessionPk, devices, sessions, hruns, htodo, huser, hbegun, hdevice, hsession, hdeviceId,
      hsessionPk, htwin⟩ := hruns.upserts hdone rfl hidle hsound.hierarchy htwin howner
    obtain ⟨_, hinsert, hruns⟩ := hruns.next htodo hdone rfl
    obtain ⟨inserted, hinserted, hmiddle⟩ := Option.map_eq_some_iff.mp hinsert
    rw [newEvent_kept hkept] at hinserted hmiddle
    obtain ⟨rfl, haccepted, hfree⟩ := insertEvent_twin hidle (htwin.events.symm ▸ hnew) hinserted
    simp only [if_true, huser, hbegun] at hmiddle
    subst hmiddle
    have hpk : delivery.draw.eventPk ∉ store.events.map EventRow.id := htwin.events ▸ hfree
    let row := Storage.newEvent transaction.userId deviceId sessionPk delivery.event delivery.draw
    have hstored : Store.insertEvent { store with devices, sessions } row = .ok (1, { store with
        devices, sessions, events := store.events ++ [row] }) :=
      insertEvent_total (countable_of_accepted haccepted) howner hdeviceId hsessionPk hnew hpk
    have htwin : Twin (({ upserted.own with events := upserted.own.events ++ [row] } : Tables).over committed)
        { store with devices, sessions, events := store.events ++ [row] } := htwin.withEvents [row]
    have hevent : delivery.draw.eventPk ∈ (store.events ++ [row]).map EventRow.id :=
      List.mem_map_of_mem (List.mem_append_right _ (List.mem_singleton_self _))
    obtain ⟨middle, withFacts, withAttachments, withIndex, stored, changed, hruns, htodo, hmiddleUser, hmiddleBegun,
      hfacts, hattachments, hindex, htitle, htwin⟩ := hruns.children hdone (List.append_assoc ..) hidle htwin
        howner hsessionPk hevent { hsound.childless hpk with } hsound.index.indexed hsound.index.places
        hsound.titles.sessions hindexable
    refine ⟨middle, true, stored, hruns, htodo, hmiddleUser, hmiddleBegun, ?_, htwin⟩
    have hobserved : delivery.observedAt = timestampToMicros delivery.event.observedAt := hkept
    rw [hobserved] at hdevice hsession htitle
    rw [Storage.ingestOneEvent, if_neg (Bool.eq_false_iff.mp (Rows.free_iff.mpr hnew))]
    refine bind_eq_ok.mpr ⟨_, hdevice, bind_eq_ok.mpr ⟨_, hsession, bind_eq_ok.mpr ⟨_, hstored, ?_⟩⟩⟩
    simp only [ne_eq, not_true_eq_false, if_false]
    refine bind_eq_ok.mpr ⟨_, hfacts, bind_eq_ok.mpr ⟨_, hattachments, bind_eq_ok.mpr ⟨_, hindex, ?_⟩⟩⟩
    exact bind_eq_ok.mpr ⟨_, htitle, rfl⟩

end Events

section Captures

variable [Sha256] {others : List Tables} {committed : Tables} {transaction after : Transaction}
  {counted : List (IngestDiagnosticCapture × Bool)} {store : Store} {rest : List Statement}
  {capture : IngestDiagnosticCapture} {draw : CaptureDraw}

omit [Sha256] in
theorem newCapture_kept (hkept : Kept capture.capturedAt) (userId : Uuid) (first : EventRow) :
    newCapture userId capture draw first =
      Storage.newCapture userId first.deviceContextId first.sessionPk capture draw := by
  unfold newCapture
  rw [hkept]
  rfl

omit [Sha256] in
theorem selectCaptureEvents_twin {found : EventRow × List EventRow}
    (hevents : (view committed transaction).events = store.events)
    (hfound : selectCaptureEvents committed transaction capture = some found) :
    found.2 = store.events.filter (fun row => row.userId == transaction.userId && capture.eventIds.contains row.eventId) ∧
      found.2.length = capture.eventIds.length ∧ found.2.head? = some found.1 ∧
      (found.2.any fun row => row.deviceContextId != found.1.deviceContextId || row.sessionPk != found.1.sessionPk) =
        false := by
  unfold selectCaptureEvents at hfound
  rw [hevents] at hfound
  extract_lets events at hfound
  split at hfound
  · cases hfound
  · next hlength =>
    split at hfound
    · cases hfound
    · next first hfirst =>
      split at hfound
      · cases hfound
      · next hsame =>
        cases hfound
        refine ⟨rfl, not_not.mp hlength, hfirst, ?_⟩
        rw [← Bool.eq_false_iff.mpr hsame]
        simp only [Bool.or_comm]

omit [Sha256] in
theorem insertCapture_twin {row : DiagnosticCapture} {new : Bool}
    (hrow : insertCapture others committed transaction row = some new) (hidle : Idle others)
    (hcaptures : (view committed transaction).captures = store.captures)
    (hid : row.id ∉ store.captures.map DiagnosticCapture.id) (howner : row.userId ∈ store.users)
    (hdevice : row.deviceContextId ∈ store.devices.map DeviceRow.id)
    (hsession : row.sessionPk ∈ store.sessions.map SessionRow.id) :
    store.insertCapture row =
      .ok (if new then (1, { store with captures := store.captures ++ [row] }) else (0, store)) := by
  have hmissing : (!store.hasUser row.userId || !store.hasDevice row.deviceContextId ||
      !store.hasSession row.sessionPk) = false := by
    rw [hasUser_iff.mpr howner, hasDevice_iff.mpr hdevice, hasSession_iff.mpr hsession]
    rfl
  unfold insertCapture at hrow
  rw [pending_idle hidle rfl, if_neg Bool.false_ne_true, hcaptures] at hrow
  unfold Store.insertCapture
  rw [if_neg (Bool.eq_false_iff.mp (Rows.free_iff.mpr hid))]
  split at hrow
  · next hknown =>
    cases hrow
    exact if_pos hknown
  · next hfree =>
    split at hrow <;> cases hrow
    rw [if_neg hfree]
    exact bind_eq_ok.mpr ⟨_, Store.write_eq_ok.mpr ⟨rfl, rfl, hmissing, rfl⟩, rfl⟩

omit [Sha256] in
theorem counts_insertCapture {first : EventRow} {events : List EventRow} {new : Bool}
    (h : insertCapture others committed transaction (newCapture transaction.userId capture draw first) = some new) :
    counts others committed transaction (.insertCapture capture draw first events) = [(capture, new)] := by
  rw [counts, h]
  rfl

/-- SQLite ingests a capture as PostgreSQL does, if the key that it draws for it is new. -/
theorem Transaction.Runs.ingestOneDiagnosticCapture (h : transaction.Runs others committed counted after)
    (hdone : after.todo = []) (htodo : transaction.todo = .selectCaptureEvents capture draw :: rest)
    (hidle : Idle others) (hhierarchy : Hierarchy store) (htwin : Twin (view committed transaction) store)
    (howner : transaction.userId ∈ store.users) (hkept : Kept capture.capturedAt)
    (hcapture : draw.capturePk ∉ store.captures.map DiagnosticCapture.id)
    (hlinks : draw.capturePk ∉ store.captureEvents.map DiagnosticCaptureEvent.capturePk) :
    ∃ (middle : Transaction) (new : Bool) (later : List (IngestDiagnosticCapture × Bool)) (stored : Store),
      counted = (capture, new) :: later ∧ middle.Runs others committed later after ∧ middle.todo = rest ∧
      middle.userId = transaction.userId ∧
      Storage.ingestOneDiagnosticCapture transaction.userId capture draw store = .ok (new, stored) ∧
      Twin (view committed middle) stored := by
  obtain ⟨_, remaining, hselect, rfl, hruns⟩ := h.first htodo hdone
  obtain ⟨found, hfound, rfl⟩ := Option.map_eq_some_iff.mp hselect
  obtain ⟨hevents, hlength, hfirst, hsame⟩ := selectCaptureEvents_twin htwin.events hfound
  obtain ⟨first, events⟩ := found
  dsimp only at hevents hlength hfirst hsame
  obtain ⟨_, later, hinsert, rfl, hruns⟩ := hruns.first rfl hdone
  obtain ⟨new, hnew, hmiddle⟩ := Option.map_eq_some_iff.mp hinsert
  have hrow : first ∈ store.events := (List.mem_filter.mp (hevents ▸ List.mem_of_head? hfirst)).1
  obtain ⟨device, hdevice, hon⟩ := hhierarchy.devices first hrow
  obtain ⟨session, hsession, hof⟩ := hhierarchy.sessions first hrow
  rw [counts_insertCapture hnew]
  rw [newCapture_kept hkept] at hnew hmiddle
  have hstored := insertCapture_twin hnew hidle htwin.captures hcapture howner
    (List.mem_map.mpr ⟨device, hdevice, hon.id⟩) (List.mem_map.mpr ⟨session, hsession, hof.id⟩)
  unfold Storage.ingestOneDiagnosticCapture
  rw [← hevents, if_neg (not_not.mpr hlength), hfirst]
  dsimp only
  rw [hsame, if_neg Bool.false_ne_true]
  cases new with
  | true =>
    rw [if_pos rfl] at hmiddle
    subst hmiddle
    obtain ⟨_, _, hlink, rfl, hruns⟩ := hruns.first rfl hdone
    simp only [execute] at hlink
    split at hlink
    · cases hlink
      let row := Storage.newCapture transaction.userId first.deviceContextId first.sessionPk capture draw
      obtain ⟨stored, hlinked⟩ : ∃ stored, events.foldlM (fun (store : Store) event =>
          store.insertCaptureEvent ⟨draw.capturePk, event.id⟩) { store with captures := store.captures ++ [row] } =
            .ok stored := by
        refine insertCaptureEvents_total ?_ (fun event hevent => ?_) ?_ hlinks
        · exact List.mem_map_of_mem (List.mem_append_right _ (List.mem_singleton_self row))
        · exact List.mem_map_of_mem (List.mem_filter.mp (hevents ▸ hevent)).1
        · rw [hevents]
          exact hhierarchy.eventPks.sublist (List.filter_sublist.map _)
      obtain rfl := Storage.insertCaptureEvents_spec hlinked
      refine ⟨_, true, later, _, rfl, hruns, rfl, rfl,
        bind_eq_ok.mpr ⟨_, hstored, bind_eq_ok.mpr ⟨_, hlinked, rfl⟩⟩, ?_⟩
      exact (htwin.withCaptures [row]).withCaptureEvents _
    · cases hlink
  | false =>
    rw [if_neg Bool.false_ne_true] at hmiddle
    subst hmiddle
    exact ⟨_, false, later, store, rfl, hruns, rfl, rfl, bind_eq_ok.mpr ⟨_, hstored, rfl⟩, htwin⟩

end Captures

end AbyssBackend.Postgres
