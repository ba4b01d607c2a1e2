import AbyssBackend.Postgres.Spans

namespace AbyssBackend.Postgres

open Drafts Storage Streams Text

section Statements

variable [Sha256] {others : List Tables} {committed : Tables} {before transaction after : Transaction}
  {statement : Statement}

/-- All that a statement can do. -/
inductive Execution (others : List Tables) (committed : Tables) (before : Transaction) : Statement → Transaction → Prop
  | known (delivery : Delivery) : Execution others committed before (.selectEvent delivery) before
  | selected (delivery : Delivery) : Execution others committed before (.selectEvent delivery)
      { before with todo := .upsertDevice delivery :: before.todo }
  | device (delivery : Delivery) (row : DeviceRow) (hrow : upsertDevice others committed before delivery = some row) :
      Execution others committed before (.upsertDevice delivery) { before with
        own.devices := overlay DeviceRow.id [row] before.own.devices
        todo := .upsertSession row.id delivery :: before.todo
        deviceTimes := before.deviceTimes ++ [(row.id, delivery.observedAt)] }
  | session (deviceId : Uuid) (delivery : Delivery) (row : SessionRow)
      (hrow : upsertSession others committed before deviceId delivery = some row) :
      Execution others committed before (.upsertSession deviceId delivery) { before with
        own.sessions := overlay SessionRow.id [row] before.own.sessions
        todo := .insertEvent deviceId row.id delivery :: before.todo
        sessionTimes := before.sessionTimes ++ [(row.id, delivery.observedAt)] }
  | inserted (deviceId sessionPk : Uuid) (delivery : Delivery)
      (hrow : insertEvent others committed before (newEvent before.userId deviceId sessionPk delivery) = some true) :
      Execution others committed before (.insertEvent deviceId sessionPk delivery) { before with
        own.events := before.own.events ++ [newEvent before.userId deviceId sessionPk delivery]
        todo := (if delivery.attachments.isEmpty then [] else [.insertAttachments delivery]) ++
          [.insertStreamFacts delivery, .insertOutboxTask delivery, .captureTitle sessionPk delivery] ++ before.todo }
  | skipped (deviceId sessionPk : Uuid) (delivery : Delivery) :
      Execution others committed before (.insertEvent deviceId sessionPk delivery) before
  | attachments (delivery : Delivery)
      (hrows : insertAttachments others committed before (attachmentRows before delivery) = true) :
      Execution others committed before (.insertAttachments delivery) { before with
        own.attachments := before.own.attachments ++ attachmentRows before delivery }
  | facts (delivery : Delivery) (hunused : unused others committed before.own Tables.streamFacts
        (fun row => row.eventPk == delivery.draw.eventPk) = true) :
      Execution others committed before (.insertStreamFacts delivery) { before with
        own.streamFacts := before.own.streamFacts ++ [newFacts delivery.draw.eventPk delivery.event] }
  | task (delivery : Delivery) (hunused : unused others committed before.own Tables.outbox (fun row =>
        row.id == (newSearchOutboxTask before delivery).id || row.key == (newSearchOutboxTask before delivery).key) =
          true) :
      Execution others committed before (.insertOutboxTask delivery) { before with
        own.outbox := before.own.outbox ++ [newSearchOutboxTask before delivery] }
  | title (sessionPk : Uuid) (delivery : Delivery) (title : Option SessionTitle)
      (htitle : captureTitle others committed before sessionPk delivery = some title) :
      Execution others committed before (.captureTitle sessionPk delivery) { before with
        own.sessionTitles := overlay SessionTitle.sessionPk title.toList before.own.sessionTitles }
  | captured (capture : IngestDiagnosticCapture) (draw : CaptureDraw) (found : EventRow × List EventRow)
      (hfound : selectCaptureEvents committed before capture = some found) :
      Execution others committed before (.selectCaptureEvents capture draw) { before with
        todo := .insertCapture capture draw found.1 found.2 :: before.todo }
  | capture (capture : IngestDiagnosticCapture) (draw : CaptureDraw) (first : EventRow) (events : List EventRow)
      (hrow : insertCapture others committed before (newCapture before.userId capture draw first) = some true) :
      Execution others committed before (.insertCapture capture draw first events) { before with
        own.captures := before.own.captures ++ [newCapture before.userId capture draw first]
        todo := .insertCaptureEvents draw events :: before.todo }
  | repeated (capture : IngestDiagnosticCapture) (draw : CaptureDraw) (first : EventRow) (events : List EventRow) :
      Execution others committed before (.insertCapture capture draw first events) before
  | links (draw : CaptureDraw) (events : List EventRow)
      (hnodup : (events.map fun row => DiagnosticCaptureEvent.mk draw.capturePk row.id).Nodup)
      (hunused : ∀ link ∈ events.map fun row => DiagnosticCaptureEvent.mk draw.capturePk row.id,
        unused others committed before.own Tables.captureEvents (fun other => other == link) = true) :
      Execution others committed before (.insertCaptureEvents draw events) { before with
        own.captureEvents := before.own.captureEvents ++ events.map fun row => ⟨draw.capturePk, row.id⟩ }

theorem execution (h : execute others committed transaction statement = some after) :
    Execution others committed transaction statement after := by
  cases statement with
  | selectEvent delivery =>
    simp only [execute] at h
    split at h <;> cases h
    · exact .known delivery
    · exact .selected delivery
  | upsertDevice delivery =>
    obtain ⟨row, hrow, rfl⟩ := Option.map_eq_some_iff.mp h
    exact .device delivery row hrow
  | upsertSession deviceId delivery =>
    obtain ⟨row, hrow, rfl⟩ := Option.map_eq_some_iff.mp h
    exact .session deviceId delivery row hrow
  | insertEvent deviceId sessionPk delivery =>
    obtain ⟨inserted, hrow, rfl⟩ := Option.map_eq_some_iff.mp h
    cases inserted with
    | true => exact .inserted deviceId sessionPk delivery hrow
    | false => exact .skipped deviceId sessionPk delivery
  | insertAttachments delivery =>
    simp only [execute] at h
    split at h <;> cases h
    exact .attachments delivery ‹_›
  | insertStreamFacts delivery =>
    simp only [execute] at h
    split at h <;> cases h
    exact .facts delivery ‹_›
  | insertOutboxTask delivery =>
    simp only [execute] at h
    split at h <;> cases h
    exact .task delivery ‹_›
  | captureTitle sessionPk delivery =>
    obtain ⟨title, htitle, rfl⟩ := Option.map_eq_some_iff.mp h
    exact .title sessionPk delivery title htitle
  | selectCaptureEvents capture draw =>
    obtain ⟨found, hfound, rfl⟩ := Option.map_eq_some_iff.mp h
    exact .captured capture draw found hfound
  | insertCapture capture draw first events =>
    obtain ⟨inserted, hrow, rfl⟩ := Option.map_eq_some_iff.mp h
    cases inserted with
    | true => exact .capture capture draw first events hrow
    | false => exact .repeated capture draw first events
  | insertCaptureEvents draw events =>
    simp only [execute] at h
    split at h
    · next hnew =>
      cases h
      obtain ⟨hnodup, hunused⟩ := Bool.and_eq_true_iff.mp hnew
      exact .links draw events (of_decide_eq_true hnodup) (List.all_eq_true.mp hunused)
    · cases h

omit [Sha256] in
theorem mem_tables {own tables : Tables} : tables ∈ own :: committed :: others ↔
    tables = own ∨ tables = committed ∨ tables ∈ others := by
  rw [List.mem_cons, List.mem_cons]

omit [Sha256] in
/-- An event that is inserted is told apart from all others, whoever has written them. -/
theorem insertEvent_new {row : EventRow} (h : insertEvent others committed before row = some true) :
    (∀ tables ∈ before.own :: committed :: others, ∀ other ∈ tables.events, other.id ≠ row.id) ∧
      ∀ tables ∈ before.own :: committed :: others, ∀ other ∈ tables.events, other.eventId ≠ row.eventId := by
  unfold insertEvent at h
  split at h
  · cases h
  · next hpending =>
    split at h
    · cases h
    · next hknown =>
      split at h
      · next hunused =>
        rw [Bool.or_eq_true, not_or] at hpending
        refine ⟨fun tables htables other hother => ne_of_beq_false (unused_iff.mp hunused tables htables other hother),
          fun tables htables other hother hsame => ?_⟩
        obtain rfl | rfl | hothers := mem_tables.mp htables
        · exact hknown (List.any_eq_true.mpr ⟨other, List.mem_append_right _ hother, beq_iff_eq.mpr hsame⟩)
        · exact hknown (List.any_eq_true.mpr ⟨other, List.mem_append_left _ hother, beq_iff_eq.mpr hsame⟩)
        · exact ne_of_beq_false (pending_eq_false hpending.2 tables hothers other hother) hsame
      · cases h

omit [Sha256] in
theorem upsertDevice_key {delivery : Delivery} {row : DeviceRow}
    (h : upsertDevice others committed before delivery = some row) :
    row.key = (before.userId, delivery.event.device.hostName, delivery.event.device.platform) := by
  unfold upsertDevice at h
  dsimp only at h
  split at h
  · cases h
  · split at h
    · next existing hfind =>
      cases h
      exact (Rows.find_mem hfind).2
    · split at h <;> cases h
      rfl

omit [Sha256] in
theorem upsertSession_key {deviceId : Uuid} {delivery : Delivery} {row : SessionRow}
    (h : upsertSession others committed before deviceId delivery = some row) :
    row.key = (before.userId, delivery.event.agent.name, delivery.event.sessionId) ∧
      row.deviceContextId = deviceId := by
  unfold upsertSession at h
  dsimp only at h
  split at h
  · cases h
  · split at h
    · next existing hfind =>
      cases h
      exact ⟨(Rows.find_mem hfind).2, rfl⟩
    · split at h <;> cases h
      exact ⟨rfl, rfl⟩

omit [Sha256] in
/-- A row of the transaction that an upsert replaces keeps its key. -/
theorem upsertDevice_same {delivery : Delivery} {row device : DeviceRow}
    (h : upsertDevice others committed before delivery = some row)
    (hids : ((Postgres.view committed before).devices.map DeviceRow.id).Nodup) (hdevice : device ∈ before.own.devices)
    (hid : device.id = row.id) : row.key = device.key := by
  have hview : device ∈ (Postgres.view committed before).devices := mem_overlay.mpr (Or.inr hdevice)
  cases upsertDevice_spec h with
  | known existing hmem hfree =>
    rw [List.inj_on_of_nodup_map hids hview hmem hid]
    rfl
  | new hkey hfree hunused => exact absurd hid (hunused before.own List.mem_cons_self device hdevice)

omit [Sha256] in
theorem upsertSession_same {deviceId : Uuid} {delivery : Delivery} {row session : SessionRow}
    (h : upsertSession others committed before deviceId delivery = some row)
    (hids : ((Postgres.view committed before).sessions.map SessionRow.id).Nodup) (hsession : session ∈ before.own.sessions)
    (hid : session.id = row.id) : row.key = session.key := by
  have hview : session ∈ (Postgres.view committed before).sessions := mem_overlay.mpr (Or.inr hsession)
  cases upsertSession_spec h with
  | known existing hmem hfree =>
    rw [List.inj_on_of_nodup_map hids hview hmem hid]
    rfl
  | new hkey hfree hunused => exact absurd hid (hunused before.own List.mem_cons_self session hsession)

end Statements

end AbyssBackend.Postgres
