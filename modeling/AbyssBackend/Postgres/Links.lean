import AbyssBackend.Postgres.Keys
import AbyssBackend.Storage.Invariants

namespace AbyssBackend.Postgres

open Attachments Drafts Storage Streams Text

variable [Sha256]

/-- The rows refer to rows that are there, of the same owner. -/
structure Linked (tables : Tables) : Prop where
  sessionDevices : ∀ session ∈ tables.sessions, ∃ device ∈ tables.devices,
    device.id = session.deviceContextId ∧ device.userId = session.userId
  eventTypes : ∀ event ∈ tables.events, ∃ eventType : UsageEventType, event.eventType = eventType.asStr
  devices : ∀ event ∈ tables.events, ∃ device ∈ tables.devices, OnDevice event device
  sessions : ∀ event ∈ tables.events, ∃ session ∈ tables.sessions, OfSession event session
  streamFacts : ∀ row ∈ tables.streamFacts, ∃ event ∈ tables.events, FactsOf event row
  attachments : ∀ attachment ∈ tables.attachments, ∃ event ∈ tables.events,
    event.id = attachment.eventPk ∧ event.userId = attachment.userId

/-- Devices, sessions and events are kept, as far as other rows refer to them. -/
structure Extends (tables tables' : Tables) : Prop where
  devices : ∀ device ∈ tables.devices, ∃ kept ∈ tables'.devices, kept.id = device.id ∧ kept.key = device.key
  sessions : ∀ session ∈ tables.sessions, ∃ kept ∈ tables'.sessions, kept.id = session.id ∧ kept.key = session.key
  events : ∀ event ∈ tables.events, event ∈ tables'.events

/-- What a statement refers to, the statements before it have written. -/
def Statement.Placed (userId : Uuid) (own : Tables) : Statement → Prop
  | .upsertSession deviceId _ => ∃ device ∈ own.devices, device.id = deviceId ∧ device.userId = userId
  | .insertEvent deviceId sessionPk delivery =>
    (∃ device ∈ own.devices, device.id = deviceId ∧ device.userId = userId) ∧
      ∃ session ∈ own.sessions, session.id = sessionPk ∧
        session.key = (userId, delivery.event.agent.name, delivery.event.sessionId)
  | .insertAttachments delivery | .insertStreamFacts delivery =>
    ∃ deviceId sessionPk, newEvent userId deviceId sessionPk delivery ∈ own.events
  | .captureTitle sessionPk delivery => ∃ deviceId, newEvent userId deviceId sessionPk delivery ∈ own.events
  | _ => True

/-- A transaction's rows refer to each other alone, and each event's facts are written or are yet to be. -/
structure Transaction.Placed (transaction : Transaction) : Prop where
  linked : Linked transaction.own
  todo : ∀ statement ∈ transaction.todo, statement.Placed transaction.userId transaction.own
  facts : ∀ event ∈ transaction.own.events, (∃ row ∈ transaction.own.streamFacts, FactsOf event row) ∨
    ∃ delivery, .insertStreamFacts delivery ∈ transaction.todo ∧ FactsOf event (newFacts delivery.draw.eventPk delivery.event)

section Extending

variable {tables tables' own committed : Tables} {userId : Uuid} {statement : Statement}

omit [Sha256] in
theorem Extends.device (h : Extends tables tables') {deviceId : Uuid}
    (hdevice : ∃ device ∈ tables.devices, device.id = deviceId ∧ device.userId = userId) :
    ∃ device ∈ tables'.devices, device.id = deviceId ∧ device.userId = userId := by
  obtain ⟨device, hmem, hid, howner⟩ := hdevice
  obtain ⟨kept, hkept, hkeptId, hkey⟩ := h.devices device hmem
  exact ⟨kept, hkept, hkeptId.trans hid, (congrArg Prod.fst hkey).trans howner⟩

omit [Sha256] in
theorem Extends.session (h : Extends tables tables') {sessionPk : Uuid} {key : Uuid × String × String}
    (hsession : ∃ session ∈ tables.sessions, session.id = sessionPk ∧ session.key = key) :
    ∃ session ∈ tables'.sessions, session.id = sessionPk ∧ session.key = key := by
  obtain ⟨session, hmem, hid, hkey⟩ := hsession
  obtain ⟨kept, hkept, hkeptId, hkeptKey⟩ := h.sessions session hmem
  exact ⟨kept, hkept, hkeptId.trans hid, hkeptKey.trans hkey⟩

omit [Sha256] in
theorem Extends.onDevice (h : Extends tables tables') {event : EventRow}
    (hdevice : ∃ device ∈ tables.devices, OnDevice event device) : ∃ device ∈ tables'.devices, OnDevice event device := by
  obtain ⟨device, hmem, hon⟩ := hdevice
  obtain ⟨kept, hkept, hid, howner⟩ := h.device ⟨device, hmem, hon.id, hon.userId⟩
  exact ⟨kept, hkept, hid, howner⟩

omit [Sha256] in
theorem Extends.ofSession (h : Extends tables tables') {event : EventRow}
    (hsession : ∃ session ∈ tables.sessions, OfSession event session) :
    ∃ session ∈ tables'.sessions, OfSession event session := by
  obtain ⟨session, hmem, hof⟩ := hsession
  obtain ⟨kept, hkept, hid, hkey⟩ := h.session ⟨session, hmem, hof.id, hof.key⟩
  exact ⟨kept, hkept, ofSession_of_key hid hkey⟩

omit [Sha256] in
theorem Statement.Placed.mono (h : statement.Placed userId tables) (hextends : Extends tables tables') :
    statement.Placed userId tables' := by
  cases statement with
  | upsertSession deviceId delivery => exact hextends.device h
  | insertEvent deviceId sessionPk delivery => exact ⟨hextends.device h.1, hextends.session h.2⟩
  | insertAttachments delivery =>
    obtain ⟨deviceId, sessionPk, hmem⟩ := h
    exact ⟨deviceId, sessionPk, hextends.events _ hmem⟩
  | insertStreamFacts delivery =>
    obtain ⟨deviceId, sessionPk, hmem⟩ := h
    exact ⟨deviceId, sessionPk, hextends.events _ hmem⟩
  | captureTitle sessionPk delivery =>
    obtain ⟨deviceId, hmem⟩ := h
    exact ⟨deviceId, hextends.events _ hmem⟩
  | _ => trivial

omit [Sha256] in
theorem Extends.refl (tables : Tables) : Extends tables tables :=
  ⟨fun device hdevice => ⟨device, hdevice, rfl, rfl⟩, fun session hsession => ⟨session, hsession, rfl, rfl⟩,
    fun _ hevent => hevent⟩

omit [Sha256] in
/-- What is committed is kept by a commit whose rows agree with those they replace. -/
theorem Extends.over (hdevices : ∀ row ∈ own.devices, ∀ old ∈ committed.devices, row.id = old.id → row.key = old.key)
    (hsessions : ∀ row ∈ own.sessions, ∀ old ∈ committed.sessions, row.id = old.id → row.key = old.key) :
    Extends committed (own.over committed) where
  devices := fun _ hdevice => overlay_kept hdevices hdevice
  sessions := fun _ hsession => overlay_kept hsessions hsession
  events := fun _ hevent => List.mem_append_left _ hevent

omit [Sha256] in
theorem Extends.mine (own committed : Tables) : Extends own (own.over committed) where
  devices := fun device hdevice => ⟨device, mem_overlay.mpr (Or.inr hdevice), rfl, rfl⟩
  sessions := fun session hsession => ⟨session, mem_overlay.mpr (Or.inr hsession), rfl, rfl⟩
  events := fun _ hevent => List.mem_append_right _ hevent

/-- Rows that are linked stay so where devices, sessions and events are kept. -/
theorem Linked.over (hown : Linked own) (h : Linked committed) (hextends : Extends committed (own.over committed)) :
    Linked (own.over committed) := by
  have hmine : Extends own (own.over committed) := .mine own committed
  refine ⟨fun session hsession => ?_, fun event hevent => ?_, fun event hevent => ?_, fun event hevent => ?_,
    fun row hrow => ?_, fun attachment hattachment => ?_⟩
  · obtain ⟨hold, -⟩ | hnew := mem_overlay.mp hsession
    · exact hextends.device (h.sessionDevices session hold)
    · exact hmine.device (hown.sessionDevices session hnew)
  · obtain hold | hnew := List.mem_append.mp hevent
    · exact h.eventTypes event hold
    · exact hown.eventTypes event hnew
  · obtain hold | hnew := List.mem_append.mp hevent
    · exact hextends.onDevice (h.devices event hold)
    · exact hmine.onDevice (hown.devices event hnew)
  · obtain hold | hnew := List.mem_append.mp hevent
    · exact hextends.ofSession (h.sessions event hold)
    · exact hmine.ofSession (hown.sessions event hnew)
  · obtain hold | hnew := List.mem_append.mp hrow
    · obtain ⟨event, hevent, hof⟩ := h.streamFacts row hold
      exact ⟨event, hextends.events event hevent, hof⟩
    · obtain ⟨event, hevent, hof⟩ := hown.streamFacts row hnew
      exact ⟨event, hmine.events event hevent, hof⟩
  · obtain hold | hnew := List.mem_append.mp hattachment
    · obtain ⟨event, hevent, hof⟩ := h.attachments attachment hold
      exact ⟨event, hextends.events event hevent, hof⟩
    · obtain ⟨event, hevent, hof⟩ := hown.attachments attachment hnew
      exact ⟨event, hmine.events event hevent, hof⟩

end Extending

section Statements

variable {others : List Tables} {committed : Tables} {before after : Transaction} {statement : Statement}

/-- The rows that a transaction sees of devices and of sessions are told apart by their ids. -/
structure ViewApart (committed : Tables) (transaction : Transaction) : Prop where
  devices : ((view committed transaction).devices.map DeviceRow.id).Nodup
  sessions : ((view committed transaction).sessions.map SessionRow.id).Nodup

theorem Execution.extends (h : Execution others committed before statement after) (hview : ViewApart committed before) :
    Extends before.own after.own := by
  cases h with
  | device delivery row hrow =>
    refine { Extends.refl before.own with devices := fun device hdevice => overlay_kept ?_ hdevice }
    intro new hnew old hold hid
    obtain rfl := List.mem_singleton.mp hnew
    exact upsertDevice_same hrow hview.devices hold hid.symm
  | session deviceId delivery row hrow =>
    refine { Extends.refl before.own with sessions := fun session hsession => overlay_kept ?_ hsession }
    intro new hnew old hold hid
    obtain rfl := List.mem_singleton.mp hnew
    exact upsertSession_same hrow hview.sessions hold hid.symm
  | inserted deviceId sessionPk delivery hrow =>
    exact { Extends.refl before.own with events := fun event hevent => List.mem_append_left _ hevent }
  | _ => exact { Extends.refl before.own with }

omit [Sha256] in
theorem newEvent_type (userId deviceId sessionPk : Uuid) (delivery : Delivery) :
    (newEvent userId deviceId sessionPk delivery).eventType = delivery.event.eventType.asStr := rfl

theorem newEvent_facts (userId deviceId sessionPk : Uuid) (delivery : Delivery) :
    FactsOf (newEvent userId deviceId sessionPk delivery) (newFacts delivery.draw.eventPk delivery.event) :=
  ⟨delivery.event.subagentId, delivery.event.parentSubagentId, delivery.event.turnId, rfl⟩

/-- What a statement writes refers to what its transaction has written before it. -/
theorem Execution.linked (h : Execution others committed before statement after) (hview : ViewApart committed before)
    (hlinked : Linked before.own) (hplaced : statement.Placed before.userId before.own) : Linked after.own := by
  have hextends := h.extends hview
  cases h with
  | device delivery row hrow =>
    exact { hlinked with
      sessionDevices := fun session hsession => hextends.device (hlinked.sessionDevices session hsession)
      devices := fun event hevent => hextends.onDevice (hlinked.devices event hevent) }
  | session deviceId delivery row hrow =>
    obtain ⟨hkey, hdevice⟩ := upsertSession_key hrow
    refine { hlinked with
      sessionDevices := fun session hsession => ?_
      sessions := fun event hevent => hextends.ofSession (hlinked.sessions event hevent) }
    obtain ⟨hold, -⟩ | hnew := mem_overlay.mp hsession
    · exact hlinked.sessionDevices session hold
    · obtain rfl := List.mem_singleton.mp hnew
      obtain ⟨device, hmem, hid, howner⟩ := hplaced
      exact ⟨device, hmem, hid.trans hdevice.symm, howner.trans (congrArg Prod.fst hkey).symm⟩
  | inserted deviceId sessionPk delivery hrow =>
    obtain ⟨⟨device, hdevice, hdeviceId, hdeviceUser⟩, session, hsession, hsessionId, hkey⟩ := hplaced
    refine { hlinked with
      eventTypes := fun event hevent => ?_
      devices := fun event hevent => ?_
      sessions := fun event hevent => ?_
      streamFacts := fun row hrow => ?_
      attachments := fun attachment hattachment => ?_ }
    · obtain hold | hnew := List.mem_append.mp hevent
      · exact hlinked.eventTypes event hold
      · obtain rfl := List.mem_singleton.mp hnew
        exact ⟨delivery.event.eventType, newEvent_type ..⟩
    · obtain hold | hnew := List.mem_append.mp hevent
      · exact hlinked.devices event hold
      · obtain rfl := List.mem_singleton.mp hnew
        exact ⟨device, hdevice, hdeviceId, hdeviceUser⟩
    · obtain hold | hnew := List.mem_append.mp hevent
      · exact hlinked.sessions event hold
      · obtain rfl := List.mem_singleton.mp hnew
        exact ⟨session, hsession, ofSession_of_key hsessionId hkey⟩
    · obtain ⟨event, hevent, hof⟩ := hlinked.streamFacts row hrow
      exact ⟨event, List.mem_append_left _ hevent, hof⟩
    · obtain ⟨event, hevent, hof⟩ := hlinked.attachments attachment hattachment
      exact ⟨event, List.mem_append_left _ hevent, hof⟩
  | attachments delivery hrows =>
    refine { hlinked with attachments := fun attachment hattachment => ?_ }
    obtain hold | hnew := List.mem_append.mp hattachment
    · exact hlinked.attachments attachment hold
    · obtain ⟨indexed, -, rfl⟩ := List.mem_map.mp hnew
      obtain ⟨deviceId, sessionPk, hevent⟩ := hplaced
      exact ⟨_, hevent, rfl, rfl⟩
  | facts delivery hunused =>
    refine { hlinked with streamFacts := fun row hrow => ?_ }
    obtain hold | hnew := List.mem_append.mp hrow
    · exact hlinked.streamFacts row hold
    · obtain rfl := List.mem_singleton.mp hnew
      obtain ⟨deviceId, sessionPk, hevent⟩ := hplaced
      exact ⟨_, hevent, newEvent_facts ..⟩
  | _ => exact { hlinked with }

/-- The statements that a statement puts first find what they refer to. -/
theorem Execution.pushed (h : Execution others committed before statement after)
    (hplaced : statement.Placed before.userId before.own) :
    after.userId = before.userId ∧
      ∀ other ∈ after.todo, other ∈ before.todo ∨ other.Placed before.userId after.own := by
  have hcons : ∀ {new : Statement} {own : Tables}, new.Placed before.userId own →
      ∀ other ∈ new :: before.todo, other ∈ before.todo ∨ other.Placed before.userId own := by
    intro new own hnew other hother
    obtain rfl | hrest := List.mem_cons.mp hother
    · exact Or.inr hnew
    · exact Or.inl hrest
  cases h with
  | selected delivery => exact ⟨rfl, hcons trivial⟩
  | device delivery row hrow =>
    refine ⟨rfl, hcons ⟨row, mem_overlay.mpr (Or.inr (List.mem_singleton_self _)), rfl, ?_⟩⟩
    exact congrArg Prod.fst (upsertDevice_key hrow)
  | session deviceId delivery row hrow =>
    refine ⟨rfl, hcons ⟨hplaced, row, mem_overlay.mpr (Or.inr (List.mem_singleton_self _)), rfl, ?_⟩⟩
    exact (upsertSession_key hrow).1
  | inserted deviceId sessionPk delivery hrow =>
    refine ⟨rfl, fun other hother => ?_⟩
    have hevent : newEvent before.userId deviceId sessionPk delivery ∈
        before.own.events ++ [newEvent before.userId deviceId sessionPk delivery] :=
      List.mem_append_right _ (List.mem_singleton_self _)
    obtain hnew | hrest := List.mem_append.mp hother
    · right
      obtain hattachments | hmore := List.mem_append.mp hnew
      · split at hattachments
        · exact absurd hattachments List.not_mem_nil
        · obtain rfl := List.mem_singleton.mp hattachments
          exact ⟨deviceId, sessionPk, hevent⟩
      · simp only [List.mem_cons, List.not_mem_nil, or_false] at hmore
        obtain rfl | rfl | rfl := hmore
        · exact ⟨deviceId, sessionPk, hevent⟩
        · trivial
        · exact ⟨deviceId, hevent⟩
    · exact Or.inl hrest
  | captured capture draw found hfound => exact ⟨rfl, hcons trivial⟩
  | capture capture draw first events hrow => exact ⟨rfl, hcons trivial⟩
  | _ => exact ⟨rfl, fun other hother => Or.inl hother⟩

theorem Execution.todo (h : Execution others committed before statement after) :
    ∀ other ∈ before.todo, other ∈ after.todo := by
  intro other hother
  cases h with
  | inserted deviceId sessionPk delivery hrow => exact List.mem_append_right _ hother
  | selected | device | session | captured | capture => exact List.mem_cons_of_mem _ hother
  | _ => exact hother

theorem Execution.factsOwed (h : Execution others committed before statement after)
    (hfacts : ∀ event ∈ before.own.events, (∃ row ∈ before.own.streamFacts, FactsOf event row) ∨
      ∃ delivery, .insertStreamFacts delivery ∈ statement :: before.todo ∧
        FactsOf event (newFacts delivery.draw.eventPk delivery.event)) :
    ∀ event ∈ after.own.events, (∃ row ∈ after.own.streamFacts, FactsOf event row) ∨
      ∃ delivery, .insertStreamFacts delivery ∈ after.todo ∧
        FactsOf event (newFacts delivery.draw.eventPk delivery.event) := by
  have hkept : ∀ event ∈ before.own.events, (∃ row ∈ before.own.streamFacts, FactsOf event row) ∨
      (∃ delivery, .insertStreamFacts delivery ∈ after.todo ∧
        FactsOf event (newFacts delivery.draw.eventPk delivery.event)) ∨
      ∃ delivery, .insertStreamFacts delivery = statement ∧
        FactsOf event (newFacts delivery.draw.eventPk delivery.event) := by
    intro event hevent
    obtain hrow | ⟨delivery, hmem, hof⟩ := hfacts event hevent
    · exact Or.inl hrow
    · obtain hhead | hrest := List.mem_cons.mp hmem
      · exact Or.inr (Or.inr ⟨delivery, hhead, hof⟩)
      · exact Or.inr (Or.inl ⟨delivery, h.todo _ hrest, hof⟩)
  intro event hevent
  cases h with
  | facts delivery hunused =>
    obtain ⟨row, hrow, hof⟩ | howed | ⟨other, hhead, hof⟩ := hkept event hevent
    · exact Or.inl ⟨row, List.mem_append_left _ hrow, hof⟩
    · exact Or.inr howed
    · obtain rfl := Statement.insertStreamFacts.inj hhead
      exact Or.inl ⟨_, List.mem_append_right _ (List.mem_singleton_self _), hof⟩
  | inserted deviceId sessionPk delivery hrow =>
    obtain hold | hnew := List.mem_append.mp hevent
    · obtain hrow | howed | ⟨other, hhead, -⟩ := hkept event hold
      · exact Or.inl hrow
      · exact Or.inr howed
      · cases hhead
    · obtain rfl := List.mem_singleton.mp hnew
      refine Or.inr ⟨delivery, List.mem_append_left _ (List.mem_append_right _ List.mem_cons_self), newEvent_facts ..⟩
  | _ =>
    obtain hrow | howed | ⟨other, hhead, -⟩ := hkept event hevent
    · exact Or.inl hrow
    · exact Or.inr howed
    · cases hhead

theorem Execution.placed (h : Execution others committed before statement after) (hview : ViewApart committed before)
    (hplaced : Transaction.Placed { before with todo := statement :: before.todo }) : after.Placed := by
  have hstatement : statement.Placed before.userId before.own := hplaced.todo statement List.mem_cons_self
  obtain ⟨huser, hpushed⟩ := h.pushed hstatement
  refine ⟨h.linked hview hplaced.linked hstatement, fun other hother => ?_, h.factsOwed hplaced.facts⟩
  rw [huser]
  obtain hrest | hnew := hpushed other hother
  · exact (hplaced.todo other (List.mem_cons_of_mem _ hrest)).mono (h.extends hview)
  · exact hnew

theorem Transaction.placed_ended (transaction : Transaction) : transaction.ended.Placed where
  linked := ⟨by simp [Transaction.ended], by simp [Transaction.ended], by simp [Transaction.ended],
    by simp [Transaction.ended], by simp [Transaction.ended], by simp [Transaction.ended]⟩
  todo := by simp [Transaction.ended]
  facts := by simp [Transaction.ended]

end Statements

end AbyssBackend.Postgres
