import AbyssBackend.Library.Extents
import AbyssBackend.Storage.Steps

namespace AbyssBackend.Storage

open Attachments Extents Search

def DeviceSpans (devices : List DeviceRow) (events : List EventRow) : Prop :=
  Spans DeviceRow.id DeviceRow.firstSeenAt (fun row => some row.lastSeenAt) EventRow.deviceContextId
    EventRow.observedAt devices events

def SessionSpans (sessions : List SessionRow) (events : List EventRow) : Prop :=
  Spans SessionRow.id SessionRow.startedAt SessionRow.endedAt EventRow.sessionPk EventRow.observedAt sessions events

structure OfSession (event : EventRow) (session : SessionRow) : Prop where
  id : session.id = event.sessionPk
  userId : session.userId = event.userId
  agentName : session.agentName = event.agentName
  sessionId : session.sessionId = event.sessionId

structure OnDevice (event : EventRow) (device : DeviceRow) : Prop where
  id : device.id = event.deviceContextId
  userId : device.userId = event.userId

/-- Devices, sessions and events are told apart by their keys, every event has a device and a session
of its owner, and their times are those of their events. -/
structure Hierarchy (store : Store) : Prop where
  deviceIds : (store.devices.map DeviceRow.id).Nodup
  deviceKeys : (store.devices.map DeviceRow.key).Nodup
  sessionIds : (store.sessions.map SessionRow.id).Nodup
  sessionKeys : (store.sessions.map SessionRow.key).Nodup
  eventPks : (store.events.map EventRow.id).Nodup
  eventIds : (store.events.map EventRow.eventId).Nodup
  sessionDevices : ∀ session ∈ store.sessions, ∃ device ∈ store.devices,
    device.id = session.deviceContextId ∧ device.userId = session.userId
  eventTypes : ∀ event ∈ store.events, ∃ eventType : UsageEventType, event.eventType = eventType.asStr
  devices : ∀ event ∈ store.events, ∃ device ∈ store.devices, OnDevice event device
  sessions : ∀ event ∈ store.events, ∃ session ∈ store.sessions, OfSession event session
  deviceSpans : DeviceSpans store.devices store.events
  sessionSpans : SessionSpans store.sessions store.events

theorem OfSession.key {row : EventRow} {session : SessionRow} (h : OfSession row session) :
    session.key = (row.userId, row.agentName, row.sessionId) := by
  rw [SessionRow.key, h.userId, h.agentName, h.sessionId]

theorem ofSession_of_key {row : EventRow} {session : SessionRow} (hid : session.id = row.sessionPk)
    (hkey : session.key = (row.userId, row.agentName, row.sessionId)) : OfSession row session := by
  simp only [SessionRow.key, Prod.mk.injEq] at hkey
  exact ⟨hid, hkey.1, hkey.2.1, hkey.2.2⟩

theorem Hierarchy.same_owner {store : Store} (h : Hierarchy store) {row other : EventRow} (hrow : row ∈ store.events)
    (hother : other ∈ store.events) (hsame : row.sessionPk = other.sessionPk) : row.userId = other.userId := by
  obtain ⟨session, hsession, hof⟩ := h.sessions row hrow
  obtain ⟨session', hsession', hof'⟩ := h.sessions other hother
  have hid : session.id = session'.id := by rw [hof.id, hof'.id, hsame]
  obtain rfl := List.inj_on_of_nodup_map h.sessionIds hsession hsession' hid
  rw [← hof.userId, hof'.userId]

theorem Hierarchy.same_sessionId {store : Store} (h : Hierarchy store) {row other : EventRow}
    (hrow : row ∈ store.events) (hother : other ∈ store.events) (hsame : row.sessionPk = other.sessionPk) :
    row.sessionId = other.sessionId := by
  obtain ⟨session, hsession, hof⟩ := h.sessions row hrow
  obtain ⟨session', hsession', hof'⟩ := h.sessions other hother
  have hid : session.id = session'.id := by rw [hof.id, hof'.id, hsame]
  obtain rfl := List.inj_on_of_nodup_map h.sessionIds hsession hsession' hid
  rw [← hof.sessionId, hof'.sessionId]

section Devices

variable {userId deviceId : Uuid} {event : IngestUsageEvent} {observedAt : ℤ} {draw : EventDraw}
  {devices after : List DeviceRow}

theorem DeviceSeen.ids (h : DeviceSeen userId event observedAt draw devices deviceId after)
    (hids : (devices.map DeviceRow.id).Nodup) : (after.map DeviceRow.id).Nodup := by
  cases h with
  | known existing hfound => exact Rows.nodup_update (fun _ => rfl) hids
  | new hkey hid => exact Rows.nodup_concat hids hid

theorem DeviceSeen.keys (h : DeviceSeen userId event observedAt draw devices deviceId after)
    (hkeys : (devices.map DeviceRow.key).Nodup) : (after.map DeviceRow.key).Nodup := by
  cases h with
  | known existing hfound => exact Rows.nodup_update (fun _ => rfl) hkeys
  | new hkey hid => exact Rows.nodup_concat hkeys hkey

theorem DeviceSeen.kept (h : DeviceSeen userId event observedAt draw devices deviceId after)
    {device : DeviceRow} (hdevice : device ∈ devices) :
    ∃ row ∈ after, row.id = device.id ∧ row.userId = device.userId := by
  cases h with
  | known existing hfound =>
    by_cases hid : device.id = existing.id
    · exact ⟨_, Rows.mem_update.mpr (Or.inr ⟨device, hdevice, hid, rfl⟩), rfl, rfl⟩
    · exact ⟨device, Rows.mem_update.mpr (Or.inl ⟨hdevice, hid⟩), rfl, rfl⟩
  | new hkey hid => exact ⟨device, List.mem_append_left _ hdevice, rfl, rfl⟩

theorem DeviceSeen.seen (h : DeviceSeen userId event observedAt draw devices deviceId after) :
    ∃ row ∈ after, row.id = deviceId ∧ row.userId = userId := by
  cases h with
  | known existing hfound =>
    obtain ⟨hmem, hkey⟩ := Rows.find_mem hfound
    exact ⟨_, Rows.mem_update.mpr (Or.inr ⟨existing, hmem, rfl, rfl⟩), rfl, congrArg Prod.fst hkey⟩
  | new hkey hid => exact ⟨_, List.mem_append_right _ (List.mem_singleton_self _), rfl, rfl⟩

theorem DeviceSeen.spans (h : DeviceSeen userId event observedAt draw devices deviceId after)
    (hids : (devices.map DeviceRow.id).Nodup) {events : List EventRow}
    (hrefs : ∀ row ∈ events, row.deviceContextId ∈ devices.map DeviceRow.id) (hspans : DeviceSpans devices events)
    {row : EventRow} (hdevice : row.deviceContextId = deviceId) (htime : row.observedAt = observedAt) :
    DeviceSpans after (events ++ [row]) := by
  subst htime
  cases h with
  | known existing hfound =>
    apply spans_seen hspans hids (Rows.find_mem hfound).1 hdevice rfl rfl
    intro t ht
    obtain rfl := Option.some.inj ht
    rfl
  | new hkey hid => exact spans_new hspans hid hrefs hdevice rfl rfl

end Devices

section Sessions

variable {userId deviceId sessionPk : Uuid} {event : IngestUsageEvent} {observedAt : ℤ} {draw : EventDraw}
  {sessions after : List SessionRow}

theorem SessionSeen.ids (h : SessionSeen userId deviceId event observedAt draw sessions sessionPk after)
    (hids : (sessions.map SessionRow.id).Nodup) : (after.map SessionRow.id).Nodup := by
  cases h with
  | known existing hfound => exact Rows.nodup_update (fun _ => rfl) hids
  | new hkey hid => exact Rows.nodup_concat hids hid

theorem SessionSeen.keys (h : SessionSeen userId deviceId event observedAt draw sessions sessionPk after)
    (hkeys : (sessions.map SessionRow.key).Nodup) : (after.map SessionRow.key).Nodup := by
  cases h with
  | known existing hfound => exact Rows.nodup_update (fun _ => rfl) hkeys
  | new hkey hid => exact Rows.nodup_concat hkeys hkey

theorem SessionSeen.kept (h : SessionSeen userId deviceId event observedAt draw sessions sessionPk after)
    {session : SessionRow} (hsession : session ∈ sessions) :
    ∃ row ∈ after, row.id = session.id ∧ row.key = session.key := by
  cases h with
  | known existing hfound =>
    by_cases hid : session.id = existing.id
    · exact ⟨_, Rows.mem_update.mpr (Or.inr ⟨session, hsession, hid, rfl⟩), rfl, rfl⟩
    · exact ⟨session, Rows.mem_update.mpr (Or.inl ⟨hsession, hid⟩), rfl, rfl⟩
  | new hkey hid => exact ⟨session, List.mem_append_left _ hsession, rfl, rfl⟩

theorem SessionSeen.seen (h : SessionSeen userId deviceId event observedAt draw sessions sessionPk after) :
    ∃ row ∈ after, row.id = sessionPk ∧ row.key = (userId, event.agent.name, event.sessionId) := by
  cases h with
  | known existing hfound =>
    obtain ⟨hmem, hkey⟩ := Rows.find_mem hfound
    exact ⟨_, Rows.mem_update.mpr (Or.inr ⟨existing, hmem, rfl, rfl⟩), rfl, hkey⟩
  | new hkey hid => exact ⟨_, List.mem_append_right _ (List.mem_singleton_self _), rfl, rfl⟩

theorem SessionSeen.origin (h : SessionSeen userId deviceId event observedAt draw sessions sessionPk after)
    (hids : (sessions.map SessionRow.id).Nodup) {row : SessionRow} (hrow : row ∈ after) :
    row ∈ sessions ∨ row.deviceContextId = deviceId ∧ row.userId = userId := by
  cases h with
  | known existing hfound =>
    obtain ⟨hmem, hkey⟩ := Rows.find_mem hfound
    obtain ⟨hold, -⟩ | ⟨session, hsession, hid, rfl⟩ := Rows.mem_update.mp hrow
    · exact Or.inl hold
    · obtain rfl := List.inj_on_of_nodup_map hids hsession hmem hid
      exact Or.inr ⟨rfl, congrArg Prod.fst hkey⟩
  | new hkey hid =>
    obtain hold | hnew := List.mem_append.mp hrow
    · exact Or.inl hold
    · obtain rfl := List.mem_singleton.mp hnew
      exact Or.inr ⟨rfl, rfl⟩

theorem SessionSeen.spans (h : SessionSeen userId deviceId event observedAt draw sessions sessionPk after)
    (hids : (sessions.map SessionRow.id).Nodup) {events : List EventRow}
    (hrefs : ∀ row ∈ events, row.sessionPk ∈ sessions.map SessionRow.id) (hspans : SessionSpans sessions events)
    {row : EventRow} (hsession : row.sessionPk = sessionPk) (htime : row.observedAt = observedAt) :
    SessionSpans after (events ++ [row]) := by
  subst htime
  cases h with
  | known existing hfound =>
    apply spans_seen hspans hids (Rows.find_mem hfound).1 hsession rfl rfl
    intro t ht
    simp only [seenSession, ht, Option.getD_some]
  | new hkey hid => exact spans_new hspans hid hrefs hsession rfl rfl

end Sessions

section Step

variable [Text.Sha256] [CaseMapping] {userId deviceId sessionPk : Uuid} {event : IngestUsageEvent}
  {attachments : List ValidatedImageAttachment} {draw : EventDraw} {texts : List SearchText} {refs : List SearchRef}
  {store after : Store}

theorem Hierarchy.admitted (h : Hierarchy store)
    (hadmitted : Admitted userId event attachments draw deviceId sessionPk texts refs store after) :
    Hierarchy after := by
  have hdeviceRefs : ∀ row ∈ store.events, row.deviceContextId ∈ store.devices.map DeviceRow.id := by
    intro row hrow
    obtain ⟨device, hdevice, hon⟩ := h.devices row hrow
    exact hon.id ▸ List.mem_map_of_mem hdevice
  have hsessionRefs : ∀ row ∈ store.events, row.sessionPk ∈ store.sessions.map SessionRow.id := by
    intro row hrow
    obtain ⟨session, hsession, hof⟩ := h.sessions row hrow
    exact hof.id ▸ List.mem_map_of_mem hsession
  refine ⟨hadmitted.device.ids h.deviceIds, hadmitted.device.keys h.deviceKeys, hadmitted.session.ids h.sessionIds,
    hadmitted.session.keys h.sessionKeys, ?_, ?_, ?_, ?_, ?_, ?_, ?_, ?_⟩
  · exact hadmitted.events ▸ Rows.nodup_concat h.eventPks hadmitted.newPk
  · exact hadmitted.events ▸ Rows.nodup_concat h.eventIds hadmitted.newId
  · intro session hsession
    obtain hold | ⟨hdevice, huser⟩ := hadmitted.session.origin h.sessionIds hsession
    · obtain ⟨device, hdevice, hid, huser⟩ := h.sessionDevices session hold
      obtain ⟨kept, hkept, hkeptId, hkeptUser⟩ := hadmitted.device.kept hdevice
      exact ⟨kept, hkept, hkeptId.trans hid, hkeptUser.trans huser⟩
    · obtain ⟨seen, hseen, hseenId, hseenUser⟩ := hadmitted.device.seen
      exact ⟨seen, hseen, hseenId.trans hdevice.symm, hseenUser.trans huser.symm⟩
  all_goals rw [hadmitted.events]
  · intro row hrow
    obtain hold | hnew := List.mem_append.mp hrow
    · exact h.eventTypes row hold
    · obtain rfl := List.mem_singleton.mp hnew
      exact ⟨event.eventType, rfl⟩
  · intro row hrow
    obtain hold | hnew := List.mem_append.mp hrow
    · obtain ⟨device, hdevice, hon⟩ := h.devices row hold
      obtain ⟨kept, hkept, hid, huser⟩ := hadmitted.device.kept hdevice
      exact ⟨kept, hkept, hid.trans hon.id, huser.trans hon.userId⟩
    · obtain rfl := List.mem_singleton.mp hnew
      obtain ⟨seen, hseen, hid, huser⟩ := hadmitted.device.seen
      exact ⟨seen, hseen, hid, huser⟩
  · intro row hrow
    obtain hold | hnew := List.mem_append.mp hrow
    · obtain ⟨session, hsession, hof⟩ := h.sessions row hold
      obtain ⟨kept, hkept, hid, hkey⟩ := hadmitted.session.kept hsession
      exact ⟨kept, hkept, ofSession_of_key (hid.trans hof.id) (hkey.trans hof.key)⟩
    · obtain rfl := List.mem_singleton.mp hnew
      obtain ⟨seen, hseen, hid, hkey⟩ := hadmitted.session.seen
      exact ⟨seen, hseen, ofSession_of_key hid hkey⟩
  · exact hadmitted.device.spans h.deviceIds hdeviceRefs h.deviceSpans rfl rfl
  · exact hadmitted.session.spans h.sessionIds hsessionRefs h.sessionSpans rfl rfl

end Step

end AbyssBackend.Storage
