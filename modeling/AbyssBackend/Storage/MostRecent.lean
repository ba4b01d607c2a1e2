import AbyssBackend.Library.Reports
import AbyssBackend.Storage.Replays

namespace AbyssBackend.Storage

open Attachments Attempts Reports Search Streams Text

structure Delivery where
  userId : Uuid
  event : IngestUsageEvent

namespace Delivery

variable (delivery : Delivery)

def deviceKey : Uuid × String × String :=
  (delivery.userId, delivery.event.device.hostName, delivery.event.device.platform)

def sessionKey : Uuid × String × String :=
  (delivery.userId, delivery.event.agent.name, delivery.event.sessionId)

def observedAt : DateTime := delivery.event.observedAt

def osVersion : Option String := delivery.event.device.osVersion

def agentVersion : Option String := delivery.event.agent.version

end Delivery

/-- An event id is stored once, as first delivered. -/
def receive (log : List Delivery) (delivery : Delivery) : List Delivery :=
  if delivery.event.eventId ∈ log.map fun known => known.event.eventId then log else log ++ [delivery]

section Runs

variable [Sha256] [Base64] [CaseMapping]

/-- The stores that batches lead to, with what they stored in the order of delivery; a batch that fails changes nothing. -/
inductive Delivered : List Delivery → Store → Prop
  | start (users : List Uuid) : Delivered [] { users }
  | ingest {log : List Delivery} {store after : Store} (h : Delivered log store) (request : IngestEventsRequest)
      (userId : Uuid) (maxBatchSize : ℕ) (draws : Draws) (response : IngestEventsResponse)
      (hok : ingestEvents request userId maxBatchSize draws store = .ok (response, after)) :
      Delivered ((request.events.map (Delivery.mk userId)).foldl receive log) after

theorem Reachable.delivered {store : Store} (h : Reachable store) : ∃ log, Delivered log store := by
  induction h with
  | start users => exact ⟨[], .start users⟩
  | @ingest store _ request userId maxBatchSize draws ih =>
    obtain ⟨log, hlog⟩ := ih
    unfold afterIngest
    split
    · next response after hok => exact ⟨_, hlog.ingest request userId maxBatchSize draws response hok⟩
    · exact ⟨log, hlog⟩

end Runs

/-- The key of the device a session's row names. -/
def sessionDevice (devices : List DeviceRow) (session : SessionRow) : Option (Uuid × String × String) :=
  (Rows.find DeviceRow.id session.deviceContextId devices).map DeviceRow.key

/-- The rows hold what the latest observed of their events that report it report. -/
structure MostRecent (log : List Delivery) (devices : List DeviceRow) (sessions : List SessionRow) : Prop where
  agentVersion : ∀ session ∈ sessions,
    session.agentVersion = latest Delivery.observedAt Delivery.agentVersion (under Delivery.sessionKey session.key log)
  device : ∀ session ∈ sessions, sessionDevice devices session =
    latest Delivery.observedAt (fun delivery => some delivery.deviceKey) (under Delivery.sessionKey session.key log)
  osVersion : ∀ device ∈ devices,
    device.osVersion = latest Delivery.observedAt Delivery.osVersion (under Delivery.deviceKey device.key log)

/-- Of the events of a session or on a device, what the last delivered reports is what the latest observed reports. -/
structure LastIsLatest (log : List Delivery) : Prop where
  agentVersion : ∀ key, last Delivery.agentVersion (under Delivery.sessionKey key log) =
    latest Delivery.observedAt Delivery.agentVersion (under Delivery.sessionKey key log)
  device : ∀ key, last (fun delivery => some delivery.deviceKey) (under Delivery.sessionKey key log) =
    latest Delivery.observedAt (fun delivery => some delivery.deviceKey) (under Delivery.sessionKey key log)
  osVersion : ∀ key, last Delivery.osVersion (under Delivery.deviceKey key log) =
    latest Delivery.observedAt Delivery.osVersion (under Delivery.deviceKey key log)

/-- The rows hold what the last delivered of their events that report it reported. -/
structure LastKept (log : List Delivery) (devices : List DeviceRow) (sessions : List SessionRow) : Prop where
  agentVersion : Retained SessionRow.key SessionRow.agentVersion Delivery.sessionKey Delivery.agentVersion sessions log
  device : Retained SessionRow.key (sessionDevice devices) Delivery.sessionKey
    (fun delivery => some delivery.deviceKey) sessions log
  osVersion : Retained DeviceRow.key DeviceRow.osVersion Delivery.deviceKey Delivery.osVersion devices log

variable {log : List Delivery} {devices devices' : List DeviceRow} {sessions sessions' : List SessionRow}

theorem LastKept.newest_iff (h : LastKept log devices sessions) :
    MostRecent log devices sessions ↔ LastIsLatest log := by
  constructor
  · intro hrecent
    exact ⟨h.agentVersion.latest_iff.mp hrecent.agentVersion, h.device.latest_iff.mp hrecent.device,
      h.osVersion.latest_iff.mp hrecent.osVersion⟩
  · intro hlatest
    exact ⟨h.agentVersion.latest_iff.mpr hlatest.agentVersion, h.device.latest_iff.mpr hlatest.device,
      h.osVersion.latest_iff.mpr hlatest.osVersion⟩

section Step

variable {userId deviceId sessionPk : Uuid} {event : IngestUsageEvent} {observedAt : ℤ} {draw : EventDraw}

theorem DeviceSeen.kept_key (h : DeviceSeen userId event observedAt draw devices deviceId devices')
    {device : DeviceRow} (hdevice : device ∈ devices) :
    ∃ row ∈ devices', row.id = device.id ∧ row.key = device.key := by
  cases h with
  | known existing hfound =>
    by_cases hid : device.id = existing.id
    · exact ⟨_, Rows.mem_update.mpr (Or.inr ⟨device, hdevice, hid, rfl⟩), rfl, rfl⟩
    · exact ⟨device, Rows.mem_update.mpr (Or.inl ⟨hdevice, hid⟩), rfl, rfl⟩
  | new hkey hid => exact ⟨device, List.mem_append_left _ hdevice, rfl, rfl⟩

theorem DeviceSeen.seen_key (h : DeviceSeen userId event observedAt draw devices deviceId devices') :
    ∃ row ∈ devices', row.id = deviceId ∧ row.key = (userId, event.device.hostName, event.device.platform) := by
  cases h with
  | known existing hfound =>
    obtain ⟨hmem, hkey⟩ := Rows.find_mem hfound
    exact ⟨_, Rows.mem_update.mpr (Or.inr ⟨existing, hmem, rfl, rfl⟩), rfl, hkey⟩
  | new hkey hid => exact ⟨_, List.mem_append_right _ (List.mem_singleton_self _), rfl, rfl⟩

theorem sessionDevice_eq (hids : (devices.map DeviceRow.id).Nodup) {device : DeviceRow} (hdevice : device ∈ devices)
    {session : SessionRow} (hsession : session.deviceContextId = device.id) :
    sessionDevice devices session = some device.key := by
  rw [sessionDevice, hsession, Rows.find_of_mem hids hdevice, Option.map_some]

theorem DeviceSeen.sessionDevice_kept (h : DeviceSeen userId event observedAt draw devices deviceId devices')
    (hids : (devices.map DeviceRow.id).Nodup) {session : SessionRow}
    (hdevice : session.deviceContextId ∈ devices.map DeviceRow.id) :
    sessionDevice devices' session = sessionDevice devices session := by
  obtain ⟨device, hmem, hid⟩ := List.mem_map.mp hdevice
  obtain ⟨row, hrow, hrowId, hrowKey⟩ := h.kept_key hmem
  rw [sessionDevice_eq hids hmem hid.symm, sessionDevice_eq (h.ids hids) hrow (hrowId.trans hid).symm, hrowKey]

theorem LastKept.seen (h : LastKept log devices sessions)
    (hdeviceIds : (devices.map DeviceRow.id).Nodup) (hdeviceKeys : (devices.map DeviceRow.key).Nodup)
    (hsessionIds : (sessions.map SessionRow.id).Nodup) (hsessionKeys : (sessions.map SessionRow.key).Nodup)
    (hrefs : ∀ session ∈ sessions, session.deviceContextId ∈ devices.map DeviceRow.id)
    (hdevice : DeviceSeen userId event observedAt draw devices deviceId devices')
    (hsession : SessionSeen userId deviceId event observedAt draw sessions sessionPk sessions') :
    LastKept (log ++ [⟨userId, event⟩]) devices' sessions' := by
  obtain ⟨seen, hseen, hseenId, hseenKey⟩ := hdevice.seen_key
  have hother : ∀ session ∈ sessions, sessionDevice devices' session = sessionDevice devices session :=
    fun session hmem => hdevice.sessionDevice_kept hdeviceIds (hrefs session hmem)
  have hnamed : ∀ session : SessionRow, session.deviceContextId = deviceId →
      sessionDevice devices' session = some (Delivery.mk userId event).deviceKey := by
    intro session hnames
    rw [sessionDevice_eq (hdevice.ids hdeviceIds) hseen (hnames.trans hseenId.symm), hseenKey]
    rfl
  refine ⟨?_, ?_, ?_⟩
  · cases hsession with
    | known existing hfound =>
      have hkey : existing.key = (Delivery.mk userId event).sessionKey := (Rows.find_mem hfound).2
      have hmem := (Rows.find_mem hfound).1
      exact h.agentVersion.seen hsessionIds hsessionKeys hmem hkey (fun _ => rfl) rfl fun _ _ _ => rfl
    | new hkey hid => exact h.agentVersion.new rfl hkey rfl fun _ _ => rfl
  · cases hsession with
    | known existing hfound =>
      have hkey : existing.key = (Delivery.mk userId event).sessionKey := (Rows.find_mem hfound).2
      have hmem := (Rows.find_mem hfound).1
      exact h.device.seen hsessionIds hsessionKeys hmem hkey (fun _ => rfl) (hnamed _ rfl) fun session hsession _ =>
        hother session hsession
    | new hkey hid => exact h.device.new rfl hkey (hnamed _ rfl) hother
  · cases hdevice with
    | known existing hfound =>
      have hkey : existing.key = (Delivery.mk userId event).deviceKey := (Rows.find_mem hfound).2
      have hmem := (Rows.find_mem hfound).1
      exact h.osVersion.seen hdeviceIds hdeviceKeys hmem hkey (fun _ => rfl) rfl fun _ _ _ => rfl
    | new hkey hid => exact h.osVersion.new rfl hkey rfl fun _ _ => rfl

end Step

section Run

variable [Sha256] [Base64] [CaseMapping] {store after : Store} {userId : Uuid}

/-- The events stored are those delivered first under their ids, and the rows keep what was last delivered. -/
structure Tracks (log : List Delivery) (store : Store) : Prop where
  sound : Sound store
  eventIds : (log.map fun delivery => delivery.event.eventId) = store.events.map EventRow.eventId
  kept : LastKept log store.devices store.sessions

omit [Base64] in
theorem Tracks.event (h : Tracks log store) {event : IngestUsageEvent}
    {attachments : List ValidatedImageAttachment} {draw : EventDraw} {new : Bool}
    (hok : ingestOneEvent userId event attachments draw store = .ok (new, after)) :
    Tracks (receive log ⟨userId, event⟩) after := by
  have hsound := h.sound.ingestOneEvent hok
  unfold receive
  obtain ⟨-, hknown, rfl⟩ | ⟨-, deviceId, sessionPk, texts, refs, hadmitted⟩ :=
    ingestOneEvent_cases hok h.sound.index.indexed h.sound.index.places
  · rw [if_pos (h.eventIds ▸ hknown)]
    exact h
  · rw [if_neg (h.eventIds ▸ hadmitted.newId)]
    have hierarchy := h.sound.hierarchy
    refine ⟨hsound, ?_, h.kept.seen hierarchy.deviceIds hierarchy.deviceKeys hierarchy.sessionIds
      hierarchy.sessionKeys (fun session hsession => ?_) hadmitted.device hadmitted.session⟩
    · rw [List.map_append, h.eventIds, hadmitted.events, List.map_append]
      rfl
    · obtain ⟨device, hdevice, hid, -⟩ := hierarchy.sessionDevices session hsession
      exact hid ▸ List.mem_map_of_mem hdevice

omit [Base64] in
theorem Tracks.capture (h : Tracks log store) {capture : IngestDiagnosticCapture}
    {draw : CaptureDraw} {new : Bool}
    (hok : ingestOneDiagnosticCapture userId capture draw store = .ok (new, after)) : Tracks log after := by
  have hsound := h.sound.ingestOneDiagnosticCapture hok
  obtain ⟨-, -, rfl⟩ | ⟨-, -, deviceId, sessionPk, rows, rfl⟩ := ingestOneDiagnosticCapture_cases hok
  · exact h
  · exact ⟨hsound, h.eventIds, h.kept⟩

omit [Base64] in
theorem Tracks.batch (h : Tracks log store) {draws : Draws}
    {items : List (IngestUsageEvent × List ValidatedImageAttachment)} {stop : Tally}
    (hok : ingestAll (fun item index => ingestOneEvent userId item.1 item.2 (draws.event index)) items store =
      .ok stop) : Tracks ((items.map fun item => Delivery.mk userId item.1).foldl receive log) stop.store := by
  have hrun : Tracks ((items.zipIdx.map fun place => Delivery.mk userId place.1.1).foldl receive log) stop.store := by
    refine foldlM_ok hok (P := fun (done : List ((IngestUsageEvent × List ValidatedImageAttachment) × ℕ))
      (tally : Tally) => Tracks ((done.map fun place => Delivery.mk userId place.1.1).foldl receive log) tally.store) h ?_
    rintro done ⟨⟨event, attachments⟩, index⟩ before after hbefore hstep
    obtain ⟨⟨new, stored⟩, hone, hcount⟩ := bind_eq_ok.mp hstep
    cases hcount
    rw [List.map_append, List.map_singleton, List.foldl_concat]
    have hstored := hbefore.event hone
    cases new <;> exact hstored
  have hitems : (items.zipIdx.map fun place => Delivery.mk userId place.1.1) =
      items.map fun item => Delivery.mk userId item.1 := by
    conv_rhs => rw [← List.zipIdx_map_fst 0 items, List.map_map]
    rfl
  rwa [hitems] at hrun

theorem Delivered.tracks {log : List Delivery} (h : Delivered log store) : Tracks log store := by
  induction h with
  | start users => exact ⟨sound_start users, rfl, retained_nil, retained_nil, retained_nil⟩
  | @ingest log store after _ request userId maxBatchSize draws response hok ih =>
    obtain ⟨validated, events, captures, hvalidated, hevents, hcaptures, rfl, rfl⟩ := ingestEvents_ok.mp hok
    have hmiddle := ih.batch hevents
    have hitems : ((request.events.zip validated).map fun item => Delivery.mk userId item.1) =
        request.events.map (Delivery.mk userId) := by
      conv_rhs => rw [← List.map_fst_zip (validateBatch_length hvalidated).ge, List.map_map]
      rfl
    rw [hitems] at hmiddle
    exact ingestAll_keeps hcaptures hmiddle fun _ _ _ _ _ hbefore hstep => hbefore.capture hstep

/-- The rows are most recent exactly where the last delivery of every attribute is the latest observed one. -/
theorem Delivered.most_recent_iff {log : List Delivery} (h : Delivered log store) :
    MostRecent log store.devices store.sessions ↔ LastIsLatest log :=
  h.tracks.kept.newest_iff

end Run

section LateDelivery

open Fixtures

local instance lateDigest : Sha256 := cargoDigest

local instance lateContent : Base64 := noContent

local instance lateCase : CaseMapping := asciiCase

theorem Delivered.batch_most_recent :
    MostRecent ((batch.events.map (Delivery.mk 7)).foldl receive [])
        (afterIngest batch 7 100 (draws 10) { users := [7] }).devices
        (afterIngest batch 7 100 (draws 10) { users := [7] }).sessions ↔
      LastIsLatest ((batch.events.map (Delivery.mk 7)).foldl receive []) :=
  Delivered.most_recent_iff (.ingest (.start [7]) batch 7 100 (draws 10) ⟨2, 1, 0, [], 1, 0⟩ rfl)

/-- Version 2 on the desktop is observed after version 1 on the laptop, which is delivered last. -/
def lateBatch : IngestEventsRequest where
  events := [{ event "e2" 2 .request [⟨"user", "cargo test", none, none⟩] with
      device := ⟨"desktop", "macos", some "15"⟩, agent := ⟨"codex_exec", some "2"⟩ },
    { event "e0" 0 .request [⟨"user", "cargo test", none, none⟩] with device := ⟨"desktop", "macos", some "14"⟩ },
    { event "e1" 1 .request [⟨"user", "cargo test", none, none⟩] with
      device := ⟨"laptop", "macos", none⟩, agent := ⟨"codex_exec", some "1"⟩ }]
  diagnosticCaptures := []

def lateLog : List Delivery := (lateBatch.events.map (Delivery.mk 7)).foldl receive []

def lateStore : Store := afterIngest lateBatch 7 100 (draws 10) { users := [7] }

theorem lateBatch_overwrites :
    Delivered lateLog lateStore ∧
      lateStore.sessions.map SessionRow.agentVersion = [some "1"] ∧
      latest Delivery.observedAt Delivery.agentVersion lateLog = some "2" ∧
      lateStore.devices.map DeviceRow.osVersion = [some "14", none] ∧
      ¬ MostRecent lateLog lateStore.devices lateStore.sessions := by
  refine ⟨.ingest (.start [7]) lateBatch 7 100 (draws 10) ⟨3, 0, 0, [], 0, 0⟩ rfl, rfl, by decide, rfl, fun h => ?_⟩
  obtain ⟨session, hsession⟩ := List.length_eq_one_iff.mp (show lateStore.sessions.length = 1 from rfl)
  have hmem : session ∈ lateStore.sessions := hsession ▸ List.mem_singleton_self session
  have hrow : ∀ row ∈ lateStore.sessions, row.agentVersion = some "1" ∧ row.key = (7, "codex_exec", "s") := by decide
  have hlatest : latest Delivery.observedAt Delivery.agentVersion
      (under Delivery.sessionKey (7, "codex_exec", "s") lateLog) = some "2" := by decide
  have hversion := h.agentVersion session hmem
  rw [(hrow session hmem).1, (hrow session hmem).2, hlatest] at hversion
  revert hversion
  decide

end LateDelivery

end AbyssBackend.Storage
