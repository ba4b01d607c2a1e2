import AbyssBackend.Postgres.CaptureLinks

namespace AbyssBackend.Postgres

open Attachments Drafts Runs Storage Streams Text

section Tables

variable [Sha256]

/-- A sound database: its devices and sessions span the times of their events, and each of its captures has a device and
a session of its owner and is linked to events of theirs. -/
structure Intact (tables : Tables) : Prop extends Integral tables where
  deviceSpans : ∀ event ∈ tables.events, ∀ device ∈ tables.devices, device.id = event.deviceContextId →
    device.firstSeenAt ≤ event.observedAt ∧ event.observedAt ≤ device.lastSeenAt
  sessionSpans : ∀ event ∈ tables.events, ∀ session ∈ tables.sessions, session.id = event.sessionPk →
    session.startedAt ≤ event.observedAt ∧ ∃ endedAt, session.endedAt = some endedAt ∧ event.observedAt ≤ endedAt
  captureDevices : ∀ capture ∈ tables.captures, ∃ device ∈ tables.devices,
    device.id = capture.deviceContextId ∧ device.userId = capture.userId
  captureSessions : ∀ capture ∈ tables.captures, ∃ session ∈ tables.sessions,
    session.id = capture.sessionPk ∧ session.userId = capture.userId
  capturesLinked : CapturesLinked tables

/-- The devices and sessions span the times of the committed events, and every transaction has told its own. -/
structure Spanned (database : Database) : Prop extends HierarchyApart (database.committed.events.map deviceTime)
    (database.committed.events.map sessionTime) database where
  told : ∀ transaction ∈ database.transactions, transaction.Told

variable {start database : Database} {tables : Tables}

omit [Sha256] in
theorem refs_of_events {ρ : Type} {id : ρ → Uuid} {rows : List ρ} {events : List EventRow} {ref : EventRow → Uuid}
    (h : ∀ event ∈ events, ∃ row ∈ rows, id row = ref event) :
    ∀ pair ∈ events.map (fun event => (ref event, event.observedAt)), pair.1 ∈ rows.map id := by
  intro pair hpair
  obtain ⟨event, hevent, rfl⟩ := List.mem_map.mp hpair
  obtain ⟨row, hrow, hid⟩ := h event hevent
  exact List.mem_map.mpr ⟨row, hrow, hid⟩

theorem Intact.spanned (h : Intact database.committed) (hrest : database.transactions = []) : Spanned database where
  devices := by
    rw [hrest]
    refine heldApart_of_rest h.deviceIds h.deviceKeys (fun device hdevice => ⟨_, rfl, h.deviceTimes device hdevice⟩)
      (refs_of_events fun event hevent => ?_) fun device hdevice time htime => ?_
    · obtain ⟨device, hdevice, hon⟩ := h.linked.devices event hevent
      exact ⟨device, hdevice, hon.id⟩
    · obtain ⟨event, hevent, htold⟩ := List.mem_map.mp htime
      obtain ⟨hid, rfl⟩ := Prod.mk.inj htold
      obtain ⟨hfirst, hlast⟩ := h.deviceSpans event hevent device hdevice hid.symm
      exact ⟨hfirst, _, rfl, hlast⟩
  sessions := by
    rw [hrest]
    refine heldApart_of_rest h.sessionIds h.sessionKeys h.sessionTimes
      (refs_of_events fun event hevent => ?_) fun session hsession time htime => ?_
    · obtain ⟨session, hsession, hof⟩ := h.linked.sessions event hevent
      exact ⟨session, hsession, hof.id⟩
    · obtain ⟨event, hevent, htold⟩ := List.mem_map.mp htime
      obtain ⟨hid, rfl⟩ := Prod.mk.inj htold
      exact h.sessionSpans event hevent session hsession hid.symm
  told := by simp [hrest]

theorem Spanned.step [Base64] {before after : Database} {action : IngestAction} (h : Spanned before)
    (hstep : before.Stepped action after) : Spanned after := by
  have htold := told_step h.told hstep
  have hapart := h.toHierarchyApart
  cases hstep with
  | begin request userId maxBatchSize draws begunAt validatedAttachments hvalid huser =>
    exact ⟨hapart.begin rfl rfl, htold⟩
  | statement index transaction after statement rest hget htodo hexecuted =>
    exact ⟨hapart.executed hget (execution hexecuted), htold⟩
  | commit index transaction hget hrunning htodo =>
    have hevents := (h.told transaction (List.mem_of_getElem? hget)).events
    have hdevices : ∀ pair ∈ transaction.own.events.map deviceTime, pair ∈ transaction.deviceTimes := by
      intro pair hpair
      obtain ⟨event, hevent, rfl⟩ := List.mem_map.mp hpair
      exact (hevents event hevent).1
    have hsessions : ∀ pair ∈ transaction.own.events.map sessionTime, pair ∈ transaction.sessionTimes := by
      intro pair hpair
      obtain ⟨event, hevent, rfl⟩ := List.mem_map.mp hpair
      exact (hevents event hevent).2
    have hcommit := hapart.commit hget hdevices hsessions
    rw [← List.map_append, ← List.map_append] at hcommit
    exact ⟨hcommit, htold⟩
  | abort index transaction hget hrunning => exact ⟨hapart.abort hget, htold⟩

/-- A linked capture is of the session and the device of an event. -/
theorem Integral.capture (h : Integral tables) (hlinked : CapturesLinked tables) {capture : DiagnosticCapture}
    (hcapture : capture ∈ tables.captures) : ∃ event ∈ tables.events, event.userId = capture.userId ∧
      event.sessionPk = capture.sessionPk ∧ event.deviceContextId = capture.deviceContextId := by
  obtain ⟨link, hlink, hpk⟩ := hlinked.captures capture hcapture
  obtain ⟨other, hother, event, hevent, hjoins⟩ := hlinked.links link hlink
  obtain rfl := List.inj_on_of_nodup_map h.captureIds hother hcapture (hjoins.capturePk.trans hpk)
  exact ⟨event, hevent, hjoins.userId, hjoins.sessionPk, hjoins.deviceContextId⟩

theorem Intact.of_spanned (hintegral : Integral database.committed) (hspanned : Spanned database)
    (hlinked : CapturesLinked database.committed) : Intact database.committed where
  toIntegral := hintegral
  deviceSpans := by
    intro event hevent device hdevice hid
    have htime : (device.id, event.observedAt) ∈ database.committed.events.map deviceTime :=
      hid ▸ List.mem_map_of_mem hevent
    obtain ⟨hfirst, t, hlast, hle⟩ := hspanned.devices.spans hdevice htime
    exact ⟨hfirst, Option.some.inj hlast ▸ hle⟩
  sessionSpans := by
    intro event hevent session hsession hid
    have htime : (session.id, event.observedAt) ∈ database.committed.events.map sessionTime :=
      hid ▸ List.mem_map_of_mem hevent
    exact hspanned.sessions.spans hsession htime
  captureDevices := by
    intro capture hcapture
    obtain ⟨event, hevent, howner, -, hid⟩ := hintegral.capture hlinked hcapture
    obtain ⟨device, hdevice, hon⟩ := hintegral.linked.devices event hevent
    exact ⟨device, hdevice, hon.id.trans hid, hon.userId.trans howner⟩
  captureSessions := by
    intro capture hcapture
    obtain ⟨event, hevent, howner, hid, -⟩ := hintegral.capture hlinked hcapture
    obtain ⟨session, hsession, hof⟩ := hintegral.linked.sessions event hevent
    exact ⟨session, hsession, hof.id.trans hid, hof.userId.trans howner⟩
  capturesLinked := hlinked

/-- However ingests interleave, wait for each other, fail and abort: what is committed is intact at every moment. -/
theorem Intact.along [Base64] (hstart : Intact start.committed) (hrest : start.transactions = [])
    (h : Reaches Database.step anyStep start database) : Intact database.committed := by
  have hspanned : Spanned database :=
    h.invariant (hstart.spanned hrest) fun _ _ _ hbefore _ hstep => hbefore.step (Database.stepped hstep)
  have hgathered : CapturesGathered start := ⟨hstart.capturesLinked, by simp [hrest]⟩
  have hlinked : CapturesGathered database :=
    h.invariant hgathered fun _ _ _ hbefore _ hstep => hbefore.step (Database.stepped hstep)
  exact .of_spanned (hstart.toIntegral.related_along hrest h).integral hspanned hlinked.1

theorem intact_none : Intact {} where
  toIntegral := integral_none
  deviceSpans := by simp
  sessionSpans := by simp
  captureDevices := by simp
  captureSessions := by simp
  capturesLinked := ⟨by simp, by simp⟩

end Tables

section Overlap

open Fixtures

local instance intactDigest : Sha256 := cargoDigest

local instance intactContent : Base64 := noContent

theorem Intact.after_overlap : overlapped.committed.events.map EventRow.observedAt = [1000000, 0] ∧
    overlapped.committed.sessions.map (fun session => (session.startedAt, session.endedAt)) = [(0, some 1000000)] ∧
    overlapped.committed.captures.length = 1 ∧ Intact overlapped.committed :=
  ⟨by decide +kernel, by decide +kernel, by decide +kernel, Intact.along intact_none rfl (reaches_run overlap_run)⟩

end Overlap

end AbyssBackend.Postgres
