import AbyssBackend.Library.Attempts
import AbyssBackend.Postgres.Spans
import AbyssBackend.Storage.Fixtures

namespace AbyssBackend.Postgres

open Attachments Attempts Drafts Extents Runs Sorting Storage Streams Text

section Reads

variable {tables : Tables}

theorem sessionStructure_found {session : SessionRow} (hsession : session ∈ tables.sessions) {event : EventRow}
    (hevent : event ∈ tables.events) (hof : event.sessionPk = session.id) :
    ∃ derived, sessionStructure tables session.userId session.id = .ok derived := by
  have hown : hasOwnSession tables.shared session.userId session.id = true :=
    hasOwnSession_of_mem hsession rfl
  exact ⟨_, (sessionStructure_shared ..).trans (sessionStructure_of_event hown hevent hof)⟩

theorem sessionHeader_found {session : SessionRow} (hsession : session ∈ tables.sessions) {event : EventRow}
    (hevent : event ∈ tables.events) (hof : event.sessionPk = session.id) :
    ∃ header, sessionHeader tables session.userId session.id = .ok header := by
  obtain ⟨found, hown⟩ := ownSession_of_mem hsession rfl
  have hmem : headerEvent event ∈ (eventsOf tables session.id).map headerEvent :=
    List.mem_map_of_mem (List.mem_filter.mpr ⟨hevent, beq_iff_eq.mpr hof⟩)
  obtain ⟨first, more, hevents⟩ := List.exists_cons_of_ne_nil (List.ne_nil_of_mem hmem)
  obtain ⟨derived, hderived⟩ := sessionStructure_found hsession hevent hof
  unfold sessionHeader
  rw [hown, hevents, hderived]
  exact ⟨_, rfl⟩

theorem activityRow_sessionPk {session : SessionRow} {device : DeviceRow} {row : SessionListRow}
    (h : activityRow tables session device = .ok row) : row.sessionPk = session.id := by
  obtain ⟨totalTokens, -, hrow⟩ := bind_eq_ok.mp h
  cases hrow
  rfl

theorem activityRow_error {session : SessionRow} {device : DeviceRow} {error : AppError}
    (h : activityRow tables session device = .error error) : error = .database .overflow := by
  obtain hsum | ⟨totalTokens, -, hrow⟩ := bind_eq_error.mp h
  · unfold bigint at hsum
    split at hsum <;> cases hsum
    rfl
  · cases hrow

theorem filtered_error {userId : Uuid} {query : ValidatedSessionListQuery} {error : AppError}
    (h : filtered tables userId query = .error error) : error = .database .overflow := by
  obtain hrows | ⟨activity, -, hrow⟩ := bind_eq_error.mp h
  · obtain ⟨⟨session, device⟩, -, hrow⟩ := mapM_error hrows
    exact activityRow_error hrow
  · cases hrow

theorem mem_filtered {userId : Uuid} {query : ValidatedSessionListQuery} {rows : List SessionListRow}
    (h : filtered tables userId query = .ok rows) {row : SessionListRow} (hrow : row ∈ rows) :
    ∃ session ∈ tables.sessions, session.userId = userId ∧ session.id = row.sessionPk := by
  obtain ⟨activity, hactivity, hrows⟩ := bind_eq_ok.mp h
  cases hrows
  obtain ⟨⟨session, device⟩, hmem, hactive⟩ := Rows.forall₂_mem_right (mapM_ok hactivity) (List.mem_filter.mp hrow).1
  obtain ⟨hsession, howner⟩ := mem_activeSessions hmem
  exact ⟨session, hsession, howner, (activityRow_sessionPk hactive).symm⟩

/-- Where every session has an event, the list of sessions fails only where a sum of counters overflows. -/
theorem listSessions_error (hevents : ∀ session ∈ tables.sessions, ∃ event ∈ tables.events,
    event.sessionPk = session.id) {userId : Uuid} {query : ValidatedSessionListQuery} {error : AppError}
    (h : listSessions tables userId query = .error error) : error = .database .overflow := by
  obtain hrows | ⟨rows, hrows, h⟩ := bind_eq_error.mp h
  · exact filtered_error hrows
  · obtain hturns | ⟨turns, -, h⟩ := bind_eq_error.mp h
    · obtain ⟨row, hrow, hderived⟩ := mapM_error hturns
      have hmem : row ∈ rows := mem_sortBy.mp (List.mem_of_mem_drop (List.mem_of_mem_take hrow))
      obtain ⟨session, hsession, rfl, hid⟩ := mem_filtered hrows hmem
      obtain ⟨event, hevent, hof⟩ := hevents session hsession
      obtain ⟨derived, hfound⟩ := sessionStructure_found hsession hevent hof
      rw [← hid, hfound] at hderived
      cases hderived
    · cases h

end Reads

/-- No hierarchy without its events: every device and session has an event, its times are those of its events, and
the reads of a session find it. -/
structure Evidenced (tables : Tables) : Prop where
  deviceEvents : ∀ device ∈ tables.devices, ∃ event ∈ tables.events, event.deviceContextId = device.id
  sessionEvents : ∀ session ∈ tables.sessions, ∃ event ∈ tables.events, event.sessionPk = session.id
  deviceSpans : DeviceSpans tables.devices tables.events
  sessionSpans : SessionSpans tables.sessions tables.events
  lists : ∀ userId query message, listSessions tables userId query ≠ .error (.notFound message)
  headers : ∀ session ∈ tables.sessions, ∀ message,
    sessionHeader tables session.userId session.id ≠ .error (.notFound message)

theorem evidenced_iff {tables : Tables} : Evidenced tables ↔
    DeviceSpans tables.devices tables.events ∧ SessionSpans tables.sessions tables.events := by
  constructor
  · exact fun h => ⟨h.deviceSpans, h.sessionSpans⟩
  · rintro ⟨hdevices, hsessions⟩
    have hsessionEvents : ∀ session ∈ tables.sessions, ∃ event ∈ tables.events, event.sessionPk = session.id := by
      intro session hsession
      obtain ⟨event, hevent, hof, -⟩ := (hsessions.least session hsession).1
      exact ⟨event, hevent, hof⟩
    refine ⟨fun device hdevice => ?_, hsessionEvents, hdevices, hsessions, fun userId query message h => ?_,
      fun session hsession message h => ?_⟩
    · obtain ⟨event, hevent, hof, -⟩ := (hdevices.least device hdevice).1
      exact ⟨event, hevent, hof⟩
    · cases listSessions_error hsessionEvents h
    · obtain ⟨event, hevent, hof⟩ := hsessionEvents session hsession
      obtain ⟨header, hheader⟩ := sessionHeader_found hsession hevent hof
      rw [hheader] at h
      cases h

section Spans

variable {ρ : Type} {id : ρ → Uuid} {first : ρ → ℤ} {last : ρ → Option ℤ} {ref : EventRow → Uuid} {rows : List ρ}
  {events : List EventRow}

theorem times_eq (k : Uuid) : times ref EventRow.observedAt events k =
    timesOf (events.map fun event => (ref event, event.observedAt)) k := by
  ext t
  simp [times, timesOf]

theorem spans_extents : Spans id first last ref EventRow.observedAt rows events ↔
    ∀ row ∈ rows, Extent first last (timesOf (events.map fun event => (ref event, event.observedAt)) (id row)) row := by
  constructor
  · intro h row hrow
    rw [← times_eq]
    exact ⟨h.least row hrow, h.greatest row hrow⟩
  · intro h
    refine ⟨fun row hrow => ?_, fun row hrow => ?_⟩
    · rw [times_eq]
      exact (h row hrow).least
    · rw [times_eq]
      exact (h row hrow).greatest

end Spans

theorem Upheld.evidenced {database : Database} (h : Upheld database) : Evidenced database.committed :=
  evidenced_iff.mpr ⟨spans_extents.mpr h.devices.extents, spans_extents.mpr h.sessions.extents⟩

/-- A database at rest, whose devices and sessions span the events that refer to them. -/
structure Settled (database : Database) : Prop where
  transactions : database.transactions = []
  deviceIds : (database.committed.devices.map DeviceRow.id).Nodup
  deviceKeys : (database.committed.devices.map DeviceRow.key).Nodup
  sessionIds : (database.committed.sessions.map SessionRow.id).Nodup
  sessionKeys : (database.committed.sessions.map SessionRow.key).Nodup
  deviceRefs : ∀ event ∈ database.committed.events, event.deviceContextId ∈ database.committed.devices.map DeviceRow.id
  sessionRefs : ∀ event ∈ database.committed.events, event.sessionPk ∈ database.committed.sessions.map SessionRow.id
  deviceSpans : DeviceSpans database.committed.devices database.committed.events
  sessionSpans : SessionSpans database.committed.sessions database.committed.events

theorem held_of_spans {ρ μ : Type} {id : ρ → Uuid} {key : ρ → μ} {first : ρ → ℤ} {last : ρ → Option ℤ}
    {ref : EventRow → Uuid} {rows : List ρ} {events : List EventRow} (hids : (rows.map id).Nodup)
    (hkeys : (rows.map key).Nodup) (hrefs : ∀ event ∈ events, ref event ∈ rows.map id)
    (hspans : Spans id first last ref EventRow.observedAt rows events) {drafts : ℕ → Draft ρ Uuid ℤ}
    (hdrafts : ∀ i, drafts i = .empty) :
    Held id key first last rows (events.map fun event => (ref event, event.observedAt)) drafts := by
  refine ⟨hids, hkeys, ?_, spans_extents.mp hspans, ?_, ?_, ?_, ?_, ?_, ?_⟩
  · intro k t hmem
    obtain ⟨event, hevent, hpair⟩ := List.mem_map.mp hmem
    obtain ⟨rfl, rfl⟩ := Prod.mk.inj hpair
    exact hrefs event hevent
  all_goals simp [hdrafts, Draft.empty]

theorem Settled.upheld {database : Database} (h : Settled database) : Upheld database := by
  have hdrafts : ∀ {ρ : Type} (draft : Transaction → Draft ρ Uuid ℤ) (i : ℕ),
      drafts draft database.transactions i = .empty := by
    intro ρ draft i
    rw [h.transactions]
    rfl
  refine ⟨held_of_spans h.deviceIds h.deviceKeys h.deviceRefs h.deviceSpans (hdrafts _),
    held_of_spans h.sessionIds h.sessionKeys h.sessionRefs h.sessionSpans (hdrafts _), ?_⟩
  rw [h.transactions]
  exact fun transaction hmem => absurd hmem List.not_mem_nil

section Runs

variable [Sha256] [Base64] {start database after : Database}

omit [Sha256] [Base64] in
theorem Upheld.devices_iff (h : Upheld database) {index : ℕ} {transaction : Transaction}
    (hget : database.transactions[index]? = some transaction) :
    DeviceSpans (overlay DeviceRow.id transaction.own.devices database.committed.devices)
        (database.committed.events ++ transaction.own.events) ↔
      Bracketed ((database.committed.events ++ transaction.own.events).map deviceTime) transaction.deviceTimes := by
  have htold := h.told transaction (List.mem_of_getElem? hget)
  have hdraft : drafts Transaction.devices database.transactions index = transaction.devices := drafts_get hget
  have hkept : ∀ pair ∈ transaction.own.events.map deviceTime,
      pair ∈ (drafts Transaction.devices database.transactions index).seen := by
    intro pair hpair
    obtain ⟨event, hevent, rfl⟩ := List.mem_map.mp hpair
    rw [hdraft]
    exact (htold.events event hevent).1
  have hiff := h.devices.bracketed_iff hkept
  rw [hdraft, ← List.map_append] at hiff
  exact spans_extents.trans hiff

omit [Sha256] [Base64] in
theorem Upheld.sessions_iff (h : Upheld database) {index : ℕ} {transaction : Transaction}
    (hget : database.transactions[index]? = some transaction) :
    SessionSpans (overlay SessionRow.id transaction.own.sessions database.committed.sessions)
        (database.committed.events ++ transaction.own.events) ↔
      Bracketed ((database.committed.events ++ transaction.own.events).map sessionTime) transaction.sessionTimes := by
  have htold := h.told transaction (List.mem_of_getElem? hget)
  have hdraft : drafts Transaction.sessions database.transactions index = transaction.sessions := drafts_get hget
  have hkept : ∀ pair ∈ transaction.own.events.map sessionTime,
      pair ∈ (drafts Transaction.sessions database.transactions index).seen := by
    intro pair hpair
    obtain ⟨event, hevent, rfl⟩ := List.mem_map.mp hpair
    rw [hdraft]
    exact (htold.events event hevent).2
  have hiff := h.sessions.bracketed_iff hkept
  rw [hdraft, ← List.map_append] at hiff
  exact spans_extents.trans hiff

/-- A step leaves a hierarchy with its events exactly where it gives up no time beyond those of its events. -/
theorem Upheld.evidenced_iff (h : Upheld database) {action : IngestAction} (hstep : database.Stepped action after) :
    Evidenced after.committed ↔ Brackets database action := by
  cases hstep with
  | commit index transaction hget hrunning htodo =>
    rw [Postgres.evidenced_iff, Brackets, hget]
    constructor
    · rintro ⟨hdevices, hsessions⟩ other hother
      obtain rfl := Option.some.inj hother
      exact ⟨(h.devices_iff hget).mp hdevices, (h.sessions_iff hget).mp hsessions⟩
    · intro hbrackets
      obtain ⟨hdevices, hsessions⟩ := hbrackets transaction rfl
      exact ⟨(h.devices_iff hget).mpr hdevices, (h.sessions_iff hget).mpr hsessions⟩
  | begin request userId maxBatchSize draws begunAt validatedAttachments hvalid huser =>
    exact iff_of_true h.evidenced trivial
  | statement index transaction after statement rest hget htodo hexecute => exact iff_of_true h.evidenced trivial
  | abort index transaction hget hrunning => exact iff_of_true h.evidenced trivial

theorem Settled.upheld_along (hstart : Settled start) (h : Reaches Database.step Brackets start database) :
    Upheld database :=
  h.invariant hstart.upheld fun _ _ _ hbefore hallowed hstep => hbefore.step hallowed (Database.stepped hstep)

/-- In every run of ingests whose commits give up no time beyond those of the events, no hierarchy is without its
events; and the next step keeps this exactly where it does so too. -/
theorem Settled.evidenced_along (hstart : Settled start) (h : Reaches Database.step Brackets start database) :
    Evidenced database.committed ∧ ∀ action after, database.step action = some after →
      (Evidenced after.committed ↔ Brackets database action) :=
  ⟨(hstart.upheld_along h).evidenced, fun _ _ hstep => (hstart.upheld_along h).evidenced_iff (Database.stepped hstep)⟩

end Runs

section Race

open Fixtures

local instance raceDigest : Sha256 := cargoDigest

local instance raceContent : Base64 := noContent

/-- One response, delivered in a session. -/
def delivered (sessionId : String) : IngestEventsRequest where
  events := [{ event "e1" 1 .response [] with sessionId, conversation := none }]
  diagnosticCaptures := []

def drawsFrom (first : ℕ) : Postgres.Draws where
  event := (Fixtures.draws first).event
  outboxId index := first + index
  capture := (Fixtures.draws first).capture

/-- Two ingests both look for the event's id before either inserts it. -/
def race (request other : IngestEventsRequest) : List IngestAction :=
  [.begin request 7 100 (drawsFrom 10) 0, .begin other 7 100 (drawsFrom 20) 0, .statement 1] ++
    List.replicate 7 (.statement 0) ++ [.commit 0] ++ List.replicate 3 (.statement 1) ++ [.commit 1]

def newDatabase : Database where
  users := [7]
  committed := {}

theorem newDatabase_settled : Settled newDatabase :=
  ⟨rfl, List.nodup_nil, List.nodup_nil, List.nodup_nil, List.nodup_nil, fun _ h => absurd h List.not_mem_nil,
    fun _ h => absurd h List.not_mem_nil, Extents.spans_nil, Extents.spans_nil⟩

def racedAlike : Database := (run Database.step Brackets (race (delivered "s") (delivered "s")) newDatabase).getD newDatabase

theorem Settled.evidenced_after_race : racedAlike.committed.events.length = 1 ∧ Evidenced racedAlike.committed ∧
    ∀ action after, racedAlike.step action = some after → (Evidenced after.committed ↔ Brackets racedAlike action) := by
  have hrun : run Database.step Brackets (race (delivered "s") (delivered "s")) newDatabase = some racedAlike := rfl
  exact ⟨rfl, Settled.evidenced_along newDatabase_settled (reaches_run hrun)⟩

def racedApart : Database :=
  (run Database.step anyStep (race (delivered "s") (delivered "t")) newDatabase).getD newDatabase

def firstPage : ValidatedSessionListQuery := ⟨none, none, [], [], [], 1, 20, 0⟩

/-- The second session is left without an event, and the list of sessions does not find it. -/
theorem race_orphans : Reaches Database.step anyStep newDatabase racedApart ∧
    racedApart.committed.sessions.map SessionRow.sessionId = ["s", "t"] ∧
    racedApart.committed.events.map EventRow.sessionId = ["s"] ∧
    listSessions racedApart.committed 7 firstPage = .error (sessionNotFound 21) ∧ ¬Evidenced racedApart.committed := by
  have hrun : run Database.step anyStep (race (delivered "s") (delivered "t")) newDatabase = some racedApart := rfl
  refine ⟨reaches_run hrun, rfl, rfl, rfl, fun h => ?_⟩
  have horphan : ¬∀ session ∈ racedApart.committed.sessions, ∃ event ∈ racedApart.committed.events,
      event.sessionPk = session.id := by decide
  exact horphan h.sessionEvents

end Race

end AbyssBackend.Postgres
