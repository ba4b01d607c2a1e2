import AbyssBackend.Library.Runs
import AbyssBackend.Postgres.Database
import AbyssBackend.Postgres.Reads
import AbyssBackend.Storage.Hierarchy

namespace AbyssBackend.Postgres

open Attachments Drafts Runs Storage Streams Text

def deviceTime (event : EventRow) : Uuid × ℤ := (event.deviceContextId, event.observedAt)

def sessionTime (event : EventRow) : Uuid × ℤ := (event.sessionPk, event.observedAt)

def Transaction.devices (transaction : Transaction) : Draft DeviceRow Uuid ℤ :=
  ⟨transaction.own.devices, transaction.deviceTimes⟩

def Transaction.sessions (transaction : Transaction) : Draft SessionRow Uuid ℤ :=
  ⟨transaction.own.sessions, transaction.sessionTimes⟩

theorem Transaction.devices_seen (transaction : Transaction) :
    transaction.devices.seen = transaction.deviceTimes := rfl

theorem Transaction.sessions_seen (transaction : Transaction) :
    transaction.sessions.seen = transaction.sessionTimes := rfl

def DevicesHeld (devices : List DeviceRow) (events : List EventRow) (transactions : List Transaction) : Prop :=
  Held DeviceRow.id DeviceRow.key DeviceRow.firstSeenAt (fun row => some row.lastSeenAt) devices
    (events.map deviceTime) (drafts Transaction.devices transactions)

def SessionsHeld (sessions : List SessionRow) (events : List EventRow) (transactions : List Transaction) : Prop :=
  Held SessionRow.id SessionRow.key SessionRow.startedAt SessionRow.endedAt sessions
    (events.map sessionTime) (drafts Transaction.sessions transactions)

/-- The upserts before a statement have given the statement's device and session its time. -/
def Statement.Told (deviceTimes sessionTimes : List (Uuid × ℤ)) : Statement → Prop
  | .upsertSession deviceId delivery => (deviceId, delivery.observedAt) ∈ deviceTimes
  | .insertEvent deviceId sessionPk delivery =>
    (deviceId, delivery.observedAt) ∈ deviceTimes ∧ (sessionPk, delivery.observedAt) ∈ sessionTimes
  | _ => True

structure Transaction.Told (transaction : Transaction) : Prop where
  events : ∀ event ∈ transaction.own.events,
    deviceTime event ∈ transaction.deviceTimes ∧ sessionTime event ∈ transaction.sessionTimes
  todo : ∀ statement ∈ transaction.todo, statement.Told transaction.deviceTimes transaction.sessionTimes

structure Upheld (database : Database) : Prop where
  devices : DevicesHeld database.committed.devices database.committed.events database.transactions
  sessions : SessionsHeld database.committed.sessions database.committed.events database.transactions
  told : ∀ transaction ∈ database.transactions, transaction.Told

section Execute

variable {others : List Tables} {committed : Tables} {transaction after : Transaction} {statement : Statement}

/-- What a statement does to the hierarchy. -/
inductive Executed (others : List Tables) (committed : Tables) (before : Transaction) : Transaction → Prop
  | device (delivery : Delivery) (row : DeviceRow) (after : Transaction)
      (hrow : DeviceUpserted others committed before delivery row)
      (hdevices : after.devices = before.devices.put DeviceRow.id row delivery.observedAt)
      (hsessions : after.sessions = before.sessions) (hevents : after.own.events = before.own.events)
      (htodo : after.todo = .upsertSession row.id delivery :: before.todo) : Executed others committed before after
  | session (deviceId : Uuid) (delivery : Delivery) (row : SessionRow) (after : Transaction)
      (hrow : SessionUpserted others committed before deviceId delivery row)
      (hdevices : after.devices = before.devices)
      (hsessions : after.sessions = before.sessions.put SessionRow.id row delivery.observedAt)
      (hevents : after.own.events = before.own.events)
      (htodo : after.todo = .insertEvent deviceId row.id delivery :: before.todo)
      (htold : (deviceId, delivery.observedAt) ∈ before.deviceTimes) : Executed others committed before after
  | event (row : EventRow) (after : Transaction) (hdevices : after.devices = before.devices)
      (hsessions : after.sessions = before.sessions) (hevents : after.own.events = before.own.events ++ [row])
      (hdevice : deviceTime row ∈ before.deviceTimes) (hsession : sessionTime row ∈ before.sessionTimes)
      (htodo : ∀ statement ∈ after.todo, statement ∈ before.todo ∨ ∀ times times', statement.Told times times') :
      Executed others committed before after
  | other (after : Transaction) (hdevices : after.devices = before.devices)
      (hsessions : after.sessions = before.sessions) (hevents : after.own.events = before.own.events)
      (htodo : ∀ statement ∈ after.todo, statement ∈ before.todo ∨ ∀ times times', statement.Told times times') :
      Executed others committed before after

theorem executed [Sha256] (h : execute others committed transaction statement = some after)
    (htold : statement.Told transaction.deviceTimes transaction.sessionTimes) :
    Executed others committed transaction after := by
  have hkept : ∀ {transaction : Transaction}, ∀ statement ∈ transaction.todo,
      statement ∈ transaction.todo ∨ ∀ times times', statement.Told times times' := fun _ h => Or.inl h
  cases statement with
  | selectEvent delivery =>
    simp only [execute] at h
    split at h <;> cases h
    · exact .other _ rfl rfl rfl hkept
    · refine .other _ rfl rfl rfl fun statement hstatement => ?_
      obtain rfl | hrest := List.mem_cons.mp hstatement
      · exact Or.inr fun _ _ => trivial
      · exact Or.inl hrest
  | upsertDevice delivery =>
    obtain ⟨row, hrow, rfl⟩ := Option.map_eq_some_iff.mp h
    exact .device delivery row _ (upsertDevice_spec hrow) rfl rfl rfl rfl
  | upsertSession deviceId delivery =>
    obtain ⟨row, hrow, rfl⟩ := Option.map_eq_some_iff.mp h
    exact .session deviceId delivery row _ (upsertSession_spec hrow) rfl rfl rfl rfl htold
  | insertEvent deviceId sessionPk delivery =>
    obtain ⟨inserted, -, rfl⟩ := Option.map_eq_some_iff.mp h
    split
    · refine .event _ _ rfl rfl rfl htold.1 htold.2 fun statement hstatement => ?_
      obtain hnew | hrest := List.mem_append.mp hstatement
      · right
        intro times times'
        obtain hattachments | hmore := List.mem_append.mp hnew
        · split at hattachments
          · exact absurd hattachments List.not_mem_nil
          · obtain rfl := List.mem_singleton.mp hattachments
            trivial
        · simp only [List.mem_cons, List.not_mem_nil, or_false] at hmore
          obtain rfl | rfl | rfl := hmore <;> trivial
      · exact Or.inl hrest
    · exact .other _ rfl rfl rfl hkept
  | insertAttachments delivery =>
    simp only [execute] at h
    split at h <;> cases h
    exact .other _ rfl rfl rfl hkept
  | insertStreamFacts delivery =>
    simp only [execute] at h
    split at h <;> cases h
    exact .other _ rfl rfl rfl hkept
  | insertOutboxTask delivery =>
    simp only [execute] at h
    split at h <;> cases h
    exact .other _ rfl rfl rfl hkept
  | captureTitle sessionPk delivery =>
    obtain ⟨title, -, rfl⟩ := Option.map_eq_some_iff.mp h
    exact .other _ rfl rfl rfl hkept
  | selectCaptureEvents capture draw =>
    obtain ⟨found, -, rfl⟩ := Option.map_eq_some_iff.mp h
    refine .other _ rfl rfl rfl fun statement hstatement => ?_
    obtain rfl | hrest := List.mem_cons.mp hstatement
    · exact Or.inr fun _ _ => trivial
    · exact Or.inl hrest
  | insertCapture capture draw first events =>
    obtain ⟨inserted, -, rfl⟩ := Option.map_eq_some_iff.mp h
    split
    · refine .other _ rfl rfl rfl fun statement hstatement => ?_
      obtain rfl | hrest := List.mem_cons.mp hstatement
      · exact Or.inr fun _ _ => trivial
      · exact Or.inl hrest
    · exact .other _ rfl rfl rfl hkept
  | insertCaptureEvents draw events =>
    simp only [execute] at h
    split at h <;> cases h
    exact .other _ rfl rfl rfl hkept

theorem Statement.Told.mono {times times' more more' : List (Uuid × ℤ)} (h : statement.Told times times') :
    statement.Told (times ++ more) (times' ++ more') := by
  cases statement with
  | upsertSession deviceId delivery => exact List.mem_append_left _ h
  | insertEvent deviceId sessionPk delivery => exact ⟨List.mem_append_left _ h.1, List.mem_append_left _ h.2⟩
  | _ => trivial

theorem Executed.told (h : Executed others committed transaction after) (htold : transaction.Told) : after.Told := by
  cases h with
  | device delivery row after hrow hdevices hsessions hevents htodo =>
    obtain ⟨-, htimes⟩ := Draft.mk.inj hdevices
    obtain ⟨-, htimes'⟩ := Draft.mk.inj hsessions
    refine ⟨fun event hevent => ?_, fun statement hstatement => ?_⟩
    · rw [htimes, htimes']
      obtain ⟨hdevice, hsession⟩ := htold.events event (hevents ▸ hevent)
      exact ⟨List.mem_append_left _ hdevice, hsession⟩
    · rw [htimes, htimes']
      obtain rfl | hrest := List.mem_cons.mp (htodo ▸ hstatement)
      · exact List.mem_append_right _ (List.mem_singleton_self _)
      · have hkept : statement.Told (transaction.deviceTimes ++ [(row.id, delivery.observedAt)])
            (transaction.sessionTimes ++ []) := (htold.todo statement hrest).mono
        rwa [List.append_nil] at hkept
  | session deviceId delivery row after hrow hdevices hsessions hevents htodo hdevice =>
    obtain ⟨-, htimes⟩ := Draft.mk.inj hdevices
    obtain ⟨-, htimes'⟩ := Draft.mk.inj hsessions
    refine ⟨fun event hevent => ?_, fun statement hstatement => ?_⟩
    · rw [htimes, htimes']
      obtain ⟨hdevice, hsession⟩ := htold.events event (hevents ▸ hevent)
      exact ⟨hdevice, List.mem_append_left _ hsession⟩
    · rw [htimes, htimes']
      obtain rfl | hrest := List.mem_cons.mp (htodo ▸ hstatement)
      · exact ⟨hdevice, List.mem_append_right _ (List.mem_singleton_self _)⟩
      · have hkept : statement.Told (transaction.deviceTimes ++ [])
            (transaction.sessionTimes ++ [(row.id, delivery.observedAt)]) := (htold.todo statement hrest).mono
        rwa [List.append_nil] at hkept
  | event row after hdevices hsessions hevents hdevice hsession htodo =>
    obtain ⟨-, htimes⟩ := Draft.mk.inj hdevices
    obtain ⟨-, htimes'⟩ := Draft.mk.inj hsessions
    refine ⟨fun event hevent => ?_, fun statement hstatement => ?_⟩
    · rw [htimes, htimes']
      obtain hold | hnew := List.mem_append.mp (hevents ▸ hevent)
      · exact htold.events event hold
      · obtain rfl := List.mem_singleton.mp hnew
        exact ⟨hdevice, hsession⟩
    · rw [htimes, htimes']
      obtain hrest | hfree := htodo statement hstatement
      · exact htold.todo statement hrest
      · exact hfree _ _
  | other after hdevices hsessions hevents htodo =>
    obtain ⟨-, htimes⟩ := Draft.mk.inj hdevices
    obtain ⟨-, htimes'⟩ := Draft.mk.inj hsessions
    refine ⟨fun event hevent => ?_, fun statement hstatement => ?_⟩
    · rw [htimes, htimes']
      exact htold.events event (hevents ▸ hevent)
    · rw [htimes, htimes']
      obtain hrest | hfree := htodo statement hstatement
      · exact htold.todo statement hrest
      · exact hfree _ _

end Execute

section Step

variable {database : Database} {index : ℕ} {transaction after : Transaction}

theorem DevicesHeld.upserted {devices : List DeviceRow} {events : List EventRow}
    (h : DevicesHeld devices events database.transactions) (hget : database.transactions[index]? = some transaction)
    {committed : Tables} (hcommitted : committed.devices = devices) {before : Transaction} {delivery : Delivery}
    {row : DeviceRow} (hrow : DeviceUpserted (database.others index) committed before delivery row)
    (hbefore : before.own = transaction.own)
    (hdevices : after.devices = transaction.devices.put DeviceRow.id row delivery.observedAt) :
    DevicesHeld devices events (database.transactions.set index after) := by
  subst hcommitted
  have hdraft : drafts Transaction.devices database.transactions index = transaction.devices := drafts_get hget
  unfold DevicesHeld
  rw [drafts_set hget, hdevices, ← hdraft]
  cases hrow with
  | known existing hmem hothers =>
    refine h.seeKnown (f := seenDevice existing delivery.event delivery.observedAt delivery.draw) ?_
      (fun i hi => drafts_others (f := Draft.rows) (fun _ => rfl) rfl hothers hi) rfl rfl rfl ?_
    · rw [hdraft]
      rwa [view, hbefore] at hmem
    · intro t ht
      obtain rfl := Option.some.inj ht
      rfl
  | new hkey hothers hid =>
    rw [view, hbefore] at hkey
    rw [hbefore] at hid
    refine h.seeNew ?_ ?_ ?_ (fun i hi => drafts_others (f := Draft.rows) (fun _ => rfl) rfl hothers hi) rfl rfl
    · intro hmem
      obtain ⟨other, hother, hsame⟩ := List.mem_map.mp hmem
      exact hid committed (List.mem_cons_of_mem _ List.mem_cons_self) other hother hsame
    · intro i hmem
      obtain ⟨other, hother, hsame⟩ := List.mem_map.mp hmem
      exact drafts_all (f := Draft.rows) (fun _ => rfl) rfl hget hid i other hother hsame
    · rw [hdraft]
      exact hkey

theorem SessionsHeld.upserted {sessions : List SessionRow} {events : List EventRow}
    (h : SessionsHeld sessions events database.transactions) (hget : database.transactions[index]? = some transaction)
    {committed : Tables} (hcommitted : committed.sessions = sessions) {before : Transaction} {deviceId : Uuid}
    {delivery : Delivery} {row : SessionRow}
    (hrow : SessionUpserted (database.others index) committed before deviceId delivery row)
    (hbefore : before.own = transaction.own)
    (hsessions : after.sessions = transaction.sessions.put SessionRow.id row delivery.observedAt) :
    SessionsHeld sessions events (database.transactions.set index after) := by
  subst hcommitted
  have hdraft : drafts Transaction.sessions database.transactions index = transaction.sessions := drafts_get hget
  unfold SessionsHeld
  rw [drafts_set hget, hsessions, ← hdraft]
  cases hrow with
  | known existing hmem hothers =>
    refine h.seeKnown (f := seenSession existing deviceId delivery.event delivery.observedAt delivery.draw) ?_
      (fun i hi => drafts_others (f := Draft.rows) (fun _ => rfl) rfl hothers hi) rfl rfl rfl ?_
    · rw [hdraft]
      rwa [view, hbefore] at hmem
    · intro t ht
      simp only [seenSession, ht, Option.getD_some]
  | new hkey hothers hid =>
    rw [view, hbefore] at hkey
    rw [hbefore] at hid
    refine h.seeNew ?_ ?_ ?_ (fun i hi => drafts_others (f := Draft.rows) (fun _ => rfl) rfl hothers hi) rfl rfl
    · intro hmem
      obtain ⟨other, hother, hsame⟩ := List.mem_map.mp hmem
      exact hid committed (List.mem_cons_of_mem _ List.mem_cons_self) other hother hsame
    · intro i hmem
      obtain ⟨other, hother, hsame⟩ := List.mem_map.mp hmem
      exact drafts_all (f := Draft.rows) (fun _ => rfl) rfl hget hid i other hother hsame
    · rw [hdraft]
      exact hkey

/-- Whatever a commit gives up of the times its transaction told lies between times of events that are kept. -/
def Brackets (database : Database) : IngestAction → Prop
  | .commit index => ∀ transaction ∈ database.transactions[index]?,
    Bracketed ((database.committed.events ++ transaction.own.events).map deviceTime) transaction.deviceTimes ∧
      Bracketed ((database.committed.events ++ transaction.own.events).map sessionTime) transaction.sessionTimes
  | _ => True

instance (database : Database) : ∀ action, Decidable (Brackets database action)
  | .commit index => inferInstanceAs (Decidable (∀ transaction ∈ database.transactions[index]?,
      Bracketed ((database.committed.events ++ transaction.own.events).map deviceTime) transaction.deviceTimes ∧
        Bracketed ((database.committed.events ++ transaction.own.events).map sessionTime) transaction.sessionTimes))
  | .begin .. => .isTrue trivial
  | .statement _ => .isTrue trivial
  | .abort _ => .isTrue trivial

theorem DevicesHeld.executed
    (h : DevicesHeld database.committed.devices database.committed.events database.transactions)
    (hget : database.transactions[index]? = some transaction) {before : Transaction}
    (hexecuted : Executed (database.others index) database.committed before after)
    (hbefore : before.own = transaction.own) (htimes : before.deviceTimes = transaction.deviceTimes) :
    DevicesHeld database.committed.devices database.committed.events (database.transactions.set index after) := by
  have hdraft : before.devices = transaction.devices := by
    rw [Transaction.devices, hbefore, htimes, Transaction.devices]
  have hkept (hdevices : after.devices = before.devices) : DevicesHeld database.committed.devices
      database.committed.events (database.transactions.set index after) := by
    unfold DevicesHeld
    rw [drafts_same hget (hdevices.trans hdraft)]
    exact h
  cases hexecuted with
  | device delivery row after hrow hdevices => exact h.upserted hget rfl hrow hbefore (hdraft ▸ hdevices)
  | session deviceId delivery row after hrow hdevices => exact hkept hdevices
  | event row after hdevices => exact hkept hdevices
  | other after hdevices => exact hkept hdevices

theorem SessionsHeld.executed
    (h : SessionsHeld database.committed.sessions database.committed.events database.transactions)
    (hget : database.transactions[index]? = some transaction) {before : Transaction}
    (hexecuted : Executed (database.others index) database.committed before after)
    (hbefore : before.own = transaction.own) (htimes : before.sessionTimes = transaction.sessionTimes) :
    SessionsHeld database.committed.sessions database.committed.events (database.transactions.set index after) := by
  have hdraft : before.sessions = transaction.sessions := by
    rw [Transaction.sessions, hbefore, htimes, Transaction.sessions]
  have hkept (hsessions : after.sessions = before.sessions) : SessionsHeld database.committed.sessions
      database.committed.events (database.transactions.set index after) := by
    unfold SessionsHeld
    rw [drafts_same hget (hsessions.trans hdraft)]
    exact h
  cases hexecuted with
  | device delivery row after hrow hdevices hsessions => exact hkept hsessions
  | session deviceId delivery row after hrow hdevices hsessions =>
    exact h.upserted hget rfl hrow hbefore (hdraft ▸ hsessions)
  | event row after hdevices hsessions => exact hkept hsessions
  | other after hdevices hsessions => exact hkept hsessions

theorem DevicesHeld.committed {devices : List DeviceRow} {events : List EventRow} {transactions : List Transaction}
    (h : DevicesHeld devices events transactions) (hget : transactions[index]? = some transaction)
    (htold : transaction.Told)
    (hbracketed : Bracketed ((events ++ transaction.own.events).map deviceTime) transaction.deviceTimes) :
    DevicesHeld (overlay DeviceRow.id transaction.own.devices devices) (events ++ transaction.own.events)
      (transactions.set index transaction.ended) := by
  have hdraft : drafts Transaction.devices transactions index = transaction.devices := drafts_get hget
  have hkept : ∀ pair ∈ transaction.own.events.map deviceTime,
      pair ∈ (drafts Transaction.devices transactions index).seen := by
    intro pair hpair
    obtain ⟨event, hevent, rfl⟩ := List.mem_map.mp hpair
    rw [hdraft]
    exact (htold.events event hevent).1
  rw [List.map_append, ← Transaction.devices_seen, ← hdraft] at hbracketed
  have hcommit := h.commit hkept hbracketed
  rw [hdraft] at hcommit
  unfold DevicesHeld
  rw [drafts_set hget, List.map_append]
  exact hcommit

theorem SessionsHeld.committed {sessions : List SessionRow} {events : List EventRow} {transactions : List Transaction}
    (h : SessionsHeld sessions events transactions) (hget : transactions[index]? = some transaction)
    (htold : transaction.Told)
    (hbracketed : Bracketed ((events ++ transaction.own.events).map sessionTime) transaction.sessionTimes) :
    SessionsHeld (overlay SessionRow.id transaction.own.sessions sessions) (events ++ transaction.own.events)
      (transactions.set index transaction.ended) := by
  have hdraft : drafts Transaction.sessions transactions index = transaction.sessions := drafts_get hget
  have hkept : ∀ pair ∈ transaction.own.events.map sessionTime,
      pair ∈ (drafts Transaction.sessions transactions index).seen := by
    intro pair hpair
    obtain ⟨event, hevent, rfl⟩ := List.mem_map.mp hpair
    rw [hdraft]
    exact (htold.events event hevent).2
  rw [List.map_append, ← Transaction.sessions_seen, ← hdraft] at hbracketed
  have hcommit := h.commit hkept hbracketed
  rw [hdraft] at hcommit
  unfold SessionsHeld
  rw [drafts_set hget, List.map_append]
  exact hcommit

theorem Transaction.told_ended (transaction : Transaction) : transaction.ended.Told :=
  ⟨fun _ hevent => absurd hevent List.not_mem_nil, fun _ hstatement => absurd hstatement List.not_mem_nil⟩

theorem Transaction.told_begun (userId : Uuid) (begunAt : ℤ) (request : IngestEventsRequest)
    (validatedAttachments : List (List ValidatedImageAttachment)) (draws : Draws) :
    Transaction.Told { userId, begunAt, todo := statements request validatedAttachments draws } := by
  refine ⟨fun event hevent => absurd hevent List.not_mem_nil, fun statement hstatement => ?_⟩
  obtain hevents | hcaptures := List.mem_append.mp hstatement
  · obtain ⟨_, -, rfl⟩ := List.mem_map.mp hevents
    trivial
  · obtain ⟨_, -, rfl⟩ := List.mem_map.mp hcaptures
    trivial

/-- Whatever step is taken, every transaction tells the times of its events. -/
theorem told_step [Sha256] [Base64] {before after : Database} {action : IngestAction}
    (h : ∀ transaction ∈ before.transactions, transaction.Told) (hstep : before.Stepped action after) :
    ∀ transaction ∈ after.transactions, transaction.Told := by
  intro other hother
  cases hstep with
  | begin request userId maxBatchSize draws begunAt validatedAttachments hvalid huser =>
    obtain hold | hnew := List.mem_append.mp hother
    · exact h other hold
    · obtain rfl := List.mem_singleton.mp hnew
      exact Transaction.told_begun ..
  | statement index transaction after statement rest hget htodo hexecute =>
    have htold := h transaction (List.mem_of_getElem? hget)
    have hrest : Transaction.Told { transaction with todo := rest } :=
      ⟨htold.events, fun other hother => htold.todo other (htodo ▸ List.mem_cons_of_mem _ hother)⟩
    obtain hold | rfl := List.mem_or_eq_of_mem_set hother
    · exact h other hold
    · exact (executed hexecute (htold.todo statement (htodo ▸ List.mem_cons_self))).told hrest
  | commit index transaction hget hrunning htodo =>
    obtain hold | rfl := List.mem_or_eq_of_mem_set hother
    · exact h other hold
    · exact transaction.told_ended
  | abort index transaction hget hrunning =>
    obtain hold | rfl := List.mem_or_eq_of_mem_set hother
    · exact h other hold
    · exact transaction.told_ended

theorem Upheld.step [Sha256] [Base64] {before after : Database} {action : IngestAction} (h : Upheld before)
    (hbrackets : Brackets before action) (hstep : before.Stepped action after) : Upheld after := by
  have htold := told_step h.told hstep
  cases hstep with
  | begin request userId maxBatchSize draws begunAt validatedAttachments hvalid huser =>
    refine ⟨?_, ?_, htold⟩
    · unfold DevicesHeld
      rw [drafts_concat rfl]
      exact h.devices
    · unfold SessionsHeld
      rw [drafts_concat rfl]
      exact h.sessions
  | statement index transaction after statement rest hget htodo hexecute =>
    have hstatement := (h.told transaction (List.mem_of_getElem? hget)).todo statement (htodo ▸ List.mem_cons_self)
    have hexecuted := executed hexecute hstatement
    exact ⟨h.devices.executed hget hexecuted rfl rfl, h.sessions.executed hget hexecuted rfl rfl, htold⟩
  | commit index transaction hget hrunning htodo =>
    obtain ⟨hdevices, hsessions⟩ := hbrackets transaction hget
    have hevents := h.told transaction (List.mem_of_getElem? hget)
    exact ⟨h.devices.committed hget hevents hdevices, h.sessions.committed hget hevents hsessions, htold⟩
  | abort index transaction hget hrunning =>
    refine ⟨?_, ?_, htold⟩
    · unfold DevicesHeld
      rw [drafts_set hget]
      exact h.devices.drop index
    · unfold SessionsHeld
      rw [drafts_set hget]
      exact h.sessions.drop index

end Step

end AbyssBackend.Postgres
