import AbyssBackend.Postgres.Integrity

namespace AbyssBackend.Postgres

open Attachments Drafts Runs Storage Streams Text

/-- A link joins a capture to an event of its owner, in its session and on its device. -/
structure Joins (link : DiagnosticCaptureEvent) (capture : DiagnosticCapture) (event : EventRow) : Prop where
  capturePk : capture.id = link.capturePk
  eventPk : event.id = link.eventPk
  userId : event.userId = capture.userId
  sessionPk : event.sessionPk = capture.sessionPk
  deviceContextId : event.deviceContextId = capture.deviceContextId

/-- Every capture is linked, and to events of its own session alone. -/
structure CapturesLinked (tables : Tables) : Prop where
  links : ∀ link ∈ tables.captureEvents, ∃ capture ∈ tables.captures, ∃ event ∈ tables.events, Joins link capture event
  captures : ∀ capture ∈ tables.captures, ∃ link ∈ tables.captureEvents, link.capturePk = capture.id

/-- The events that a statement is to link are there, and of one session and device of the owner. -/
def Statement.Gathered (userId : Uuid) (captures : List DiagnosticCapture) (events : List EventRow) : Statement → Prop
  | .insertCapture _ _ first found => first ∈ found ∧ ∀ event ∈ found, event ∈ events ∧ event.userId = userId ∧
    event.sessionPk = first.sessionPk ∧ event.deviceContextId = first.deviceContextId
  | .insertCaptureEvents draw found => found ≠ [] ∧ ∃ capture ∈ captures, ∀ event ∈ found, event ∈ events ∧
    Joins ⟨draw.capturePk, event.id⟩ capture event
  | _ => True

/-- A transaction links its captures to events that it sees, or is yet to do so. -/
structure Transaction.Gathered (committed : Tables) (transaction : Transaction) : Prop where
  links : ∀ link ∈ transaction.own.captureEvents, ∃ capture ∈ transaction.own.captures,
    ∃ event ∈ (view committed transaction).events, Joins link capture event
  captures : ∀ capture ∈ transaction.own.captures,
    (∃ link ∈ transaction.own.captureEvents, link.capturePk = capture.id) ∨
      ∃ draw events, .insertCaptureEvents draw events ∈ transaction.todo ∧ draw.capturePk = capture.id
  todo : ∀ statement ∈ transaction.todo,
    statement.Gathered transaction.userId transaction.own.captures (view committed transaction).events

section Statements

variable {others : List Tables} {committed committed' : Tables} {before after transaction : Transaction}
  {statement : Statement} {userId : Uuid} {captures captures' : List DiagnosticCapture} {events events' : List EventRow}

theorem Statement.Gathered.mono (h : statement.Gathered userId captures events)
    (hcaptures : ∀ capture ∈ captures, capture ∈ captures') (hevents : ∀ event ∈ events, event ∈ events') :
    statement.Gathered userId captures' events' := by
  cases statement with
  | insertCapture capture draw first found =>
    exact ⟨h.1, fun event hevent => ⟨hevents event (h.2 event hevent).1, (h.2 event hevent).2⟩⟩
  | insertCaptureEvents draw found =>
    obtain ⟨hsome, capture, hcapture, hjoins⟩ := h
    exact ⟨hsome, capture, hcaptures capture hcapture, fun event hevent =>
      ⟨hevents event (hjoins event hevent).1, (hjoins event hevent).2⟩⟩
  | _ => trivial

/-- What others commit takes no event away. -/
theorem Transaction.Gathered.mono (h : transaction.Gathered committed)
    (hevents : ∀ event ∈ committed.events, event ∈ committed'.events) : transaction.Gathered committed' := by
  have hview : ∀ event ∈ (view committed transaction).events, event ∈ (view committed' transaction).events := by
    intro event hevent
    obtain hold | hown := List.mem_append.mp hevent
    · exact List.mem_append_left _ (hevents event hold)
    · exact List.mem_append_right _ hown
  refine ⟨fun link hlink => ?_, h.captures, fun statement hstatement => ?_⟩
  · obtain ⟨capture, hcapture, event, hevent, hjoins⟩ := h.links link hlink
    exact ⟨capture, hcapture, event, hview event hevent, hjoins⟩
  · exact (h.todo statement hstatement).mono (fun _ hcapture => hcapture) hview

theorem selectCaptureEvents_found {capture : IngestDiagnosticCapture} {found : EventRow × List EventRow}
    (h : selectCaptureEvents committed before capture = some found) :
    found.1 ∈ found.2 ∧ ∀ event ∈ found.2, event ∈ (view committed before).events ∧ event.userId = before.userId ∧
      event.sessionPk = found.1.sessionPk ∧ event.deviceContextId = found.1.deviceContextId := by
  unfold selectCaptureEvents at h
  dsimp only at h
  split at h
  · cases h
  · split at h
    · cases h
    · next first hfirst =>
      split at h
      · cases h
      · next hsame =>
        cases h
        refine ⟨List.mem_of_head? hfirst, fun event hevent => ?_⟩
        obtain ⟨hmem, hnamed⟩ := List.mem_filter.mp hevent
        have hsame := List.any_eq_false.mp (Bool.eq_false_iff.mpr hsame) event hevent
        simp only [Bool.or_eq_true, bne_iff_ne, not_or, not_not] at hsame
        exact ⟨hmem, beq_iff_eq.mp (Bool.and_eq_true_iff.mp hnamed).1, hsame.1, hsame.2⟩

/-- A statement that leaves captures and links alone leaves them gathered. -/
theorem Transaction.Gathered.keep
    (hgathered : Transaction.Gathered committed { before with todo := statement :: before.todo })
    (hevents : ∀ event ∈ (view committed before).events, event ∈ (view committed after).events)
    (hkept : ∀ other ∈ before.todo, other ∈ after.todo)
    (huser : after.userId = before.userId) (hcaptures : after.own.captures = before.own.captures)
    (hlinks : after.own.captureEvents = before.own.captureEvents)
    (hne : ∀ draw events, statement ≠ .insertCaptureEvents draw events)
    (htodo : ∀ other ∈ after.todo, other ∈ before.todo ∨
      other.Gathered before.userId before.own.captures (view committed before).events) : after.Gathered committed := by
  refine ⟨fun link hlink => ?_, fun capture hcapture => ?_, fun other hother => ?_⟩
  · rw [hlinks] at hlink
    rw [hcaptures]
    obtain ⟨capture, hcapture, event, hevent, hjoins⟩ := hgathered.links link hlink
    exact ⟨capture, hcapture, event, hevents event hevent, hjoins⟩
  · rw [hlinks]
    rw [hcaptures] at hcapture
    refine (hgathered.captures capture hcapture).imp_right ?_
    rintro ⟨draw, events, hmem, hpk⟩
    obtain hhead | hrest := List.mem_cons.mp hmem
    · exact absurd hhead.symm (hne draw events)
    · exact ⟨draw, events, hkept _ hrest, hpk⟩
  · rw [huser, hcaptures]
    refine Statement.Gathered.mono ?_ (fun _ hcapture => hcapture) hevents
    obtain hrest | hnew := htodo other hother
    · exact hgathered.todo other (List.mem_cons_of_mem _ hrest)
    · exact hnew

variable [Sha256]

theorem Execution.viewEvents (h : Execution others committed before statement after) :
    ∀ event ∈ (view committed before).events, event ∈ (view committed after).events := by
  intro event hevent
  cases h with
  | inserted deviceId sessionPk delivery hrow =>
    obtain hold | hown := List.mem_append.mp hevent
    · exact List.mem_append_left _ hold
    · exact List.mem_append_right _ (List.mem_append_left _ hown)
  | _ => exact hevent

theorem Execution.gathered (h : Execution others committed before statement after)
    (hgathered : Transaction.Gathered committed { before with todo := statement :: before.todo }) :
    after.Gathered committed := by
  have hcons : ∀ {new : Statement}, new.Gathered before.userId before.own.captures (view committed before).events →
      ∀ other ∈ new :: before.todo, other ∈ before.todo ∨
        other.Gathered before.userId before.own.captures (view committed before).events := by
    intro new hnew other hother
    obtain rfl | hrest := List.mem_cons.mp hother
    · exact Or.inr hnew
    · exact Or.inl hrest
  have hstatement := hgathered.todo statement List.mem_cons_self
  have hevents := h.viewEvents
  have hkept := h.todo
  cases h with
  | capture capture draw first events hrow =>
    refine ⟨fun link hlink => ?_, fun other hother => ?_, fun other hother => ?_⟩
    · obtain ⟨known, hknown, event, hevent, hjoins⟩ := hgathered.links link hlink
      exact ⟨known, List.mem_append_left _ hknown, event, hevent, hjoins⟩
    · obtain hold | hnew := List.mem_append.mp hother
      · refine (hgathered.captures other hold).imp_right ?_
        rintro ⟨draw', events', hmem, hpk⟩
        obtain hhead | hrest := List.mem_cons.mp hmem
        · cases hhead
        · exact ⟨draw', events', List.mem_cons_of_mem _ hrest, hpk⟩
      · obtain rfl := List.mem_singleton.mp hnew
        exact Or.inr ⟨draw, events, List.mem_cons_self, rfl⟩
    · obtain rfl | hrest := List.mem_cons.mp hother
      · obtain ⟨hfirst, hfound⟩ := hstatement
        refine ⟨List.ne_nil_of_mem hfirst, _, List.mem_append_right _ (List.mem_singleton_self _),
          fun event hevent => ?_⟩
        obtain ⟨hmem, huser, hsession, hdevice⟩ := hfound event hevent
        exact ⟨hmem, rfl, rfl, huser, hsession, hdevice⟩
      · exact (hgathered.todo other (List.mem_cons_of_mem _ hrest)).mono
          (fun _ hcapture => List.mem_append_left _ hcapture) fun _ hevent => hevent
  | links draw events hnodup hunused =>
    obtain ⟨hsome, capture, hcapture, hjoins⟩ := hstatement
    refine ⟨fun link hlink => ?_, fun other hother => ?_, fun other hother => ?_⟩
    · obtain hold | hnew := List.mem_append.mp hlink
      · exact hgathered.links link hold
      · obtain ⟨event, hevent, rfl⟩ := List.mem_map.mp hnew
        exact ⟨capture, hcapture, event, hjoins event hevent⟩
    · obtain ⟨link, hlink, hpk⟩ | ⟨draw', events', hmem, hpk⟩ := hgathered.captures other hother
      · exact Or.inl ⟨link, List.mem_append_left _ hlink, hpk⟩
      · obtain hhead | hrest := List.mem_cons.mp hmem
        · obtain ⟨rfl, rfl⟩ := Statement.insertCaptureEvents.inj hhead
          obtain ⟨event, hevent⟩ := List.exists_mem_of_ne_nil _ hsome
          exact Or.inl ⟨_, List.mem_append_right _ (List.mem_map_of_mem hevent), hpk⟩
        · exact Or.inr ⟨draw', events', hrest, hpk⟩
    · exact hgathered.todo other (List.mem_cons_of_mem _ hother)
  | captured capture draw found hfound =>
    exact hgathered.keep hevents hkept rfl rfl rfl (fun _ _ => Statement.noConfusion)
      (hcons (selectCaptureEvents_found hfound))
  | inserted deviceId sessionPk delivery hrow =>
    refine hgathered.keep hevents hkept rfl rfl rfl (fun _ _ => Statement.noConfusion) fun other hother => ?_
    obtain hnew | hrest := List.mem_append.mp hother
    · right
      obtain hattachments | hmore := List.mem_append.mp hnew
      · split at hattachments
        · exact absurd hattachments List.not_mem_nil
        · obtain rfl := List.mem_singleton.mp hattachments
          trivial
      · simp only [List.mem_cons, List.not_mem_nil, or_false] at hmore
        obtain rfl | rfl | rfl := hmore <;> trivial
    · exact Or.inl hrest
  | selected | device | session =>
    exact hgathered.keep hevents hkept rfl rfl rfl (fun _ _ => Statement.noConfusion) (hcons trivial)
  | _ =>
    exact hgathered.keep hevents hkept rfl rfl rfl (fun _ _ => Statement.noConfusion) fun _ hother => Or.inl hother

end Statements

section Steps

variable [Sha256] {database start : Database} {index : ℕ} {transaction after : Transaction} {statement : Statement}
  {rest : List Statement}

theorem Transaction.Gathered.executed {others : List Tables} {committed : Tables}
    (h : transaction.Gathered committed) (htodo : transaction.todo = statement :: rest)
    (hexecution : Execution others committed { transaction with todo := rest } statement after) :
    after.Gathered committed := by
  cases transaction with
  | mk userId begunAt own todo deviceTimes sessionTimes running =>
    obtain rfl : todo = statement :: rest := htodo
    exact hexecution.gathered h

omit [Sha256] in
theorem gathered_ended (committed : Tables) (transaction : Transaction) : transaction.ended.Gathered committed :=
  ⟨by simp [Transaction.ended], by simp [Transaction.ended], by simp [Transaction.ended]⟩

omit [Sha256] in
theorem gathered_begun (committed : Tables) (userId : Uuid) (begunAt : ℤ) (request : IngestEventsRequest)
    (validatedAttachments : List (List ValidatedImageAttachment)) (draws : Draws) :
    Transaction.Gathered committed { userId, begunAt, todo := statements request validatedAttachments draws } := by
  refine ⟨by simp, by simp, fun statement hstatement => ?_⟩
  obtain hevents | hcaptures := List.mem_append.mp hstatement
  · obtain ⟨_, -, rfl⟩ := List.mem_map.mp hevents
    trivial
  · obtain ⟨_, -, rfl⟩ := List.mem_map.mp hcaptures
    trivial

omit [Sha256] in
/-- The rows of a transaction that has linked all its captures can be committed. -/
theorem CapturesLinked.over {committed : Tables} (h : CapturesLinked committed) (hown : transaction.Gathered committed)
    (htodo : transaction.todo = []) : CapturesLinked (transaction.own.over committed) := by
  refine ⟨fun link hlink => ?_, fun capture hcapture => ?_⟩
  · obtain hold | hnew := List.mem_append.mp hlink
    · obtain ⟨capture, hcapture, event, hevent, hjoins⟩ := h.links link hold
      exact ⟨capture, List.mem_append_left _ hcapture, event, List.mem_append_left _ hevent, hjoins⟩
    · obtain ⟨capture, hcapture, event, hevent, hjoins⟩ := hown.links link hnew
      exact ⟨capture, List.mem_append_right _ hcapture, event, hevent, hjoins⟩
  · obtain hold | hnew := List.mem_append.mp hcapture
    · obtain ⟨link, hlink, hpk⟩ := h.captures capture hold
      exact ⟨link, List.mem_append_left _ hlink, hpk⟩
    · obtain ⟨link, hlink, hpk⟩ | ⟨draw, events, howed, -⟩ := hown.captures capture hnew
      · exact ⟨link, List.mem_append_right _ hlink, hpk⟩
      · rw [htodo] at howed
        exact absurd howed List.not_mem_nil

/-- Committed captures are linked, and those of transactions are gathered. -/
def CapturesGathered (database : Database) : Prop :=
  CapturesLinked database.committed ∧ ∀ transaction ∈ database.transactions, transaction.Gathered database.committed

theorem CapturesGathered.step [Base64] {before after : Database} {action : IngestAction} (h : CapturesGathered before)
    (hstep : before.Stepped action after) : CapturesGathered after := by
  obtain ⟨hlinked, hgathered⟩ := h
  cases hstep with
  | begin request userId maxBatchSize draws begunAt validatedAttachments hvalid huser =>
    refine ⟨hlinked, fun transaction hmem => ?_⟩
    obtain hold | hnew := List.mem_append.mp hmem
    · exact hgathered transaction hold
    · obtain rfl := List.mem_singleton.mp hnew
      exact gathered_begun ..
  | statement index transaction after statement rest hget htodo hexecuted =>
    refine ⟨hlinked, fun other hmem => ?_⟩
    obtain hold | rfl := List.mem_or_eq_of_mem_set hmem
    · exact hgathered other hold
    · exact (hgathered transaction (List.mem_of_getElem? hget)).executed htodo (execution hexecuted)
  | commit index transaction hget hrunning htodo =>
    refine ⟨hlinked.over (hgathered transaction (List.mem_of_getElem? hget)) htodo, fun other hmem => ?_⟩
    obtain hold | rfl := List.mem_or_eq_of_mem_set hmem
    · exact (hgathered other hold).mono fun event hevent => List.mem_append_left _ hevent
    · exact gathered_ended _ transaction
  | abort index transaction hget hrunning =>
    refine ⟨hlinked, fun other hmem => ?_⟩
    obtain hold | rfl := List.mem_or_eq_of_mem_set hmem
    · exact hgathered other hold
    · exact gathered_ended _ transaction

/-- However ingests interleave, every committed capture is linked, and only to committed events of its owner, its
session and its device. -/
theorem captures_along [Base64] (hstart : CapturesLinked start.committed) (hrest : start.transactions = [])
    (h : Reaches Database.step anyStep start database) : CapturesLinked database.committed := by
  have hgathered : CapturesGathered start := ⟨hstart, by simp [hrest]⟩
  exact (h.invariant hgathered fun _ _ _ hbefore _ hstep => hbefore.step (Database.stepped hstep)).1

end Steps

section Overlap

open Fixtures

local instance linksDigest : Sha256 := cargoDigest

local instance linksContent : Base64 := noContent

theorem captures_after_overlap : overlapped.committed.captureEvents.length = 1 ∧ CapturesLinked overlapped.committed :=
  ⟨by decide +kernel, captures_along ⟨by simp [newDatabase], by simp [newDatabase]⟩ rfl (reaches_run overlap_run)⟩

end Overlap

end AbyssBackend.Postgres
