import AbyssBackend.Storage.Hits
import AbyssBackend.Storage.TokenTotals

namespace AbyssBackend.Storage

open Search Sorting Streams Tables Text

namespace Store

variable (store : Store) (owner : Uuid)

def ownsEvent (eventPk : Uuid) : Bool := store.events.any fun event => event.userId == owner && event.id == eventPk

def ownsText (textId : ℕ) : Bool := store.searchTexts.any fun text => text.userId == owner && text.id == textId

def ownsCapture (capturePk : Uuid) : Bool :=
  store.captures.any fun capture => capture.userId == owner && capture.id == capturePk

/-- The rows that belong to an owner: the owner's own, and those of the owner's events, texts and captures. -/
def ownedBy : Store where
  users := store.users.filter fun user => user == owner
  devices := store.devices.filter fun device => device.userId == owner
  sessions := store.sessions.filter fun session => session.userId == owner
  events := store.events.filter fun event => event.userId == owner
  streamFacts := store.streamFacts.filter fun row => store.ownsEvent owner row.eventPk
  attachments := store.attachments.filter fun row => row.userId == owner
  searchTexts := store.searchTexts.filter fun text => text.userId == owner
  searchTextsTrigram := store.searchTextsTrigram.filter fun row => store.ownsText owner row.rowid
  searchRefs := store.searchRefs.filter fun ref => store.ownsEvent owner ref.eventPk
  sessionTitles := store.sessionTitles.filter fun title => title.userId == owner
  captures := store.captures.filter fun capture => capture.userId == owner
  captureEvents := store.captureEvents.filter fun row => store.ownsCapture owner row.capturePk

/-- The tables have the same rows, in any order. -/
structure SameRows (store store' : Store) : Prop where
  users : store.users.Perm store'.users
  devices : store.devices.Perm store'.devices
  sessions : store.sessions.Perm store'.sessions
  events : store.events.Perm store'.events
  streamFacts : store.streamFacts.Perm store'.streamFacts
  attachments : store.attachments.Perm store'.attachments
  searchTexts : store.searchTexts.Perm store'.searchTexts
  searchTextsTrigram : store.searchTextsTrigram.Perm store'.searchTextsTrigram
  searchRefs : store.searchRefs.Perm store'.searchRefs
  sessionTitles : store.sessionTitles.Perm store'.sessionTitles
  captures : store.captures.Perm store'.captures
  captureEvents : store.captureEvents.Perm store'.captureEvents

end Store

section Owner

variable {store : Store} {owner sessionPk : Uuid} {event : EventRow}

theorem exists_ownSession (hown : hasOwnSession store owner sessionPk = true) :
    ∃ session ∈ store.sessions, session.id = sessionPk ∧ session.userId = owner := by
  obtain ⟨session, hsession, hboth⟩ := List.any_eq_true.mp hown
  rw [Bool.and_eq_true, beq_iff_eq, beq_iff_eq] at hboth
  exact ⟨session, hsession, hboth.2, hboth.1⟩

theorem Hierarchy.event_owner (h : Hierarchy store) (hown : hasOwnSession store owner sessionPk = true)
    (hevent : event ∈ store.events) (hof : event.sessionPk = sessionPk) : event.userId = owner := by
  obtain ⟨session, hsession, hid, howner⟩ := exists_ownSession hown
  obtain ⟨session', hsession', hof'⟩ := h.sessions event hevent
  have hsame : session'.id = session.id := hof'.id.trans (hof.trans hid.symm)
  obtain rfl := List.inj_on_of_nodup_map h.sessionIds hsession' hsession hsame
  exact hof'.userId.symm.trans howner

end Owner

variable [Sha256] [CaseMapping]

/-- Two stores that ingests lead to, with the same rows of an owner. -/
structure Agree (owner : Uuid) (store store' : Store) : Prop where
  sound : Sound store
  sound' : Sound store'
  counters : CountersKept store
  counters' : CountersKept store'
  apart : AttachmentsApart store
  apart' : AttachmentsApart store'
  rows : (store.ownedBy owner).SameRows (store'.ownedBy owner)

namespace Agree

variable {owner sessionPk : Uuid} {store store' : Store} {event : EventRow}

section Rows

theorem hasOwnSession (h : Agree owner store store') (sessionPk : Uuid) :
    hasOwnSession store owner sessionPk = Storage.hasOwnSession store' owner sessionPk := by
  apply Rows.any_perm (Rows.filter_perm_of h.rows.sessions ?_ ?_ fun _ _ _ => rfl)
  all_goals exact fun session _ hboth => (Bool.and_eq_true_iff.mp hboth).1

theorem mem_events (h : Agree owner store store') (hevent : event ∈ store.events) (howner : event.userId = owner) :
    event ∈ store'.events := by
  have hmem : event ∈ (store.ownedBy owner).events := List.mem_filter.mpr ⟨hevent, beq_iff_eq.mpr howner⟩
  exact (List.mem_filter.mp (h.rows.events.mem_iff.mp hmem)).1

theorem ownEvents (h : Agree owner store store') {p : EventRow → Bool}
    (hp : ∀ event, p event = true → event.userId = owner) :
    (store.events.filter p).Perm (store'.events.filter p) :=
  Rows.filter_perm_of h.rows.events (fun event _ hpass => beq_iff_eq.mpr (hp event hpass))
    (fun event _ hpass => beq_iff_eq.mpr (hp event hpass)) fun _ _ _ => rfl

theorem eventsOf (h : Agree owner store store') (hown : Storage.hasOwnSession store owner sessionPk = true) :
    (Storage.eventsOf store sessionPk).Perm (Storage.eventsOf store' sessionPk) := by
  have hown' := h.hasOwnSession sessionPk ▸ hown
  apply Rows.filter_perm_of h.rows.events ?_ ?_ fun _ _ _ => rfl
  · exact fun event hevent hof => beq_iff_eq.mpr
      (h.sound.hierarchy.event_owner hown hevent (beq_iff_eq.mp hof))
  · exact fun event hevent hof => beq_iff_eq.mpr
      (h.sound'.hierarchy.event_owner hown' hevent (beq_iff_eq.mp hof))

theorem facts (h : Agree owner store store') {p : StreamFactsRow → Bool} (hevent : event ∈ store.events)
    (howner : event.userId = owner) (hp : ∀ row, p row = true ↔ row.eventPk = event.id) :
    store.streamFacts.filter p = store'.streamFacts.filter p := by
  obtain ⟨row, hrow, hfacts⟩ := Rows.forall₂_mem_left h.sound.streamFacts hevent
  have hkeys := factsOf_pks h.sound.streamFacts ▸ h.sound.hierarchy.eventPks
  have hkeys' := factsOf_pks h.sound'.streamFacts ▸ h.sound'.hierarchy.eventPks
  have howns : store.ownsEvent owner row.eventPk = true :=
    List.any_eq_true.mpr ⟨event, hevent, by simp [howner, hfacts.eventPk]⟩
  have hkey : ∀ other, p other = true ↔ other.eventPk = row.eventPk := fun other => by rw [hp, hfacts.eventPk]
  obtain ⟨hone, hone'⟩ := Rows.filter_key_of h.rows.streamFacts hkeys hkeys' hrow howns hkey
  rw [hone, hone']

theorem factsOf (h : Agree owner store store') (hevent : event ∈ store.events) (howner : event.userId = owner) :
    factsOf store event.id = Storage.factsOf store' event.id :=
  Rows.leftJoin_congr (h.facts hevent howner fun _ => beq_iff_eq)

theorem devices (h : Agree owner store store') {device : DeviceRow} {p : DeviceRow → Bool}
    (hdevice : device ∈ store.devices) (howner : device.userId = owner)
    (hp : ∀ other, p other = true ↔ other.id = device.id) :
    store.devices.filter p = store'.devices.filter p := by
  obtain ⟨hone, hone'⟩ := Rows.filter_key_of h.rows.devices h.sound.hierarchy.deviceIds
    h.sound'.hierarchy.deviceIds hdevice (beq_iff_eq.mpr howner) hp
  rw [hone, hone']

theorem sessions (h : Agree owner store store') {session : SessionRow} {p : SessionRow → Bool}
    (hsession : session ∈ store.sessions) (howner : session.userId = owner)
    (hp : ∀ other, p other = true ↔ other.id = session.id) :
    store.sessions.filter p = store'.sessions.filter p := by
  obtain ⟨hone, hone'⟩ := Rows.filter_key_of h.rows.sessions h.sound.hierarchy.sessionIds
    h.sound'.hierarchy.sessionIds hsession (beq_iff_eq.mpr howner) hp
  rw [hone, hone']

end Rows

section Structure

theorem streamEvents (h : Agree owner store store') (hown : Storage.hasOwnSession store owner sessionPk = true) :
    streamEvents store sessionPk = Storage.streamEvents store' sessionPk := by
  have hinj : ∀ x ∈ Storage.eventsOf store' sessionPk, ∀ y ∈ Storage.eventsOf store' sessionPk,
      sessionOrder x = sessionOrder y → x = y := by
    intro x hx y hy hsame
    have hid : x.id = y.id := congrArg (fun order => (ofLex (ofLex order).2).2) hsame
    exact List.inj_on_of_nodup_map h.sound'.hierarchy.eventPks (List.mem_filter.mp hx).1 (List.mem_filter.mp hy).1 hid
  have hsorted : sortBy sessionOrder (Storage.eventsOf store sessionPk) =
      sortBy sessionOrder (Storage.eventsOf store' sessionPk) := sortBy_congr (h.eventsOf hown) hinj
  unfold Storage.streamEvents
  unfold Storage.eventsOf at hsorted
  rw [← hsorted]
  apply List.flatMap_congr
  intro event hevent
  obtain ⟨hmem, hof⟩ := List.mem_filter.mp (mem_sortBy.mp hevent)
  rw [h.factsOf hmem (h.sound.hierarchy.event_owner hown hmem (beq_iff_eq.mp hof))]

theorem sessionStructure (h : Agree owner store store') (sessionPk : Uuid) :
    sessionStructure store owner sessionPk = Storage.sessionStructure store' owner sessionPk := by
  unfold Storage.sessionStructure
  rw [← h.hasOwnSession]
  cases hown : Storage.hasOwnSession store owner sessionPk with
  | false => rfl
  | true => rw [h.streamEvents hown]

end Structure

section Title

theorem title (h : Agree owner store store') (hown : Storage.hasOwnSession store owner sessionPk = true) :
    title store sessionPk = Storage.title store' sessionPk := by
  obtain ⟨session, hsession, rfl, howner⟩ := exists_ownSession hown
  have hfind : Rows.find SessionRow.id session.id store.sessions = Rows.find SessionRow.id session.id store'.sessions :=
    Rows.find?_congr (h.sessions hsession howner fun _ => decide_eq_true_iff)
  have htitles : (store.sessionTitles.filter fun title =>
      title.sessionPk == session.id && title.userId == session.userId) = store'.sessionTitles.filter fun title =>
        title.sessionPk == session.id && title.userId == session.userId := by
    apply Rows.eq_of_perm
    · apply Rows.filter_perm_of h.rows.sessionTitles ?_ ?_ fun _ _ _ => rfl
      all_goals
        intro title _ hboth
        rw [← howner]
        exact (Bool.and_eq_true_iff.mp hboth).2
    · apply Rows.filter_length_le_one h.sound.titles.sessions
      exact fun title _ hboth => beq_iff_eq.mp (Bool.and_eq_true_iff.mp hboth).1
  have hevents : ∀ eventPk : Option Uuid, (store.events.filter fun event => some event.id == eventPk &&
      event.sessionPk == session.id && event.eventType == "request") = store'.events.filter fun event =>
        some event.id == eventPk && event.sessionPk == session.id && event.eventType == "request" := by
    intro eventPk
    apply Rows.eq_of_perm
    · have hown' := h.hasOwnSession session.id ▸ hown
      apply Rows.filter_perm_of h.rows.events ?_ ?_ fun _ _ _ => rfl
      all_goals
        intro event hevent hall
        simp only [Bool.and_eq_true, beq_iff_eq] at hall
      · exact beq_iff_eq.mpr (h.sound.hierarchy.event_owner hown hevent hall.1.2)
      · exact beq_iff_eq.mpr (h.sound'.hierarchy.event_owner hown' hevent hall.1.2)
    · have hpks : (store.events.map fun event => some event.id).Nodup := by
        have hmap := h.sound.hierarchy.eventPks.map (Option.some_injective Uuid)
        rwa [List.map_map] at hmap
      apply Rows.filter_length_le_one hpks (k := eventPk)
      intro event _ hall
      simp only [Bool.and_eq_true, beq_iff_eq] at hall
      exact hall.1.1
  unfold Storage.title
  rw [← hfind, Rows.find_of_mem h.sound.hierarchy.sessionIds hsession]
  simp only [Option.bind_eq_bind, Option.bind_some]
  rw [← Rows.find?_congr htitles]
  apply Option.bind_congr
  intro title _
  rw [← Rows.find?_congr (hevents title.titleEventPk)]
  cases hfound : store.events.find? fun event => some event.id == title.titleEventPk &&
      event.sessionPk == session.id && event.eventType == "request" with
  | none =>
    have hfacts : (store.streamFacts.filter fun row => some row.eventPk == (none : Option EventRow).map EventRow.id) =
        store'.streamFacts.filter fun row => some row.eventPk == (none : Option EventRow).map EventRow.id := by simp
    rw [Rows.find?_congr hfacts]
  | some event =>
    have hmem := List.mem_of_find?_eq_some hfound
    have hall := List.find?_some hfound
    simp only [Bool.and_eq_true, beq_iff_eq] at hall
    have hfacts := h.facts (p := fun row => some row.eventPk == (some event).map EventRow.id) hmem
      (h.sound.hierarchy.event_owner hown hmem hall.1.2) fun row => by simp
    rw [Rows.find?_congr hfacts]

end Title

end Agree

end AbyssBackend.Storage
