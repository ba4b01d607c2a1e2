import AbyssBackend.Storage.Fixtures
import AbyssBackend.Storage.Invariants

namespace AbyssBackend.Storage

open Conversation Extents Search Text

section Tables

variable [Sha256] [CaseMapping]

/-- No two texts of one owner's events have one SHA-256. -/
def Store.DigestsApart (store : Store) : Prop :=
  ∀ event ∈ store.events, ∀ piece ∈ pieces event.conversation,
    ∀ other ∈ store.events, ∀ piece' ∈ pieces other.conversation, event.userId = other.userId →
      Sha256.digest piece.text = Sha256.digest piece'.text → piece.text = piece'.text

instance (store : Store) : Decidable store.DigestsApart :=
  inferInstanceAs (Decidable (∀ event ∈ store.events, ∀ piece ∈ pieces event.conversation,
    ∀ other ∈ store.events, ∀ piece' ∈ pieces other.conversation, event.userId = other.userId →
      Sha256.digest piece.text = Sha256.digest piece'.text → piece.text = piece'.text))

structure RefKept (store : Store) (event : EventRow) (piece : Piece) (ref : SearchRef) (text : SearchText) :
    Prop where
  only : (store.searchRefs.filter fun ref => ref.place = (event.id, (piece.entryIndex : ℤ), piece.field.asStr)) = [ref]
  stored : text ∈ store.searchTexts
  textId : text.id = ref.textId
  owner : text.userId = event.userId
  exactly : text.text = piece.text

/-- What the tables say of each other after any ingests. -/
structure Kept (store : Store) : Prop where
  sessionTimes : ∀ session ∈ store.sessions,
    IsLeast (times EventRow.sessionPk EventRow.observedAt store.events session.id) session.startedAt ∧
      ∃ endedAt, session.endedAt = some endedAt ∧
        IsGreatest (times EventRow.sessionPk EventRow.observedAt store.events session.id) endedAt
  deviceTimes : ∀ device ∈ store.devices,
    IsLeast (times EventRow.deviceContextId EventRow.observedAt store.events device.id) device.firstSeenAt ∧
      IsGreatest (times EventRow.deviceContextId EventRow.observedAt store.events device.id) device.lastSeenAt
  titled : ∀ session ∈ store.sessions, session.id ∈ store.sessionTitles.map SessionTitle.sessionPk ↔
    ∃ event ∈ store.events, event.RequestOf session.id
  titleKeys : (store.sessionTitles.map SessionTitle.sessionPk).Nodup
  titles : ∀ title ∈ store.sessionTitles, ∃ event, Names store.events title event
  facts : ∀ event ∈ store.events, ∃ row, FactsOf event row ∧
    (store.streamFacts.filter fun row => row.eventPk = event.id) = [row]
  refs : ∀ event ∈ store.events,
    (store.searchRefs.filter fun ref => ref.eventPk = event.id).length = (pieces event.conversation).length ∧
      ∀ piece ∈ pieces event.conversation, ∃ ref text, RefKept store event piece ref text
  texts : ∀ owner text,
    (store.searchTexts.filter fun row => row.userId = owner ∧ row.text = text).length ≤ 1
  index : ∀ text ∈ store.searchTexts,
    (store.searchTextsTrigram.filter fun row => row.rowid = text.id) = [⟨text.id, fold text.text⟩]
  eventOwners : ∀ event ∈ store.events, ∃ session ∈ store.sessions,
    session.id = event.sessionPk ∧ session.userId = event.userId
  attachmentOwners : ∀ attachment ∈ store.attachments, ∃ event ∈ store.events, event.id = attachment.eventPk ∧
    ∃ session ∈ store.sessions, session.id = event.sessionPk ∧ session.userId = attachment.userId
  titleOwners : ∀ title ∈ store.sessionTitles, ∃ session ∈ store.sessions,
    session.id = title.sessionPk ∧ session.userId = title.userId
  refOwners : ∀ ref ∈ store.searchRefs, ∃ event ∈ store.events, event.id = ref.eventPk ∧
    ∃ session ∈ store.sessions, session.id = event.sessionPk ∧
      ∃ text ∈ store.searchTexts, text.id = ref.textId ∧ text.userId = session.userId

section Sound

variable {store : Store}

omit [CaseMapping] in
theorem FactsOf.eventPk {event : EventRow} {row : StreamFactsRow} (h : FactsOf event row) :
    row.eventPk = event.id := by
  obtain ⟨_, _, _, rfl⟩ := h
  simp only [StreamFactsRow.read]
  split <;> rfl

omit [CaseMapping] in
theorem factsOf_pks {events : List EventRow} {rows : List StreamFactsRow} (h : List.Forall₂ FactsOf events rows) :
    rows.map StreamFactsRow.eventPk = events.map EventRow.id := by
  induction h with
  | nil => rfl
  | cons hfacts _ ih => rw [List.map_cons, List.map_cons, hfacts.eventPk, ih]

theorem Sound.eventRefs (h : Sound store) {event : EventRow} (hevent : event ∈ store.events) :
    RefsOf store.searchTexts event (store.searchRefs.filter fun ref => ref.eventPk = event.id) := by
  obtain ⟨groups, hgroups, hrefs⟩ := h.index.refs
  have hown : ∀ event refs, RefsOf store.searchTexts event refs → ∀ ref ∈ refs, ref.eventPk = event.id := by
    intro event refs hof ref href
    obtain ⟨piece, -, hrefers⟩ := Rows.forall₂_mem_right hof href
    exact hrefers.eventPk
  obtain ⟨refs, hof, hfilter⟩ := Rows.filter_flatten hrefs hown h.hierarchy.eventPks hevent
  rwa [hgroups, hfilter]

theorem Sound.text_eq (h : Sound store) (hdigests : store.DigestsApart) {event : EventRow}
    (hevent : event ∈ store.events) {piece : Piece} (hpiece : piece ∈ pieces event.conversation) {text : SearchText}
    (htext : text ∈ store.searchTexts) (howner : text.userId = event.userId)
    (hdigest : text.sha256 = Sha256.digest piece.text) : text.text = piece.text := by
  obtain ⟨other, hother, huser, used, hused, heq⟩ := h.index.used text htext
  have hsame : Sha256.digest used.text = Sha256.digest piece.text := by
    rw [heq, ← h.index.indexed.digests text htext, hdigest]
  rw [← heq]
  exact hdigests other hother used hused event hevent piece hpiece (huser.trans howner) hsame

theorem Sound.ref_kept (h : Sound store) (hdigests : store.DigestsApart) {event : EventRow}
    (hevent : event ∈ store.events) {piece : Piece} (hpiece : piece ∈ pieces event.conversation) :
    ∃ ref text, RefKept store event piece ref text := by
  obtain ⟨ref, href, hrefers⟩ := Rows.forall₂_mem_left (h.eventRefs hevent) hpiece
  obtain ⟨text, htext, hid, howner, hdigest⟩ := hrefers.text
  have hplace : ref.place = (event.id, (piece.entryIndex : ℤ), piece.field.asStr) := by
    rw [SearchRef.place, hrefers.eventPk, hrefers.entryIndex, hrefers.field]
  refine ⟨ref, text, ?_, htext, hid, howner, h.text_eq hdigests hevent hpiece htext howner hdigest⟩
  rw [← hplace]
  exact Rows.filter_key h.index.places (List.mem_filter.mp href).1

theorem Sound.kept (h : Sound store) (hdigests : store.DigestsApart) : Kept store := by
  have hindexed := h.index.indexed
  have howner : ∀ event ∈ store.events, ∃ session ∈ store.sessions,
      session.id = event.sessionPk ∧ session.userId = event.userId := by
    intro event hevent
    obtain ⟨session, hsession, hof⟩ := h.hierarchy.sessions event hevent
    exact ⟨session, hsession, hof.id, hof.userId⟩
  constructor
  case sessionTimes =>
    intro session hsession
    exact ⟨h.hierarchy.sessionSpans.least session hsession, h.hierarchy.sessionSpans.greatest session hsession⟩
  case deviceTimes =>
    intro device hdevice
    obtain ⟨t, ht, hgreatest⟩ := h.hierarchy.deviceSpans.greatest device hdevice
    exact ⟨h.hierarchy.deviceSpans.least device hdevice, Option.some.inj ht ▸ hgreatest⟩
  case titled =>
    intro session _
    constructor
    · intro hmem
      obtain ⟨title, htitle, hkey⟩ := List.mem_map.mp hmem
      obtain ⟨event, hnames⟩ := h.titles.names title htitle
      exact ⟨event, hnames.mem, hkey ▸ hnames.request⟩
    · rintro ⟨event, hevent, hrequest, hkey⟩
      exact hkey ▸ h.titles.titled event hevent hrequest
  case titleKeys => exact h.titles.sessions
  case titles => exact h.titles.names
  case facts =>
    intro event hevent
    obtain ⟨row, hrow, hfacts⟩ := Rows.forall₂_mem_left h.streamFacts hevent
    refine ⟨row, hfacts, ?_⟩
    rw [← hfacts.eventPk]
    exact Rows.filter_key (factsOf_pks h.streamFacts ▸ h.hierarchy.eventPks) hrow
  case refs =>
    intro event hevent
    exact ⟨(h.eventRefs hevent).length_eq.symm, fun piece hpiece => h.ref_kept hdigests hevent hpiece⟩
  case texts =>
    intro owner text
    apply Rows.filter_length_le_one (k := (owner, Sha256.digest text)) hindexed.hashes
    intro row hrow hsame
    obtain ⟨huser, htext⟩ := of_decide_eq_true hsame
    rw [SearchText.hash, huser, hindexed.digests row hrow, htext]
  case index =>
    intro text htext
    have hrows : (store.searchTextsTrigram.map TrigramRow.rowid).Nodup := by
      rw [hindexed.trigram, List.map_map]
      exact hindexed.ids
    have hmem : trigramRow text ∈ store.searchTextsTrigram := hindexed.trigram ▸ List.mem_map_of_mem htext
    exact Rows.filter_key hrows hmem
  case eventOwners => exact howner
  case attachmentOwners =>
    intro attachment hattachment
    obtain ⟨event, hevent, hid, huser⟩ := h.attachments attachment hattachment
    obtain ⟨session, hsession, hof, hsessionUser⟩ := howner event hevent
    exact ⟨event, hevent, hid, session, hsession, hof, hsessionUser.trans huser⟩
  case titleOwners =>
    intro title htitle
    obtain ⟨event, hnames⟩ := h.titles.names title htitle
    obtain ⟨session, hsession, hof, hsessionUser⟩ := howner event hnames.mem
    exact ⟨session, hsession, hof.trans hnames.request.2, hsessionUser.trans hnames.userId.symm⟩
  case refOwners =>
    intro ref href
    obtain ⟨groups, hgroups, hrefs⟩ := h.index.refs
    obtain ⟨group, hgroup, hrefGroup⟩ := List.mem_flatten.mp (hgroups ▸ href)
    obtain ⟨event, hevent, hof⟩ := Rows.forall₂_mem_right hrefs hgroup
    obtain ⟨piece, -, hrefers⟩ := Rows.forall₂_mem_right hof hrefGroup
    obtain ⟨text, htext, hid, huser, -⟩ := hrefers.text
    obtain ⟨session, hsession, hsessionId, hsessionUser⟩ := howner event hevent
    exact ⟨event, hevent, hrefers.eventPk.symm, session, hsession, hsessionId, text, htext, hid,
      huser.trans hsessionUser.symm⟩

end Sound

variable [Base64]

theorem Reachable.tables_kept {store : Store} (h : Reachable store) (hdigests : store.DigestsApart) : Kept store :=
  h.sound.kept hdigests

end Tables

section Batch

open Fixtures

local instance keptDigest : Sha256 := cargoDigest

local instance keptContent : Base64 := noContent

local instance keptCase : CaseMapping := asciiCase

set_option maxRecDepth 2000 in
theorem kept_batch : Kept (afterIngest batch 1 10 (draws 100) { users := [1] }) :=
  Reachable.tables_kept (.ingest (.start [1]) batch 1 10 (draws 100)) (by decide)

end Batch

end AbyssBackend.Storage
