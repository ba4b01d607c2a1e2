import AbyssBackend.Search.Trigrams
import AbyssBackend.Storage.OwnSearches
import AbyssBackend.Storage.OwnSessions
import AbyssBackend.Storage.OwnTotals
import AbyssBackend.Storage.Replays

namespace AbyssBackend.Storage

open Attempts Search Streams Text

section Owner

variable [Sha256] [CaseMapping]

namespace Agree

variable {owner : Uuid} {store store' : Store}

theorem eventConversation (h : Agree owner store store') (eventPk : Uuid) (window : Window) :
    eventConversation store owner eventPk window = Storage.eventConversation store' owner eventPk window := by
  unfold Storage.eventConversation
  rw [h.usageEvent]

theorem structures (h : Agree owner store store') :
    Storage.sessionStructure store owner = Storage.sessionStructure store' owner :=
  funext h.sessionStructure

theorem locatedEvents (h : Agree owner store store') (query : RawEventsQuery) (defaultPageSize : ℤ) :
    SqliteFtsBackend.rawEvents store owner query defaultPageSize =
      SqliteFtsBackend.rawEvents store' owner query defaultPageSize := by
  unfold SqliteFtsBackend.rawEvents
  rw [h.rawEvents, h.structures]

theorem locatedEvent (h : Agree owner store store') (eventPk : Uuid) :
    SqliteFtsBackend.usageEvent store owner eventPk = SqliteFtsBackend.usageEvent store' owner eventPk := by
  unfold SqliteFtsBackend.usageEvent
  rw [h.usageEvent, h.structures]

theorem locatedSearch [TrigramIndex] (h : Agree owner store store') (query : SessionSearchQuery)
    (iteration iteration' : Iteration) : @SqliteFtsBackend.sessionSearch store _ _ iteration owner query =
      @SqliteFtsBackend.sessionSearch store' _ _ iteration' owner query := by
  unfold SqliteFtsBackend.sessionSearch
  rw [h.sessionSearch query iteration iteration', h.structures]

end Agree

variable [TrigramIndex] [TimeZones] [UserTexts]

/-- Every read answers the owner alike from both stores. -/
structure ReadsAlike (owner : Uuid) (iteration iteration' : Iteration) (store store' : Store) : Prop where
  rawEvents : ∀ query defaultPageSize, SqliteFtsBackend.rawEvents store owner query defaultPageSize =
    SqliteFtsBackend.rawEvents store' owner query defaultPageSize
  usageEvent : ∀ eventPk, SqliteFtsBackend.usageEvent store owner eventPk =
    SqliteFtsBackend.usageEvent store' owner eventPk
  imageAttachment : ∀ attachmentId, imageAttachment store owner attachmentId =
    imageAttachment store' owner attachmentId
  eventLocation : ∀ eventPk, eventLocation store owner eventPk = eventLocation store' owner eventPk
  eventConversation : ∀ eventPk window, eventConversation store owner eventPk window =
    eventConversation store' owner eventPk window
  sessionHeader : ∀ sessionPk, sessionHeader store owner sessionPk = sessionHeader store' owner sessionPk
  sessionStreams : ∀ sessionPk, sessionStreams store owner sessionPk = sessionStreams store' owner sessionPk
  sessionTurns : ∀ sessionPk, sessionTurns store owner sessionPk = sessionTurns store' owner sessionPk
  sessionSegment : ∀ sessionPk head window, sessionSegment store owner sessionPk head window =
    sessionSegment store' owner sessionPk head window
  listSessions : ∀ query, listSessions store owner query = listSessions store' owner query
  usageSummary : ∀ owners query defaultLimit, usageSummary store owners owner query defaultLimit =
    usageSummary store' owners owner query defaultLimit
  compare : ∀ query, compare store owner query = compare store' owner query
  sessionSearch : ∀ query, @SqliteFtsBackend.sessionSearch store _ _ iteration owner query =
    @SqliteFtsBackend.sessionSearch store' _ _ iteration' owner query
  searchInSession : ∀ sessionPk query, @searchInSession _ _ iteration owner sessionPk query store =
    @searchInSession _ _ iteration' owner sessionPk query store'

theorem Agree.reads {owner : Uuid} {store store' : Store} (h : Agree owner store store')
    (iteration iteration' : Iteration) : ReadsAlike owner iteration iteration' store store' where
  rawEvents := h.locatedEvents
  usageEvent := h.locatedEvent
  imageAttachment := h.imageAttachment
  eventLocation := h.eventLocation
  eventConversation := h.eventConversation
  sessionHeader := h.sessionHeader
  sessionStreams := h.sessionStreams
  sessionTurns := h.sessionTurns
  sessionSegment := h.sessionSegment
  listSessions := h.listSessions
  usageSummary := h.usageSummary
  compare := h.compare
  sessionSearch query := h.locatedSearch query iteration iteration'
  searchInSession _ query := h.searchInSession query iteration iteration'

section Foreign

omit [TimeZones] [UserTexts]

variable {owner : Uuid} {store : Store}

/-- The keys of another owner are not found. -/
structure ForeignUnfound (owner : Uuid) (iteration : Iteration) (store : Store) : Prop where
  sessions : ∀ session ∈ store.sessions, session.userId ≠ owner →
    sessionHeader store owner session.id = .error (sessionNotFound session.id) ∧
    sessionStreams store owner session.id = .error (sessionNotFound session.id) ∧
    sessionTurns store owner session.id = .error (sessionNotFound session.id) ∧
    (∀ head window, sessionSegment store owner session.id head window = .error (sessionNotFound session.id)) ∧
    ∀ query text, InSessionSearchQuery.validate query = .ok text →
      @searchInSession _ _ iteration owner session.id query store = .error (sessionNotFound session.id)
  events : ∀ event ∈ store.events, event.userId ≠ owner →
    SqliteFtsBackend.usageEvent store owner event.id =
      .error (.notFound s!"usage event not found: {uuidText event.id}") ∧
    eventLocation store owner event.id = .error (.notFound s!"event not found: {uuidText event.id}") ∧
    ∀ window, eventConversation store owner event.id window =
      .error (.notFound s!"usage event not found: {uuidText event.id}")
  attachments : ∀ row ∈ store.attachments, row.userId ≠ owner →
    imageAttachment store owner row.id = .error (.notFound s!"image attachment not found: {uuidText row.id}")

omit [Sha256] [CaseMapping] [TrigramIndex] in
theorem Hierarchy.foreignSession (h : Hierarchy store) {session : SessionRow} (hsession : session ∈ store.sessions)
    (howner : session.userId ≠ owner) : hasOwnSession store owner session.id = false := by
  rw [← Bool.not_eq_true]
  intro hown
  obtain ⟨other, hother, hid, hmine⟩ := exists_ownSession hown
  obtain rfl := List.inj_on_of_nodup_map h.sessionIds hother hsession hid
  exact howner hmine

omit [Sha256] [CaseMapping] [TrigramIndex] in
theorem find_foreign {α : Type} {key : α → ℕ} (user : α → ℕ) {rows : List α} (hkeys : (rows.map key).Nodup) {row : α}
    (hrow : row ∈ rows) (howner : user row ≠ owner) {p : α → Bool}
    (hp : ∀ other, p other = true → key other = key row ∧ user other = owner) : rows.find? p = none := by
  refine List.find?_eq_none.mpr fun other hother hpass => ?_
  obtain ⟨hkey, hmine⟩ := hp other hpass
  obtain rfl := List.inj_on_of_nodup_map hkeys hother hrow hkey
  exact howner hmine

theorem Sound.foreignUnfound (h : Sound store) (hapart : AttachmentsApart store) (iteration : Iteration) :
    ForeignUnfound owner iteration store := by
  constructor
  case sessions =>
    intro session hsession howner
    have hown := h.hierarchy.foreignSession hsession howner
    have hstructure : sessionStructure store owner session.id = .error (sessionNotFound session.id) := by
      rw [sessionStructure, hown]
      rfl
    refine ⟨?_, ?_, ?_, fun head window => ?_, fun query text hvalid => ?_⟩
    · rw [sessionHeader, hown]
      rfl
    · rw [sessionStreams, hstructure]
      rfl
    · rw [sessionTurns, hstructure]
      rfl
    · rw [sessionSegment, hstructure]
      rfl
    · rw [Storage.searchInSession, hvalid, hown]
      rfl
  case events =>
    intro event hevent howner
    have hfind := fun p => find_foreign EventRow.userId (p := p) h.hierarchy.eventPks hevent howner
    have husage : usageEvent store owner event.id =
        .error (.notFound s!"usage event not found: {uuidText event.id}") := by
      rw [usageEvent, hfind _ fun other hboth => by simpa using hboth]
    refine ⟨?_, ?_, fun window => ?_⟩
    · rw [SqliteFtsBackend.usageEvent, husage]
      rfl
    · rw [eventLocation, hfind _ fun other hboth => by simpa [and_comm] using hboth]
    · rw [eventConversation, husage]
      rfl
  case attachments =>
    intro row hrow howner
    rw [imageAttachment, find_foreign AttachmentRow.userId hapart.ids hrow howner fun other hboth => by
      simpa using hboth]

end Foreign

/-- What an owner reads does not depend on the rows of others, and their keys are not found. -/
theorem Reachable.confined [Base64] {owner : Uuid} {store store' : Store} (h : Reachable store)
    (h' : Reachable store') (hrows : (store.ownedBy owner).SameRows (store'.ownedBy owner))
    (iteration iteration' : Iteration) : ReadsAlike owner iteration iteration' store store' ∧
      ForeignUnfound owner iteration store ∧ ForeignUnfound owner iteration' store' := by
  have hagree : Agree owner store store' :=
    ⟨h.sound, h'.sound, h.counters, h'.counters, h.attachmentsApart, h'.attachmentsApart, hrows⟩
  exact ⟨hagree.reads iteration iteration', h.sound.foreignUnfound h.attachmentsApart iteration,
    h'.sound.foreignUnfound h'.attachmentsApart iteration'⟩

end Owner

section Batch

open Fixtures

local instance confinedDigest : Sha256 := cargoDigest

local instance confinedContent : Base64 := noContent

local instance confinedCase : CaseMapping := asciiCase

/-- An index that finds the rows which hold every string of its expression. -/
local instance confinedIndex : TrigramIndex where
  isMatch expression folded := (Quoting.parse expression.toList).any fun terms =>
    terms.all fun term => term <:+: folded.toList
  complete trigrams folded hne h := by
    rw [matchExpression_toList, Quoting.parse_joinAnd hne fun trigram hmem => (h trigram hmem).2.1]
    simpa using fun trigram hmem => (h trigram hmem).2.2

local instance confinedZones : TimeZones := utcZone

local instance confinedTexts : UserTexts := asciiTexts

abbrev givenOrder : Iteration where
  order _ items := items
  perm _ _ := .refl _

abbrev reversedOrder : Iteration where
  order _ items := items.reverse
  perm _ items := items.reverse_perm

def sharedStore : Store := afterIngest batch 1 10 (draws 100) { users := [1, 2] }

/-- The other owner's request, of the same text in a session of the same name. -/
def otherBatch : IngestEventsRequest where
  events := [event "f1" 3 .request [⟨"user", "cargo test", none, none⟩]]
  diagnosticCaptures := []

def otherStore : Store := afterIngest otherBatch 2 10 (draws 200) sharedStore

set_option maxRecDepth 4000 in
theorem confined_batch : sharedStore.events.length = 2 ∧ otherStore.events.length = 3 ∧
    ReadsAlike 1 givenOrder reversedOrder sharedStore otherStore ∧ ForeignUnfound 1 givenOrder sharedStore ∧
    ForeignUnfound 1 reversedOrder otherStore := by
  have hreachable : Reachable sharedStore := .ingest (.start [1, 2]) batch 1 10 (draws 100)
  have hreachable' : Reachable otherStore := .ingest hreachable otherBatch 2 10 (draws 200)
  have hrows : sharedStore.ownedBy 1 = otherStore.ownedBy 1 := rfl
  refine ⟨rfl, rfl, Reachable.confined hreachable hreachable' ?_ givenOrder reversedOrder⟩
  rw [hrows]
  exact ⟨.refl _, .refl _, .refl _, .refl _, .refl _, .refl _, .refl _, .refl _, .refl _, .refl _, .refl _, .refl _⟩

end Batch

end AbyssBackend.Storage
