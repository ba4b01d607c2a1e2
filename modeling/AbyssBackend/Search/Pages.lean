import AbyssBackend.Search.HitOrder
import Mathlib.Data.Int.ConditionallyCompleteOrder
import Mathlib.Order.ConditionallyCompleteLattice.Basic

namespace AbyssBackend.Search

open Groups Sorting Tables

section Sessions

variable (hits : List SearchHit)

def hitsOf (sessionPk : Uuid) : List SearchHit := hits.filter fun hit => hit.sessionPk = sessionPk

def distinctEvents : ℕ := (hits.map SearchHit.eventPk).dedup.length

/-- Later matches first, then by session id and session key. -/
def sessionOrder (sessionPk : Uuid) : (WithBot ℤ)ᵒᵈ ×ₗ String ×ₗ ℕ :=
  toLex (OrderDual.toDual (latest ((hitsOf hits sessionPk).map SearchHit.observedAt)),
    toLex (((hitsOf hits sessionPk).head?.map SearchHit.sessionId).getD "", sessionPk))

/-- The sessions in the order of the pages, each with the counts of its hits. -/
structure Ordered (sessions : List RankedSession) : Prop where
  nodup : (sessions.map RankedSession.sessionPk).Nodup
  mem : ∀ pk, pk ∈ sessions.map RankedSession.sessionPk ↔ ∃ hit ∈ hits, hit.sessionPk = pk
  order : (sessions.map RankedSession.sessionPk).Pairwise fun x y => sessionOrder hits x < sessionOrder hits y
  matchCount : ∀ session ∈ sessions, session.matchCount = distinctEvents (hitsOf hits session.sessionPk)
  newMatchCount : ∀ session ∈ sessions,
    session.newMatchCount = distinctEvents ((hitsOf hits session.sessionPk).filter SearchHit.new)

end Sessions

section Events

variable {hits : List SearchHit}

def eventsOf (hits : List SearchHit) : List MatchingEvent := (matchingEvents hits).map matchingEvent

structure SearchHit.In (hit : SearchHit) (event : MatchingEvent) : Prop where
  eventPk : event.eventPk = hit.eventPk
  sessionPk : event.sessionPk = hit.sessionPk
  sessionId : event.sessionId = hit.sessionId
  observedAt : event.observedAt = hit.observedAt

theorem mem_eventsOf {event : MatchingEvent} : event ∈ eventsOf hits ↔ eventOfHits hits event.eventPk = some event := by
  rw [eventsOf, matchingEvents_eq, List.mem_filterMap]
  constructor
  · rintro ⟨eventPk, -, hevent⟩
    obtain ⟨members, -, rfl⟩ := Option.map_eq_some_iff.mp hevent
    exact hevent
  · intro hevent
    obtain ⟨members, hhits, -⟩ := Option.map_eq_some_iff.mp hevent
    obtain ⟨first, hfirst, -⟩ := Option.map_eq_some_iff.mp hhits
    obtain ⟨hmem, hpk⟩ := List.mem_filter.mp (List.mem_of_mem_head? hfirst)
    exact ⟨event.eventPk, mem_keys.mpr ⟨first, hmem, of_decide_eq_true hpk⟩, hevent⟩

theorem eventOfHits_new {eventPk : Uuid} {event : MatchingEvent} (h : eventOfHits hits eventPk = some event) :
    event.new = true ↔ ∃ hit ∈ hits, hit.eventPk = eventPk ∧ hit.new = true := by
  obtain ⟨members, hhits, rfl⟩ := Option.map_eq_some_iff.mp h
  obtain ⟨first, -, rfl⟩ := Option.map_eq_some_iff.mp hhits
  simp only [matchingEvent, EventHits.hasNew, List.any_map, List.any_eq_true, List.mem_filter, decide_eq_true_eq,
    and_assoc]
  rfl

theorem exists_hit {event : MatchingEvent} (h : event ∈ eventsOf hits) : ∃ hit ∈ hits, hit.In event := by
  obtain ⟨members, hhits, heq⟩ := Option.map_eq_some_iff.mp (mem_eventsOf.mp h)
  obtain ⟨first, hfirst, rfl⟩ := Option.map_eq_some_iff.mp hhits
  obtain ⟨hmem, hpk⟩ := List.mem_filter.mp (List.mem_of_mem_head? hfirst)
  have hpk : first.eventPk = event.eventPk := of_decide_eq_true hpk
  refine ⟨first, hmem, hpk.symm, ?_, ?_, ?_⟩ <;> rw [← heq] <;> rfl

theorem Consistent.exists_event (hconsistent : Consistent hits) {hit : SearchHit} (h : hit ∈ hits) :
    ∃ event ∈ eventsOf hits, hit.In event := by
  have hmem : hit ∈ hits.filter fun other => other.eventPk = hit.eventPk := List.mem_filter.mpr ⟨h, by simp⟩
  obtain ⟨first, rest, hcons⟩ := List.exists_cons_of_ne_nil (List.ne_nil_of_mem hmem)
  have hfirst : first ∈ hits.filter fun other => other.eventPk = hit.eventPk := by simp [hcons]
  obtain ⟨hfirstMem, hpk⟩ := List.mem_filter.mp hfirst
  have hpk : first.eventPk = hit.eventPk := of_decide_eq_true hpk
  obtain ⟨hsession, htime⟩ := hconsistent.event first hfirstMem hit h hpk
  have hid := hconsistent.session first hfirstMem hit h hsession
  obtain ⟨event, hevent⟩ : ∃ event, event = matchingEvent (hit.eventPk,
      ⟨first.sessionPk, first.sessionId, first.observedAt, (first :: rest).map SearchHit.piece⟩) := ⟨_, rfl⟩
  have hof : Search.eventOfHits hits event.eventPk = some event := by
    rw [hevent, matchingEvent, Search.eventOfHits, hcons]
    rfl
  refine ⟨event, mem_eventsOf.mpr hof, ?_⟩
  rw [hevent]
  exact ⟨rfl, hsession, hid, htime⟩

theorem Consistent.mem_ofSession (hconsistent : Consistent hits) {sessionPk : Uuid} {α : Type} (f : MatchingEvent → α)
    (g : SearchHit → α) (hsame : ∀ hit event, hit.In event → f event = g hit) (value : α) :
    value ∈ (ofSession (eventsOf hits) sessionPk).map f ↔ value ∈ (hitsOf hits sessionPk).map g := by
  simp only [List.mem_map, ofSession, hitsOf, List.mem_filter, decide_eq_true_eq]
  constructor
  · rintro ⟨event, ⟨hevent, hpk⟩, rfl⟩
    obtain ⟨hit, hhit, hin⟩ := exists_hit hevent
    exact ⟨hit, ⟨hhit, hin.sessionPk.symm.trans hpk⟩, (hsame hit event hin).symm⟩
  · rintro ⟨hit, ⟨hhit, hpk⟩, rfl⟩
    obtain ⟨event, hevent, hin⟩ := hconsistent.exists_event hhit
    exact ⟨event, ⟨hevent, hin.sessionPk.trans hpk⟩, hsame hit event hin⟩

theorem Consistent.pageRank_eq (hconsistent : Consistent hits) (sessionPk : Uuid) :
    pageRank (eventsOf hits) sessionPk = sessionOrder hits sessionPk := by
  have htimes : ((ofSession (eventsOf hits) sessionPk).map MatchingEvent.observedAt).max? =
      ((hitsOf hits sessionPk).map SearchHit.observedAt).max? :=
    max?_congr (hconsistent.mem_ofSession _ _ fun _ _ hin => hin.observedAt)
  have hids : ∀ id, id ∈ (ofSession (eventsOf hits) sessionPk).map MatchingEvent.sessionId ↔
      id ∈ (hitsOf hits sessionPk).map SearchHit.sessionId :=
    hconsistent.mem_ofSession _ _ fun _ _ hin => hin.sessionId
  have hid : (ofSession (eventsOf hits) sessionPk).head?.map MatchingEvent.sessionId =
      (hitsOf hits sessionPk).head?.map SearchHit.sessionId := by
    rw [← List.head?_map, ← List.head?_map]
    generalize (ofSession (eventsOf hits) sessionPk).map MatchingEvent.sessionId = ids at hids
    cases ids with
    | nil =>
      have hnil := List.eq_nil_iff_forall_not_mem.mpr fun id hid => List.not_mem_nil ((hids id).mpr hid)
      rw [hnil]
    | cons id ids =>
      -- a session has one id, so any of its hits gives it
      cases hhits : hitsOf hits sessionPk with
      | nil =>
        have hmem := (hids id).mp (by simp)
        simp [hhits] at hmem
      | cons first rest =>
        obtain ⟨hit, hhit, rfl⟩ := List.mem_map.mp ((hids id).mp (by simp))
        have hfirst : first ∈ hitsOf hits sessionPk := by simp [hhits]
        obtain ⟨hhitMem, hhitPk⟩ := List.mem_filter.mp hhit
        obtain ⟨hfirstMem, hfirstPk⟩ := List.mem_filter.mp hfirst
        have hsame := (of_decide_eq_true hhitPk).trans (of_decide_eq_true hfirstPk).symm
        simp [hconsistent.session hit hhitMem first hfirstMem hsame]
  simp only [pageRank, sessionOrder, latest, htimes, hid]

theorem eventsOf_keys (hits : List SearchHit) : ((eventsOf hits).map MatchingEvent.eventPk).Nodup := by
  rw [eventsOf, List.map_map]
  exact matchingEvents_keys hits

theorem ofSession_keys (hits : List SearchHit) (sessionPk : Uuid) :
    ((ofSession (eventsOf hits) sessionPk).map MatchingEvent.eventPk).Nodup :=
  (eventsOf_keys hits).sublist (List.filter_sublist.map _)

theorem length_distinctEvents {events : List MatchingEvent} {hits : List SearchHit}
    (hnodup : (events.map MatchingEvent.eventPk).Nodup)
    (hmem : ∀ pk, pk ∈ events.map MatchingEvent.eventPk ↔ pk ∈ hits.map SearchHit.eventPk) :
    events.length = distinctEvents hits := by
  have hperm : (events.map MatchingEvent.eventPk).Perm (hits.map SearchHit.eventPk).dedup :=
    (List.perm_ext_iff_of_nodup hnodup (List.nodup_dedup _)).mpr fun pk => by rw [hmem, List.mem_dedup]
  rw [distinctEvents, ← hperm.length_eq, List.length_map]

theorem Consistent.mem_new (hconsistent : Consistent hits) (sessionPk eventPk : Uuid) :
    eventPk ∈ ((ofSession (eventsOf hits) sessionPk).filter MatchingEvent.new).map MatchingEvent.eventPk ↔
      eventPk ∈ ((hitsOf hits sessionPk).filter SearchHit.new).map SearchHit.eventPk := by
  simp only [List.mem_map, ofSession, hitsOf, List.mem_filter, decide_eq_true_eq]
  constructor
  · rintro ⟨event, ⟨⟨hevent, hpk⟩, hnew⟩, rfl⟩
    obtain ⟨hit, hhit, hhitPk, hhitNew⟩ := (eventOfHits_new (mem_eventsOf.mp hevent)).mp hnew
    obtain ⟨other, hother, hin⟩ := exists_hit hevent
    have hsession := (hconsistent.event hit hhit other hother (hhitPk.trans hin.eventPk)).1
    exact ⟨hit, ⟨⟨hhit, hsession.trans (hin.sessionPk.symm.trans hpk)⟩, hhitNew⟩, hhitPk⟩
  · rintro ⟨hit, ⟨⟨hhit, hpk⟩, hnew⟩, rfl⟩
    obtain ⟨event, hevent, hin⟩ := hconsistent.exists_event hhit
    have heventNew := (eventOfHits_new (mem_eventsOf.mp hevent)).mpr ⟨hit, hhit, hin.eventPk.symm, hnew⟩
    exact ⟨event, ⟨⟨hevent, hin.sessionPk.trans hpk⟩, heventNew⟩, hin.eventPk⟩

def wholePage (hits : List SearchHit) : List RankedSession :=
  (pageSessions (eventsOf hits)).map (pageSession (eventsOf hits))

theorem wholePage_pks (hits : List SearchHit) :
    (wholePage hits).map RankedSession.sessionPk = pageSessions (eventsOf hits) := by
  rw [wholePage, List.map_map]
  exact List.map_id' _

theorem Consistent.wholePage_ordered (hconsistent : Consistent hits) : Ordered hits (wholePage hits) where
  nodup := by
    rw [wholePage_pks]
    exact (sortBy_perm _ _).nodup_iff.mpr (List.nodup_dedup _)
  mem pk := by
    rw [wholePage_pks, pageSessions, mem_sortBy, List.mem_dedup, List.mem_map]
    constructor
    · rintro ⟨event, hevent, rfl⟩
      obtain ⟨hit, hhit, hin⟩ := exists_hit hevent
      exact ⟨hit, hhit, hin.sessionPk.symm⟩
    · rintro ⟨hit, hhit, rfl⟩
      obtain ⟨event, hevent, hin⟩ := hconsistent.exists_event hhit
      exact ⟨event, hevent, hin.sessionPk⟩
  order := by
    have hnodup : (pageSessions (eventsOf hits)).Nodup := (sortBy_perm _ _).nodup_iff.mpr (List.nodup_dedup _)
    rw [wholePage_pks]
    refine ((sortBy_pairwise (pageRank (eventsOf hits)) _).and hnodup).imp fun {x y} h => ?_
    rw [← hconsistent.pageRank_eq, ← hconsistent.pageRank_eq]
    refine lt_of_le_of_ne h.1 fun heq => h.2 ?_
    exact congrArg (fun rank => (ofLex (ofLex rank).2).2) heq
  matchCount session hsession := by
    obtain ⟨pk, -, rfl⟩ := List.mem_map.mp hsession
    exact (sortBy_perm _ _).length_eq.trans
      (length_distinctEvents (ofSession_keys hits pk) (hconsistent.mem_ofSession _ _ fun _ _ hin => hin.eventPk))
  newMatchCount session hsession := by
    obtain ⟨pk, -, rfl⟩ := List.mem_map.mp hsession
    have hnodup : (((ofSession (eventsOf hits) pk).filter MatchingEvent.new).map MatchingEvent.eventPk).Nodup :=
      (ofSession_keys hits pk).sublist (List.filter_sublist.map _)
    exact ((sortBy_perm _ _).filter _).length_eq.trans (length_distinctEvents hnodup (hconsistent.mem_new pk))

theorem Consistent.rankSessions_whole (hconsistent : Consistent hits) (iteration : Iteration) {hits' : List SearchHit}
    (h : hits.Perm hits') (offset pageSize : ℕ) : @rankSessions iteration hits' offset pageSize =
      ⟨(wholePage hits).length, ((wholePage hits).drop offset).take pageSize⟩ := by
  rw [@rankSessions_eq _ iteration hits' (hconsistent.matchingEvents h).symm hconsistent.keyed, wholePage, List.length_map,
    ← List.map_drop, ← List.map_take]
  rfl

end Events

theorem take_pages {α : Type} (xs : List α) (pageSize pages : ℕ) :
    (List.range pages).flatMap (fun page => (xs.drop (page * pageSize)).take pageSize) =
      xs.take (pages * pageSize) := by
  induction pages with
  | zero => simp
  | succ pages ih => rw [List.range_succ, List.flatMap_append, ih, List.flatMap_singleton, Nat.succ_mul, List.take_add]

/-- Whatever order the hits and the hash maps give them in, the pages are the parts of one list of
the sessions with a hit, and the last of its pages is the one without more. -/
theorem Consistent.pages {hits : List SearchHit} (hconsistent : Consistent hits) :
    ∃ sessions, Ordered hits sessions ∧ ∀ _ : Iteration, ∀ hits', hits.Perm hits' →
      (∀ offset pageSize, rankSessions hits' offset pageSize =
        ⟨sessions.length, (sessions.drop offset).take pageSize⟩) ∧
      (∀ pageSize pages, (List.range pages).flatMap (fun page => (rankSessions hits' (page * pageSize) pageSize).sessions) =
        sessions.take (pages * pageSize)) ∧
      ∀ (raw : SessionSearchQuery) (query : ValidatedSearchQuery) (details : Table Uuid SessionDetails)
        (events : Table Uuid MatchedEvent) (fragments : Table ℕ SearchFragment), raw.validate = .ok query →
        (((rankSessions hits' query.offset query.pageSize).intoResponse query details events fragments).hasMore = true ↔
          sessions.drop (query.page * query.pageSize) ≠ []) := by
  refine ⟨wholePage hits, hconsistent.wholePage_ordered, fun iteration hits' h => ⟨?_, ?_, ?_⟩⟩
  · exact hconsistent.rankSessions_whole iteration h
  · intro pageSize pages
    simp only [hconsistent.rankSessions_whole iteration h]
    exact take_pages _ _ _
  · intro raw query details events fragments hvalid
    obtain ⟨-, hpage, hoffset⟩ := SessionSearchQuery.validate_ok hvalid
    have hend : query.offset + query.pageSize = query.page * query.pageSize := by
      obtain ⟨page, hsucc⟩ := Nat.exists_eq_succ_of_ne_zero hpage
      rw [hoffset, hsucc, Nat.succ_sub_one, Nat.succ_mul]
    rw [RankedPage.intoResponse, hconsistent.rankSessions_whole iteration h, hend, decide_eq_true_eq, ne_eq,
      List.drop_eq_nil_iff, not_le]

def twoHits : List SearchHit :=
  [⟨1, "s", 10, 100, 0, .text, 5, true⟩, ⟨2, "t", 11, 200, 1, .name, 6, false⟩]

theorem pages_twoHits :
    ∃ sessions, Ordered twoHits sessions ∧ ∀ _ : Iteration, ∀ hits', twoHits.Perm hits' →
      (∀ offset pageSize, rankSessions hits' offset pageSize =
        ⟨sessions.length, (sessions.drop offset).take pageSize⟩) ∧
      (∀ pageSize pages, (List.range pages).flatMap (fun page => (rankSessions hits' (page * pageSize) pageSize).sessions) =
        sessions.take (pages * pageSize)) ∧
      ∀ (raw : SessionSearchQuery) (query : ValidatedSearchQuery) (details : Table Uuid SessionDetails)
        (events : Table Uuid MatchedEvent) (fragments : Table ℕ SearchFragment), raw.validate = .ok query →
        (((rankSessions hits' query.offset query.pageSize).intoResponse query details events fragments).hasMore = true ↔
          sessions.drop (query.page * query.pageSize) ≠ []) :=
  Consistent.pages ⟨by decide, by decide, by decide⟩

end AbyssBackend.Search
