import AbyssBackend.Search.HitOrder

namespace AbyssBackend.Search

open Groups Sorting Tables

structure Found where
  eventPk : Uuid
  sessionPk : Uuid
  sessionId : String
  observedAt : DateTime
  new : Bool
deriving DecidableEq, Repr

structure FoundSession where
  sessionPk : Uuid
  matchCount : ℕ
  newMatchCount : ℕ
  shown : List (Uuid × Bool)
deriving DecidableEq, Repr

def Found.rank (found : Found) : ℤ ×ₗ ℕ := toLex (found.observedAt, found.eventPk)

section Page

variable (found : List Found)

def inSession (sessionPk : Uuid) : List Found := found.filter fun found => found.sessionPk = sessionPk

/-- Counts every matching event of the session; shows the earliest, new ones first. -/
def foundSession (sessionPk : Uuid) : FoundSession :=
  let events := sortBy Found.rank (inSession found sessionPk)
  { sessionPk
    matchCount := events.length
    newMatchCount := (events.filter Found.new).length
    shown := ((events.filter Found.new ++ events.filter fun found => !found.new).take matchesPerSession).map
      fun found => (found.eventPk, found.new) }

def foundRank (sessionPk : Uuid) : (WithBot ℤ)ᵒᵈ ×ₗ String ×ₗ ℕ :=
  let events := inSession found sessionPk
  toLex (OrderDual.toDual (latest (events.map Found.observedAt)),
    toLex ((events.head?.map Found.sessionId).getD "", sessionPk))

def foundSessions : List Uuid := sortBy (foundRank found) (found.map Found.sessionPk).dedup

def foundPage (offset pageSize : ℕ) : List FoundSession :=
  (((foundSessions found).drop offset).take pageSize).map (foundSession found)

end Page

def foundOf (event : Uuid × EventHits) : Found :=
  ⟨event.1, event.2.sessionPk, event.2.sessionId, event.2.observedAt, event.2.hasNew⟩

def RankedSession.shown (session : RankedSession) : FoundSession :=
  ⟨session.sessionPk, session.matchCount, session.newMatchCount,
    session.matches'.map fun ranked => (ranked.eventPk, ranked.new)⟩

def resultSession (item : SessionSearchResult) : FoundSession :=
  ⟨item.sessionPk, item.matchCount, item.newMatchCount, item.matches'.map fun shown => (shown.eventPk, shown.new)⟩

def MatchingEvent.found (event : MatchingEvent) : Found :=
  ⟨event.eventPk, event.sessionPk, event.sessionId, event.observedAt, event.new⟩

section Ranked

variable {found : List Found} {events : List MatchingEvent}

theorem ofSession_found (h : (events.map MatchingEvent.found).Perm found) (sessionPk : Uuid) :
    ((ofSession events sessionPk).map MatchingEvent.found).Perm (inSession found sessionPk) := by
  refine List.Perm.trans (List.Perm.of_eq ?_) (h.filter _)
  rw [ofSession, List.filter_map]
  rfl

theorem pageSession_shown (h : (events.map MatchingEvent.found).Perm found)
    (hkeys : (found.map Found.eventPk).Nodup) (sessionPk : Uuid) :
    (pageSession events sessionPk).shown = foundSession found sessionPk := by
  have hmap : (sortBy MatchingEvent.rank (ofSession events sessionPk)).map MatchingEvent.found =
      sortBy Found.rank ((ofSession events sessionPk).map MatchingEvent.found) := map_sortBy fun _ _ _ _ => Iff.rfl
  have hinj : ∀ x ∈ inSession found sessionPk, ∀ y ∈ inSession found sessionPk, x.rank = y.rank → x = y := by
    intro x hx y hy hrank
    have hpk : x.eventPk = y.eventPk := congrArg (fun rank => (ofLex rank).2) hrank
    exact List.inj_on_of_nodup_map hkeys (List.mem_filter.mp hx).1 (List.mem_filter.mp hy).1 hpk
  have hsort := hmap.trans (sortBy_congr (ofSession_found h sessionPk) hinj)
  simp only [pageSession, RankedSession.shown, foundSession, ← hsort, List.filter_map, ← List.map_append,
    ← List.map_take, List.map_map, List.length_map]
  rfl

theorem pageRank_found (h : (events.map MatchingEvent.found).Perm found)
    (hids : ∀ x ∈ found, ∀ y ∈ found, x.sessionPk = y.sessionPk → x.sessionId = y.sessionId) (sessionPk : Uuid) :
    pageRank events sessionPk = foundRank found sessionPk := by
  have hof := ofSession_found h sessionPk
  have htimes : ((ofSession events sessionPk).map MatchingEvent.observedAt).max? =
      ((inSession found sessionPk).map Found.observedAt).max? := by
    apply max?_congr
    intro time
    rw [← (hof.map Found.observedAt).mem_iff, List.map_map]
    rfl
  have hid : (ofSession events sessionPk).head?.map MatchingEvent.sessionId =
      (inSession found sessionPk).head?.map Found.sessionId := by
    rw [← head_congr hof fun x hx y hy => ?_, List.head?_map, Option.map_map]
    · rfl
    · obtain ⟨hx, hxpk⟩ := List.mem_filter.mp hx
      obtain ⟨hy, hypk⟩ := List.mem_filter.mp hy
      exact hids x hx y hy ((of_decide_eq_true hxpk).trans (of_decide_eq_true hypk).symm)
  simp only [pageRank, foundRank, latest, htimes, hid]

theorem pageSessions_found (h : (events.map MatchingEvent.found).Perm found)
    (hids : ∀ x ∈ found, ∀ y ∈ found, x.sessionPk = y.sessionPk → x.sessionId = y.sessionId) :
    pageSessions events = foundSessions found := by
  have hrank : pageRank events = foundRank found := funext (pageRank_found h hids)
  have hkeys : (events.map MatchingEvent.sessionPk).Perm (found.map Found.sessionPk) := by
    have hmap := h.map Found.sessionPk
    rw [List.map_map] at hmap
    exact hmap
  rw [pageSessions, foundSessions, hrank]
  apply sortBy_congr hkeys.dedup
  exact fun x _ y _ hxy => congrArg (fun rank => (ofLex (ofLex rank).2).2) hxy

theorem rankSessions_found [Iteration] {hits : List SearchHit} (h : ((matchingEvents hits).map foundOf).Perm found)
    (hkeys : (found.map Found.eventPk).Nodup)
    (hids : ∀ x ∈ found, ∀ y ∈ found, x.sessionPk = y.sessionPk → x.sessionId = y.sessionId) (offset pageSize : ℕ) :
    (rankSessions hits offset pageSize).totalSessions = (foundSessions found).length ∧
      (rankSessions hits offset pageSize).sessions.map RankedSession.shown = foundPage found offset pageSize := by
  have hfound : (((matchingEvents hits).map matchingEvent).map MatchingEvent.found).Perm found := by
    rw [List.map_map]
    exact h
  have hkeyed : Keyed ((matchingEvents hits).map matchingEvent) := by
    constructor
    · rw [List.map_map]
      exact matchingEvents_keys hits
    · intro x hx y hy hsame
      have hmem : ∀ event ∈ (matchingEvents hits).map matchingEvent, event.found ∈ found :=
        fun event hevent => hfound.mem_iff.mp (List.mem_map_of_mem hevent)
      exact hids _ (hmem x hx) _ (hmem y hy) hsame
  rw [rankSessions_eq (.refl _) hkeyed, pageSessions_found hfound hids]
  refine ⟨rfl, ?_⟩
  rw [List.map_map, foundPage]
  exact List.map_congr_left fun sessionPk _ => pageSession_shown hfound hkeys sessionPk

end Ranked

section Hits

variable {hits : List SearchHit} {found : List Found}

structure SearchHit.Of (hit : SearchHit) (found : Found) : Prop where
  eventPk : hit.eventPk = found.eventPk
  sessionPk : hit.sessionPk = found.sessionPk
  sessionId : hit.sessionId = found.sessionId
  observedAt : hit.observedAt = found.observedAt

/-- The matching events are those the hits are in, new where a hit is. -/
structure FoundIn (hits : List SearchHit) (found : List Found) : Prop where
  keys : (found.map Found.eventPk).Nodup
  of : ∀ hit ∈ hits, ∃ x ∈ found, hit.Of x
  hit : ∀ x ∈ found, ∃ hit ∈ hits, hit.eventPk = x.eventPk
  new : ∀ x ∈ found, x.new = true ↔ ∃ hit ∈ hits, hit.eventPk = x.eventPk ∧ hit.new = true

theorem FoundIn.group (h : FoundIn hits found) {eventPk : Uuid} {members : List SearchHit}
    (hgroup : (eventPk, members) ∈ groupBy SearchHit.eventPk hits) :
    ∃ event, EventHits.ofHits members = some event ∧ foundOf (eventPk, event) ∈ found := by
  obtain ⟨first, rest, rfl⟩ := List.exists_cons_of_ne_nil (group_ne_nil hgroup)
  obtain ⟨hmembers, -⟩ := mem_groupBy.mp hgroup
  have hmem : ∀ hit, hit ∈ first :: rest ↔ hit ∈ hits ∧ hit.eventPk = eventPk := by
    intro hit
    rw [hmembers, List.mem_filter, decide_eq_true_eq]
  obtain ⟨hfirst, hpk⟩ := (hmem first).mp (List.mem_cons_self ..)
  obtain ⟨x, hx, hof⟩ := h.of first hfirst
  refine ⟨_, rfl, ?_⟩
  have hnew : ((first :: rest).map SearchHit.piece).any PieceHit.new = x.new := by
    rw [Bool.eq_iff_iff, h.new x hx, List.any_map, List.any_eq_true]
    simp only [hmem, ← hof.eventPk, hpk, and_assoc]
    rfl
  have heq : foundOf (eventPk, ⟨first.sessionPk, first.sessionId, first.observedAt,
      (first :: rest).map SearchHit.piece⟩) = x := by
    cases x
    simp only [foundOf, EventHits.hasNew, hnew, hof.sessionPk, hof.sessionId, hof.observedAt, ← hpk, hof.eventPk]
  exact heq ▸ hx

theorem FoundIn.perm (h : FoundIn hits found) : ((matchingEvents hits).map foundOf).Perm found := by
  have hkeys := matchingEvents_keys hits
  have hnodup : ((matchingEvents hits).map foundOf).Nodup := by
    apply List.Nodup.of_map Found.eventPk
    rwa [List.map_map]
  apply (List.perm_ext_iff_of_nodup hnodup h.keys.of_map).mpr
  intro x
  have hmem : ∀ event, event ∈ matchingEvents hits ↔ ∃ members, (event.1, members) ∈ groupBy SearchHit.eventPk hits ∧
      EventHits.ofHits members = some event.2 := by
    rintro ⟨eventPk, event⟩
    simp only [matchingEvents, List.mem_filterMap, Option.map_eq_some_iff, Prod.exists, Prod.mk.injEq]
    constructor
    · rintro ⟨pk, members, hgroup, _, hsome, rfl, rfl⟩
      exact ⟨members, hgroup, hsome⟩
    · rintro ⟨members, hgroup, hsome⟩
      exact ⟨eventPk, members, hgroup, event, hsome, rfl, rfl⟩
  rw [List.mem_map]
  constructor
  · rintro ⟨event, hevent, rfl⟩
    obtain ⟨members, hgroup, hsome⟩ := (hmem event).mp hevent
    obtain ⟨other, hother, hfound⟩ := h.group hgroup
    obtain rfl := Option.some.inj (hother.symm.trans hsome)
    exact hfound
  · intro hx
    obtain ⟨hit, hhit, hpk⟩ := h.hit x hx
    have hgroup : (x.eventPk, hits.filter fun hit => hit.eventPk = x.eventPk) ∈ groupBy SearchHit.eventPk hits :=
      mem_groupBy.mpr ⟨rfl, hit, hhit, hpk⟩
    obtain ⟨event, hevent, hfound⟩ := h.group hgroup
    refine ⟨(x.eventPk, event), (hmem _).mpr ⟨_, hgroup, hevent⟩, ?_⟩
    exact List.inj_on_of_nodup_map h.keys hfound hx rfl

end Hits

section Response

variable {page : RankedPage} {query : ValidatedSearchQuery} {details : Table Uuid SessionDetails}
  {events : Table Uuid MatchedEvent} {fragments : Table ℕ SearchFragment}

theorem filterMap_shown {α β γ : Type} {f : α → Option β} {g : β → γ} {k : α → γ} {xs : List α}
    (h : ∀ x ∈ xs, (f x).map g = some (k x)) : (xs.filterMap f).map g = xs.map k := by
  rw [List.map_filterMap, ← List.filterMap_eq_map]
  exact List.filterMap_congr h

theorem hydrate_match {ranked : RankedMatch} (h : (events ranked.eventPk).isSome) :
    (ranked.hydrate events fragments).map (fun shown => (shown.eventPk, shown.new)) =
      some (ranked.eventPk, ranked.new) := by
  obtain ⟨event, hevent⟩ := Option.isSome_iff_exists.mp h
  rw [RankedMatch.hydrate, hevent]
  rfl

theorem hydrate_session {ranked : RankedSession} (hdetails : (details ranked.sessionPk).isSome)
    (hevents : ∀ shown ∈ ranked.matches', (events shown.eventPk).isSome) :
    (ranked.hydrate details events fragments).map resultSession = some ranked.shown := by
  obtain ⟨columns, hcolumns⟩ := Option.isSome_iff_exists.mp hdetails
  have hshown : (ranked.matches'.filterMap fun shown => shown.hydrate events fragments).map
      (fun shown => (shown.eventPk, shown.new)) = ranked.matches'.map fun shown => (shown.eventPk, shown.new) :=
    filterMap_shown fun shown hmem => hydrate_match (hevents shown hmem)
  simp only [RankedSession.hydrate, hcolumns, Option.map_some, resultSession, RankedSession.shown, hshown]

theorem intoResponse_shown (hdetails : ∀ session ∈ page.sessions, (details session.sessionPk).isSome)
    (hevents : ∀ session ∈ page.sessions, ∀ shown ∈ session.matches', (events shown.eventPk).isSome) :
    (page.intoResponse query details events fragments).items.map resultSession =
      page.sessions.map RankedSession.shown :=
  filterMap_shown fun session hsession => hydrate_session (hdetails session hsession) (hevents session hsession)

theorem foundPage_mem {found : List Found} {offset pageSize : ℕ} {session : FoundSession}
    (h : session ∈ foundPage found offset pageSize) :
    session.sessionPk ∈ found.map Found.sessionPk ∧
      ∀ shown ∈ session.shown, shown.1 ∈ found.map Found.eventPk := by
  obtain ⟨sessionPk, hsessionPk, rfl⟩ := List.mem_map.mp h
  have hmem := mem_sortBy.mp (List.mem_of_mem_drop (List.mem_of_mem_take hsessionPk))
  refine ⟨List.mem_dedup.mp hmem, fun shown hshown => ?_⟩
  obtain ⟨event, hevent, rfl⟩ := List.mem_map.mp hshown
  have hsorted : event ∈ sortBy Found.rank (inSession found sessionPk) := by
    obtain hnew | hcontext := List.mem_append.mp (List.mem_of_mem_take hevent)
    · exact (List.mem_filter.mp hnew).1
    · exact (List.mem_filter.mp hcontext).1
  exact List.mem_map_of_mem (List.mem_filter.mp (mem_sortBy.mp hsorted)).1

end Response

end AbyssBackend.Search
