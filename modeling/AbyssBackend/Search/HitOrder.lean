import AbyssBackend.Search.Ranking

namespace AbyssBackend.Search

open Groups Sorting

/-- A matching event, as far as its hits decide what a page shows of it. -/
structure MatchingEvent where
  eventPk : Uuid
  sessionPk : Uuid
  sessionId : String
  observedAt : DateTime
  new : Bool
  fragmentTexts : List ℕ

def matchingEvent (event : Uuid × EventHits) : MatchingEvent :=
  ⟨event.1, event.2.sessionPk, event.2.sessionId, event.2.observedAt, event.2.hasNew, event.2.fragmentTexts⟩

def MatchingEvent.rank (event : MatchingEvent) : ℤ ×ₗ ℕ := toLex (event.observedAt, event.eventPk)

def MatchingEvent.ranked (event : MatchingEvent) : RankedMatch :=
  ⟨event.eventPk, event.observedAt, event.new, event.fragmentTexts⟩

section Page

variable (events : List MatchingEvent)

def ofSession (sessionPk : Uuid) : List MatchingEvent := events.filter fun event => event.sessionPk = sessionPk

def pageSession (sessionPk : Uuid) : RankedSession :=
  let events := sortBy MatchingEvent.rank (ofSession events sessionPk)
  let shown := events.filter MatchingEvent.new ++ events.filter fun event => !event.new
  { sessionPk
    matchCount := events.length
    newMatchCount := (events.filter MatchingEvent.new).length
    matches' := (shown.take matchesPerSession).map MatchingEvent.ranked }

def pageRank (sessionPk : Uuid) : (WithBot ℤ)ᵒᵈ ×ₗ String ×ₗ ℕ :=
  let events := ofSession events sessionPk
  toLex (OrderDual.toDual (latest (events.map MatchingEvent.observedAt)),
    toLex ((events.head?.map MatchingEvent.sessionId).getD "", sessionPk))

def pageSessions : List Uuid := sortBy (pageRank events) (events.map MatchingEvent.sessionPk).dedup

end Page

/-- The events are told apart by their keys, and those of one session have its id. -/
structure Keyed (events : List MatchingEvent) : Prop where
  keys : (events.map MatchingEvent.eventPk).Nodup
  ids : ∀ x ∈ events, ∀ y ∈ events, x.sessionPk = y.sessionPk → x.sessionId = y.sessionId

section Ranked

variable {events : List MatchingEvent} {members : List (Uuid × EventHits)}

theorem ofSession_inj (hkeys : (events.map MatchingEvent.eventPk).Nodup) (sessionPk : Uuid) :
    ∀ x ∈ ofSession events sessionPk, ∀ y ∈ ofSession events sessionPk, x.rank = y.rank → x = y := by
  intro x hx y hy hrank
  have hpk : x.eventPk = y.eventPk := congrArg (fun rank => (ofLex rank).2) hrank
  exact List.inj_on_of_nodup_map hkeys (List.mem_filter.mp hx).1 (List.mem_filter.mp hy).1 hpk

theorem rankSession_eq {sessionPk : Uuid} (h : (members.map matchingEvent).Perm (ofSession events sessionPk))
    (hkeys : (events.map MatchingEvent.eventPk).Nodup) :
    rankSession (sessionPk, members) = pageSession events sessionPk := by
  have hmap : (sortBy eventRank members).map matchingEvent = sortBy MatchingEvent.rank (members.map matchingEvent) :=
    map_sortBy fun _ _ _ _ => Iff.rfl
  have hsort : (sortBy eventRank members).map matchingEvent =
      sortBy MatchingEvent.rank (ofSession events sessionPk) :=
    hmap.trans (sortBy_congr h (ofSession_inj hkeys sessionPk))
  simp only [rankSession, pageSession, ← hsort, List.filter_map, ← List.map_append, ← List.map_take, List.map_map,
    List.length_map]
  rfl

theorem sessionRank_eq {sessionPk : Uuid} (h : (members.map matchingEvent).Perm (ofSession events sessionPk))
    (hids : ∀ x ∈ events, ∀ y ∈ events, x.sessionPk = y.sessionPk → x.sessionId = y.sessionId) :
    sessionRank (sessionPk, members) = pageRank events sessionPk := by
  have htimes : (members.map fun event => event.2.observedAt).max? =
      ((ofSession events sessionPk).map MatchingEvent.observedAt).max? := by
    apply max?_congr
    intro time
    rw [← (h.map MatchingEvent.observedAt).mem_iff, List.map_map]
    rfl
  have hid : members.head?.map (fun event => event.2.sessionId) =
      (ofSession events sessionPk).head?.map MatchingEvent.sessionId := by
    rw [← head_congr h fun x hx y hy => ?_, List.head?_map, Option.map_map]
    · rfl
    · obtain ⟨hx, hxpk⟩ := List.mem_filter.mp hx
      obtain ⟨hy, hypk⟩ := List.mem_filter.mp hy
      exact hids x hx y hy ((of_decide_eq_true hxpk).trans (of_decide_eq_true hypk).symm)
  simp only [sessionRank, pageRank, latest, htimes, hid]

variable [Iteration] {hits : List SearchHit}

theorem matchingSessions_members (h : ((matchingEvents hits).map matchingEvent).Perm events)
    {session : Uuid × List (Uuid × EventHits)} (hsession : session ∈ matchingSessions hits) :
    (session.2.map matchingEvent).Perm (ofSession events session.1) := by
  have hgroup := (Iteration.perm _ _).mem_iff.mp hsession
  obtain ⟨hmembers, -⟩ := mem_groupBy.mp hgroup
  have hevents : ((Iteration.order .events (matchingEvents hits)).map matchingEvent).Perm events :=
    ((Iteration.perm _ _).map matchingEvent).trans h
  rw [hmembers, ofSession]
  refine List.Perm.trans (List.Perm.of_eq ?_) (hevents.filter _)
  rw [List.filter_map]
  rfl

theorem matchingSessions_keys (h : ((matchingEvents hits).map matchingEvent).Perm events) :
    ((matchingSessions hits).map Prod.fst).Perm (events.map MatchingEvent.sessionPk).dedup := by
  have hkeys := (Iteration.perm .sessions (groupBy (fun event : Uuid × EventHits => event.2.sessionPk)
    (Iteration.order .events (matchingEvents hits)))).map Prod.fst
  refine hkeys.trans ((List.perm_ext_iff_of_nodup (keys_nodup _ _) (List.nodup_dedup _)).mpr fun sessionPk => ?_)
  rw [mem_keys, List.mem_dedup, ← (h.map MatchingEvent.sessionPk).mem_iff, List.map_map, List.mem_map]
  simp only [(Iteration.perm _ _).mem_iff]
  rfl

/-- A page shows the matching events, whatever order the hits and the hash maps give them in. -/
theorem rankSessions_eq (h : ((matchingEvents hits).map matchingEvent).Perm events) (hkeyed : Keyed events)
    (offset pageSize : ℕ) : rankSessions hits offset pageSize =
      ⟨(pageSessions events).length, (((pageSessions events).drop offset).take pageSize).map (pageSession events)⟩ := by
  have hrank : ∀ session ∈ matchingSessions hits, sessionRank session = pageRank events session.1 :=
    fun session hsession => sessionRank_eq (matchingSessions_members h hsession) hkeyed.ids
  have hinj : ∀ x ∈ (events.map MatchingEvent.sessionPk).dedup, ∀ y ∈ (events.map MatchingEvent.sessionPk).dedup,
      pageRank events x = pageRank events y → x = y :=
    fun x _ y _ hxy => congrArg (fun rank => (ofLex (ofLex rank).2).2) hxy
  have hsorted : (sortBy sessionRank (matchingSessions hits)).map Prod.fst = pageSessions events := by
    rw [map_sortBy (k := pageRank events) fun x hx y hy => by rw [hrank x hx, hrank y hy]]
    exact sortBy_congr (matchingSessions_keys h) hinj
  rw [← hsorted, ← List.map_drop, ← List.map_take, List.map_map, List.length_map, rankSessions]
  congr 1
  apply List.map_congr_left
  intro session hsession
  have hmem := mem_sortBy.mp (List.mem_of_mem_drop (List.mem_of_mem_take hsession))
  exact rankSession_eq (matchingSessions_members h hmem) hkeyed.keys

end Ranked

section Hits

variable {hits hits' : List SearchHit}

/-- The hits are those of one store: an event has one session and time, a session one id, a piece one text and flag. -/
structure Consistent (hits : List SearchHit) : Prop where
  event : ∀ x ∈ hits, ∀ y ∈ hits, x.eventPk = y.eventPk → x.sessionPk = y.sessionPk ∧ x.observedAt = y.observedAt
  session : ∀ x ∈ hits, ∀ y ∈ hits, x.sessionPk = y.sessionPk → x.sessionId = y.sessionId
  piece : ∀ x ∈ hits, ∀ y ∈ hits, x.eventPk = y.eventPk → x.entryIndex = y.entryIndex → x.field = y.field →
    x.textId = y.textId ∧ x.new = y.new

theorem matchingEvents_keys (hits : List SearchHit) : ((matchingEvents hits).map Prod.fst).Nodup := by
  refine (keys_nodup SearchHit.eventPk hits).sublist ?_
  unfold matchingEvents
  induction groupBy SearchHit.eventPk hits with
  | nil => exact List.Sublist.slnil
  | cons group groups ih =>
    obtain ⟨eventPk, members⟩ := group
    rw [List.filterMap_cons, List.map_cons]
    cases hmembers : EventHits.ofHits members with
    | none =>
      simp only [hmembers, Option.map_none]
      exact ih.cons eventPk
    | some event =>
      simp only [hmembers, Option.map_some]
      exact ih.cons_cons eventPk

def eventOfHits (hits : List SearchHit) (eventPk : Uuid) : Option MatchingEvent :=
  (EventHits.ofHits (hits.filter fun hit => hit.eventPk = eventPk)).map fun event => matchingEvent (eventPk, event)

theorem matchingEvents_eq (hits : List SearchHit) : (matchingEvents hits).map matchingEvent =
    ((groupBy SearchHit.eventPk hits).map Prod.fst).filterMap (eventOfHits hits) := by
  rw [matchingEvents, List.map_filterMap, List.filterMap_map]
  apply List.filterMap_congr
  rintro ⟨eventPk, members⟩ hgroup
  rw [(mem_groupBy.mp hgroup).1, Option.map_map]
  rfl

theorem groupKeys_perm (h : hits.Perm hits') : ((groupBy SearchHit.eventPk hits).map Prod.fst).Perm
    ((groupBy SearchHit.eventPk hits').map Prod.fst) := by
  apply (List.perm_ext_iff_of_nodup (keys_nodup _ _) (keys_nodup _ _)).mpr
  intro eventPk
  rw [mem_keys, mem_keys]
  exact exists_congr fun hit => and_congr_left fun _ => h.mem_iff

theorem pieceRank_inj {x y : PieceHit} (h : EventHits.pieceRank x = EventHits.pieceRank y) :
    x.new = y.new ∧ x.entryIndex = y.entryIndex ∧ x.field = y.field := by
  obtain ⟨hnew, hrest⟩ := Prod.mk.inj (toLex_inj.mp h)
  obtain ⟨hentry, hfield⟩ := Prod.mk.inj (toLex_inj.mp hrest)
  refine ⟨?_, hentry, ?_⟩
  · cases hx : x.new <;> cases hy : y.new <;> simp [hx, hy] at hnew ⊢
  · cases hx : x.field <;> cases hy : y.field <;> simp [hx, hy] at hfield ⊢

theorem Consistent.fragmentTexts (hconsistent : Consistent hits) (h : hits.Perm hits') (eventPk : Uuid) :
    sortBy EventHits.pieceRank ((hits.filter fun hit => hit.eventPk = eventPk).map SearchHit.piece) =
      sortBy EventHits.pieceRank ((hits'.filter fun hit => hit.eventPk = eventPk).map SearchHit.piece) := by
  apply sortBy_congr ((h.filter _).map _)
  intro piece hpiece piece' hpiece' hrank
  obtain ⟨x, hx, rfl⟩ := List.mem_map.mp hpiece
  obtain ⟨y, hy, rfl⟩ := List.mem_map.mp hpiece'
  obtain ⟨hxmem, hxpk⟩ := List.mem_filter.mp hx
  obtain ⟨hymem, hypk⟩ := List.mem_filter.mp hy
  obtain ⟨hnew, hentry, hfield⟩ := pieceRank_inj hrank
  have hpk := (of_decide_eq_true hxpk).trans (of_decide_eq_true hypk).symm
  have htext := (hconsistent.piece x (h.mem_iff.mpr hxmem) y (h.mem_iff.mpr hymem) hpk hentry hfield).1
  exact PieceHit.ext hnew hentry hfield htext

theorem Consistent.eventOfHits (hconsistent : Consistent hits) (h : hits.Perm hits') (eventPk : Uuid) :
    eventOfHits hits eventPk = eventOfHits hits' eventPk := by
  have hfilter := h.filter fun hit => decide (hit.eventPk = eventPk)
  have hsorted := hconsistent.fragmentTexts h eventPk
  unfold Search.eventOfHits
  generalize hmembers : (hits.filter fun hit => hit.eventPk = eventPk) = members at hfilter hsorted
  generalize hmembers' : (hits'.filter fun hit => hit.eventPk = eventPk) = members' at hfilter hsorted
  cases members with
  | nil => rw [hfilter.nil_eq]
  | cons first rest =>
    cases members' with
    | nil => exact absurd hfilter.eq_nil (List.cons_ne_nil _ _)
    | cons first' rest' =>
      have hfirst : first ∈ hits ∧ first.eventPk = eventPk := by
        have hmem : first ∈ first :: rest := List.mem_cons_self
        rw [← hmembers] at hmem
        exact ⟨(List.mem_filter.mp hmem).1, of_decide_eq_true (List.mem_filter.mp hmem).2⟩
      have hfirst' : first' ∈ hits ∧ first'.eventPk = eventPk := by
        have hmem : first' ∈ first :: rest := hfilter.mem_iff.mpr List.mem_cons_self
        rw [← hmembers] at hmem
        exact ⟨(List.mem_filter.mp hmem).1, of_decide_eq_true (List.mem_filter.mp hmem).2⟩
      obtain ⟨hsession, htime⟩ :=
        hconsistent.event first hfirst.1 first' hfirst'.1 (hfirst.2.trans hfirst'.2.symm)
      have hid := hconsistent.session first hfirst.1 first' hfirst'.1 hsession
      have hnew : ((first :: rest).map SearchHit.piece).any PieceHit.new =
          ((first' :: rest').map SearchHit.piece).any PieceHit.new := by
        rw [Bool.eq_iff_iff, List.any_eq_true, List.any_eq_true]
        exact exists_congr fun piece => and_congr_left fun _ => (hfilter.map SearchHit.piece).mem_iff
      simp only [EventHits.ofHits, List.head?_cons, Option.map_some, matchingEvent, EventHits.hasNew,
        EventHits.fragmentTexts, hsession, hid, htime, hnew, hsorted]

theorem Consistent.matchingEvents (hconsistent : Consistent hits) (h : hits.Perm hits') :
    ((Search.matchingEvents hits).map matchingEvent).Perm ((Search.matchingEvents hits').map matchingEvent) := by
  have hsame : Search.eventOfHits hits = Search.eventOfHits hits' := funext (hconsistent.eventOfHits h)
  rw [matchingEvents_eq, matchingEvents_eq, hsame]
  exact (groupKeys_perm h).filterMap _

theorem Consistent.keyed (hconsistent : Consistent hits) : Keyed ((Search.matchingEvents hits).map matchingEvent) := by
  have hof : ∀ x ∈ (Search.matchingEvents hits).map matchingEvent,
      ∃ hit ∈ hits, hit.sessionPk = x.sessionPk ∧ hit.sessionId = x.sessionId := by
    intro x hx
    rw [matchingEvents_eq] at hx
    obtain ⟨eventPk, -, hevent⟩ := List.mem_filterMap.mp hx
    obtain ⟨event, hhits, rfl⟩ := Option.map_eq_some_iff.mp hevent
    obtain ⟨first, hfirst, rfl⟩ := Option.map_eq_some_iff.mp hhits
    exact ⟨first, (List.mem_filter.mp (List.mem_of_mem_head? hfirst)).1, rfl, rfl⟩
  constructor
  · rw [List.map_map]
    exact matchingEvents_keys hits
  · intro x hx y hy hsame
    obtain ⟨hit, hhit, hpk, hid⟩ := hof x hx
    obtain ⟨hit', hhit', hpk', hid'⟩ := hof y hy
    rw [← hid, ← hid']
    exact hconsistent.session hit hhit hit' hhit' (hpk.trans (hsame.trans hpk'.symm))

/-- Neither the order of the hits nor that of the hash maps decides a page. -/
theorem Consistent.rankSessions_perm (hconsistent : Consistent hits) (iteration iteration' : Iteration)
    (h : hits.Perm hits') (offset pageSize : ℕ) :
    @rankSessions iteration hits offset pageSize = @rankSessions iteration' hits' offset pageSize := by
  rw [@rankSessions_eq _ iteration hits (.refl _) hconsistent.keyed,
    @rankSessions_eq _ iteration' hits' (hconsistent.matchingEvents h).symm hconsistent.keyed]

end Hits

end AbyssBackend.Search
