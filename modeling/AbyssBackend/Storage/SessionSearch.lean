import AbyssBackend.Storage.Hits

namespace AbyssBackend.Storage

open Attempts Search Sorting Streams Tables Text

variable [Sha256] [CaseMapping] {store : Store} {owner : Uuid} {query : String}
  {event : EventRow}

section Matching

variable [TrigramIndex] [Iteration]

variable (owner query) in
theorem Sound.matching_holding (h : Sound store) : Holding store owner query (fun _ => True)
    (((candidates owner (Pattern.new (trim query)) none store).filter fun text =>
      (Pattern.new (trim query)).isMatch text.text).map SearchText.id) := by
  intro text htext howner _
  rw [← isMatch_eq, List.mem_map]
  constructor
  · rintro ⟨other, hother, hid⟩
    obtain ⟨hcandidate, hmatch⟩ := List.mem_filter.mp hother
    have hmem := (mem_ownerTexts (mem_candidates.mp hcandidate).1).1
    rwa [List.inj_on_of_nodup_map h.index.indexed.ids hmem htext hid] at hmatch
  · intro hmatch
    refine ⟨text, List.mem_filter.mpr ⟨mem_candidates.mpr ⟨?_, by simp⟩, hmatch⟩, rfl⟩
    exact ownerTexts_complete h.index.indexed.trigram htext howner hmatch

end Matching

section Hits

/-- The hits are those of the pieces that hold the query, in the owner's events that pass the filters. -/
structure ScanHits (store : Store) (owner : Uuid) (query : SessionSearchQuery) (hits : List SearchHit) : Prop where
  sound : ∀ hit ∈ hits, ∃ event ∈ store.events, (event.userId = owner ∧ passes query event = true) ∧
    ∃ piece ∈ finds query.q event, ∃ textId, hit = pieceHit event piece textId
  complete : ∀ event ∈ store.events, event.userId = owner ∧ passes query event = true →
    ∀ piece ∈ finds query.q event, ∃ textId, pieceHit event piece textId ∈ hits

omit [Sha256] [CaseMapping] in
theorem mem_hitRows {textIds : List ℕ} {validated : ValidatedSearchQuery} {row : HitRow} :
    row ∈ hitRows owner textIds validated store ↔ ∃ event ∈ store.events,
      (event.userId = owner ∧ admits validated event = true) ∧
      ∃ ref ∈ store.searchRefs.filter fun ref => ref.eventPk == event.id, ref.textId ∈ textIds ∧
        ∃ facts ∈ factsOf store event.id, row = hitRow event ref facts := by
  simp only [hitRows, List.mem_flatMap, List.mem_filter, List.mem_map, beq_iff_eq, Bool.and_eq_true]
  constructor
  · rintro ⟨textId, htextId, ref, ⟨href, rfl⟩, event, ⟨hevent, ⟨hpk, howner⟩, hadmits⟩, facts, hfacts, rfl⟩
    exact ⟨event, hevent, ⟨howner, hadmits⟩, ref, ⟨href, hpk.symm⟩, htextId, facts, hfacts, rfl⟩
  · rintro ⟨event, hevent, ⟨howner, hadmits⟩, ref, ⟨href, hpk⟩, htextId, facts, hfacts, rfl⟩
    exact ⟨ref.textId, htextId, ref, ⟨href, rfl⟩, event, ⟨hevent, ⟨hpk.symm, howner⟩, hadmits⟩, facts, hfacts, rfl⟩

omit [Sha256] [CaseMapping] in
theorem sessionHits_eq [Iteration] (textIds : List ℕ) (validated : ValidatedSearchQuery) :
    sessionHits owner textIds validated store =
      (Iteration.order .hits (hitRows owner textIds validated store)).mapM HitRow.intoHit := by
  unfold sessionHits
  split
  · next hempty =>
    obtain rfl := List.isEmpty_iff.mp hempty
    have hnil : Iteration.order .hits (hitRows owner [] validated store) = [] :=
      (Iteration.perm _ _).eq_nil
    rw [hnil]
    rfl
  · rfl

theorem Sound.hitRow_eq (h : Sound store) (hevent : event ∈ store.events) {piece : Piece} {ref : SearchRef}
    (href : PieceRef store event piece ref) {facts : Option StreamFactsRow} (hfacts : facts ∈ factsOf store event.id) :
    (hitRow event ref facts).intoHit = .ok (pieceHit event piece ref.textId) := by
  obtain ⟨row, hrow, hsingle⟩ := h.factsOf_eq hevent
  obtain ⟨eventType, htype⟩ := h.hierarchy.eventTypes event hevent
  obtain rfl := List.mem_singleton.mp (hsingle ▸ hfacts)
  exact hitRow_intoHit href.eventPk href.entryIndex href.field hrow htype

theorem Sound.sessionHits [Iteration] (h : Sound store) (hdigests : store.DigestsApart) {textIds : List ℕ}
    {query : SessionSearchQuery} (hids : Holding store owner query.q (fun _ => True) textIds)
    {validated : ValidatedSearchQuery} (hasks : Asks query validated) :
    ∃ hits, Storage.sessionHits owner textIds validated store = .ok hits ∧ ScanHits store owner query hits := by
  have hrows : ∀ row ∈ Iteration.order .hits (hitRows owner textIds validated store), ∃ hit, row.intoHit = .ok hit ∧
      row.intoHit = .ok hit ∧ ∃ event ∈ store.events, (event.userId = owner ∧ passes query event = true) ∧
        ∃ piece ∈ finds query.q event, ∃ textId, hit = pieceHit event piece textId := by
    intro row hrow
    obtain ⟨event, hevent, hadmitted, ref, href, htextId, facts, hfacts, rfl⟩ :=
      mem_hitRows.mp ((Iteration.perm _ _).mem_iff.mp hrow)
    rw [admits_eq hasks] at hadmitted
    obtain ⟨piece, hpiece, hpieceRef⟩ := Rows.forall₂_mem_right (h.pieceRefs hdigests hevent) href
    have hholds := (hpieceRef.holds (hadmitted.1 ▸ hids) trivial).mp htextId
    have hhit := h.hitRow_eq hevent hpieceRef hfacts
    exact ⟨_, hhit, hhit, event, hevent, hadmitted, piece, List.mem_filter.mpr ⟨hpiece, hholds⟩, ref.textId, rfl⟩
  obtain ⟨hits, hhits, hall⟩ := mapM_all hrows
  refine ⟨hits, (sessionHits_eq textIds validated).trans hhits, fun hit hhit => ?_,
    fun event hevent hadmitted piece hpiece => ?_⟩
  · obtain ⟨row, -, -, hfrom⟩ := Rows.forall₂_mem_right hall hhit
    exact hfrom
  · obtain ⟨hpiece, hholds⟩ := List.mem_filter.mp hpiece
    obtain ⟨ref, href, hpieceRef⟩ := Rows.forall₂_mem_left (h.pieceRefs hdigests hevent) hpiece
    obtain ⟨row, -, hsingle⟩ := h.factsOf_eq hevent
    have hfacts : some row ∈ factsOf store event.id := hsingle ▸ List.mem_singleton_self _
    have htextId := (hpieceRef.holds (hadmitted.1 ▸ hids) trivial).mpr hholds
    rw [← admits_eq hasks] at hadmitted
    have hrow : hitRow event ref (some row) ∈ Iteration.order .hits (hitRows owner textIds validated store) :=
      (Iteration.perm _ _).mem_iff.mpr
        (mem_hitRows.mpr ⟨event, hevent, hadmitted, ref, href, htextId, some row, hfacts, rfl⟩)
    obtain ⟨hit, hhit, hok, -⟩ := Rows.forall₂_mem_left hall hrow
    obtain rfl := Except.ok.inj ((h.hitRow_eq hevent hpieceRef hfacts).symm.trans hok)
    exact ⟨ref.textId, hhit⟩

end Hits

section Found

variable {query : SessionSearchQuery} {hits : List SearchHit}

theorem scanEvents_mem {x : Found} : x ∈ scanEvents owner query store ↔ ∃ event ∈ store.events,
    (event.userId = owner ∧ passes query event = true) ∧ finds query.q event ≠ [] ∧ x = scanEvent query.q event := by
  simp only [scanEvents, List.mem_map, List.mem_filter, Bool.and_eq_true, beq_iff_eq, Bool.not_eq_true',
    List.isEmpty_eq_false_iff]
  constructor
  · rintro ⟨event, ⟨hevent, hadmitted, hfinds⟩, rfl⟩
    exact ⟨event, hevent, hadmitted, hfinds, rfl⟩
  · rintro ⟨event, hevent, hadmitted, hfinds, rfl⟩
    exact ⟨event, ⟨hevent, hadmitted, hfinds⟩, rfl⟩

theorem ScanHits.foundIn (h : ScanHits store owner query hits) (hsound : Sound store) :
    FoundIn hits (scanEvents owner query store) := by
  have hsame : ∀ event ∈ store.events, ∀ other ∈ store.events, event.id = other.id → event = other :=
    fun event hevent other hother hid => List.inj_on_of_nodup_map hsound.hierarchy.eventPks hevent hother hid
  constructor
  case keys =>
    have hsub := (List.filter_sublist (l := store.events) (p := fun event =>
      event.userId == owner && passes query event && !(finds query.q event).isEmpty)).map EventRow.id
    rw [scanEvents, List.map_map]
    exact hsound.hierarchy.eventPks.sublist hsub
  case of =>
    intro hit hhit
    obtain ⟨event, hevent, hadmitted, piece, hpiece, textId, rfl⟩ := h.sound hit hhit
    exact ⟨_, scanEvents_mem.mpr ⟨event, hevent, hadmitted, List.ne_nil_of_mem hpiece, rfl⟩, ⟨rfl, rfl, rfl, rfl⟩⟩
  case hit =>
    intro x hx
    obtain ⟨event, hevent, hadmitted, hfinds, rfl⟩ := scanEvents_mem.mp hx
    obtain ⟨piece, hpiece⟩ := List.exists_mem_of_ne_nil _ hfinds
    obtain ⟨textId, hhit⟩ := h.complete event hevent hadmitted piece hpiece
    exact ⟨_, hhit, rfl⟩
  case new =>
    intro x hx
    obtain ⟨event, hevent, hadmitted, -, rfl⟩ := scanEvents_mem.mp hx
    rw [scanEvent, List.any_eq_true]
    constructor
    · rintro ⟨piece, hpiece, hnew⟩
      obtain ⟨textId, hhit⟩ := h.complete event hevent hadmitted piece hpiece
      exact ⟨_, hhit, rfl, hnew⟩
    · rintro ⟨hit, hhit, hpk, hnew⟩
      obtain ⟨other, hother, -, piece, hpiece, textId, rfl⟩ := h.sound hit hhit
      obtain rfl := hsame other hother event hevent hpk
      exact ⟨piece, hpiece, hnew⟩

theorem Sound.scan_sessions (h : Sound store) : ∀ x ∈ scanEvents owner query store,
    ∀ y ∈ scanEvents owner query store, x.sessionPk = y.sessionPk → x.sessionId = y.sessionId := by
  intro x hx y hy hsame
  obtain ⟨event, hevent, -, -, rfl⟩ := scanEvents_mem.mp hx
  obtain ⟨other, hother, -, -, rfl⟩ := scanEvents_mem.mp hy
  obtain ⟨session, hsession, hof⟩ := h.hierarchy.sessions event hevent
  obtain ⟨session', hsession', hof'⟩ := h.hierarchy.sessions other hother
  have hid : session.id = session'.id := (hof.id.trans hsame).trans hof'.id.symm
  obtain rfl := List.inj_on_of_nodup_map h.hierarchy.sessionIds hsession hsession' hid
  exact hof.sessionId.symm.trans hof'.sessionId

end Found

section Columns

variable {query : SessionSearchQuery}

theorem Sound.details_isSome (h : Sound store) {sessionPks : List Uuid} {sessionPk : Uuid}
    (hfound : sessionPk ∈ (scanEvents owner query store).map Found.sessionPk) (hpage : sessionPk ∈ sessionPks) :
    (sessionDetails owner store sessionPks sessionPk).isSome := by
  obtain ⟨x, hx, rfl⟩ := List.mem_map.mp hfound
  obtain ⟨event, hevent, ⟨howner, -⟩, -, rfl⟩ := scanEvents_mem.mp hx
  obtain ⟨session, hsession, hof⟩ := h.hierarchy.sessions event hevent
  obtain ⟨device, hdevice, hid, -⟩ := h.hierarchy.sessionDevices session hsession
  refine ofPairs_isSome (List.mem_map.mpr ⟨_, List.mem_flatMap.mpr ⟨session, List.mem_filter.mpr ⟨hsession, ?_⟩,
    List.mem_map.mpr ⟨device, List.mem_filter.mpr ⟨hdevice, beq_iff_eq.mpr hid⟩, rfl⟩⟩, hof.id⟩)
  rw [Bool.and_eq_true, beq_iff_eq, List.contains_iff_mem, hof.id]
  exact ⟨hof.userId.trans howner, hpage⟩

theorem matchedEvents_isSome {eventPks : List Uuid} {eventPk : Uuid}
    (hfound : eventPk ∈ (scanEvents owner query store).map Found.eventPk) (hpage : eventPk ∈ eventPks) :
    (matchedEvents owner store eventPks eventPk).isSome := by
  obtain ⟨x, hx, rfl⟩ := List.mem_map.mp hfound
  obtain ⟨event, hevent, ⟨howner, -⟩, -, rfl⟩ := scanEvents_mem.mp hx
  refine ofPairs_isSome (List.mem_map.mpr ⟨_, List.mem_map.mpr ⟨event, List.mem_filter.mpr ⟨hevent, ?_⟩, rfl⟩, rfl⟩)
  rw [Bool.and_eq_true, beq_iff_eq, List.contains_iff_mem]
  exact ⟨hpage, howner⟩

end Columns

section Response

variable {query : SessionSearchQuery}

theorem Sound.hydratePage_shown (h : Sound store) {validated : ValidatedSearchQuery} {pattern : Pattern}
    {page : RankedPage} {offset pageSize : ℕ}
    (hpage : page.sessions.map RankedSession.shown = foundPage (scanEvents owner query store) offset pageSize) :
    (hydratePage owner validated pattern page store).items.map resultSession =
      foundPage (scanEvents owner query store) offset pageSize := by
  have hmem : ∀ session ∈ page.sessions, session.shown ∈ foundPage (scanEvents owner query store) offset pageSize :=
    fun session hsession => hpage ▸ List.mem_map_of_mem hsession
  have htitled : (hydratePage owner validated pattern page store).items.map resultSession =
      (page.intoResponse validated (sessionDetails owner store page.sessionPks)
        (matchedEvents owner store page.eventPks)
        (textFragments owner pattern page.fragmentTexts store)).items.map resultSession := by
    simp only [hydratePage, withTitles, List.map_map]
    rfl
  rw [htitled, ← hpage]
  apply intoResponse_shown
  · intro session hsession
    exact h.details_isSome (foundPage_mem (hmem session hsession)).1 (List.mem_map_of_mem hsession)
  · intro session hsession shown hshown
    have hevents := (foundPage_mem (hmem session hsession)).2 _ (List.mem_map_of_mem hshown)
    refine matchedEvents_isSome hevents (List.mem_map_of_mem ?_)
    exact List.mem_flatMap.mpr ⟨session, hsession, hshown⟩

variable (owner) in
theorem Sound.sessionSearch [TrigramIndex] [Iteration] (h : Sound store) (hdigests : store.DigestsApart)
    {validated : ValidatedSearchQuery} (hvalid : query.validate = .ok validated) :
    ∃ response, Storage.sessionSearch owner query store = .ok response ∧
      response.totalSessions = (foundSessions (scanEvents owner query store)).length ∧
      response.items.map resultSession =
        foundPage (scanEvents owner query store) validated.offset validated.pageSize := by
  have hasks := SessionSearchQuery.validate_spec hvalid
  have hids := h.matching_holding owner query.q
  obtain ⟨hits, hhits, hscan⟩ := h.sessionHits hdigests hids hasks
  have hfound := hscan.foundIn h
  obtain ⟨htotal, hpage⟩ := rankSessions_found hfound.perm hfound.keys h.scan_sessions validated.offset
    validated.pageSize
  refine ⟨hydratePage owner validated (Pattern.new (trim query.q))
    (rankSessions hits validated.offset validated.pageSize) store, ?_, htotal, ?_⟩
  · rw [Storage.sessionSearch, hvalid]
    simp only [bind, Except.bind, hasks.text]
    rw [hhits]
    rfl
  · exact h.hydratePage_shown hpage

end Response

end AbyssBackend.Storage
