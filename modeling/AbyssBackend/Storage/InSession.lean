import AbyssBackend.Storage.Hits

namespace AbyssBackend.Storage

open Attempts Search Sorting Streams Tables Text

variable [Sha256] [CaseMapping] {store : Store} {owner sessionPk : Uuid} {query : String}

section Ranges

variable [TrigramIndex] [Iteration]

omit [Sha256] in
theorem mem_matchedRanges (hquery : trim query ≠ "") {id : ℕ} {ranges : List (ℕ × ℕ)} :
    (id, ranges) ∈ matchedRanges owner (Pattern.new (trim query)) sessionPk store ↔
      ∃ text ∈ candidates owner (Pattern.new (trim query)) (some sessionPk) store,
        naiveHolds text.text query = true ∧ text.id = id ∧ naiveRanges text.text query = ranges := by
  rw [matchedRanges, List.mem_filterMap]
  refine exists_congr fun text => and_congr_right fun _ => ?_
  have hempty : ((Pattern.new (trim query)).occurrences text.text).isEmpty = !naiveHolds text.text query := by
    rw [Bool.eq_iff_iff, List.isEmpty_iff, occurrences_eq_nil hquery, Bool.not_eq_true']
  simp only [hempty, utf16Ranges_eq hquery]
  cases naiveHolds text.text query <;> simp

variable (owner sessionPk) in
theorem Sound.ranges_holding (h : Sound store) (hquery : trim query ≠ "") :
    Holding store owner query (fun id => id ∈ sessionTextIds owner sessionPk store)
      (Iteration.order .ranges
        ((matchedRanges owner (Pattern.new (trim query)) sessionPk store).map Prod.fst).dedup) := by
  intro text htext howner hscope
  rw [(Iteration.perm _ _).mem_iff, List.mem_dedup, List.mem_map]
  constructor
  · rintro ⟨⟨id, ranges⟩, hmem, hid⟩
    obtain ⟨other, hother, hholds, hotherId, -⟩ := (mem_matchedRanges hquery).mp hmem
    have hstored := (mem_ownerTexts (mem_candidates.mp hother).1).1
    have hsame : other = text := List.inj_on_of_nodup_map h.index.indexed.ids hstored htext (hotherId.trans hid)
    exact hsame ▸ hholds
  · intro hholds
    refine ⟨(text.id, naiveRanges text.text query), (mem_matchedRanges hquery).mpr ⟨text, ?_, hholds, rfl, rfl⟩, rfl⟩
    refine mem_candidates.mpr ⟨ownerTexts_complete h.index.indexed.trigram htext howner ?_, ?_⟩
    · rwa [isMatch_eq]
    · rintro _ ⟨⟩
      exact hscope

theorem Sound.ranges_eq (h : Sound store) (hquery : trim query ≠ "") {text : SearchText}
    (htext : text ∈ store.searchTexts) (howner : text.userId = owner)
    (hscope : text.id ∈ sessionTextIds owner sessionPk store) (hholds : naiveHolds text.text query = true) :
    ofPairs (matchedRanges owner (Pattern.new (trim query)) sessionPk store) text.id =
      some (naiveRanges text.text query) := by
  have hmatch : (Pattern.new (trim query)).isMatch text.text = true := by rwa [isMatch_eq]
  refine ofPairs_of_mem ((mem_matchedRanges hquery).mpr ⟨text, ?_, hholds, rfl, rfl⟩) fun ranges hranges => ?_
  · refine mem_candidates.mpr ⟨ownerTexts_complete h.index.indexed.trigram htext howner hmatch, ?_⟩
    rintro _ ⟨⟩
    exact hscope
  · obtain ⟨other, hother, -, hid, rfl⟩ := (mem_matchedRanges hquery).mp hranges
    have hstored := (mem_ownerTexts (mem_candidates.mp hother).1).1
    rw [List.inj_on_of_nodup_map h.index.indexed.ids hstored htext hid]

end Ranges

section Order

def sessionFinds (owner sessionPk : Uuid) (query : String) (store : Store) : List (EventRow × Piece) :=
  (sortBy eventOrder (sessionEvents owner sessionPk store)).flatMap fun event => (finds query event).map (event, ·)

theorem scanSession_eq : scanSession owner sessionPk query store =
    (sessionFinds owner sessionPk query store).map fun found => scanHit query found.1 found.2 := by
  rw [scanSession, sessionFinds, List.map_flatMap]
  simp only [List.map_map]
  rfl

def findRank (found : EventRow × Piece) : ℤ ×ₗ ℕ ×ₗ ℤ ×ₗ ℕ :=
  toLex (found.1.observedAt, toLex (found.1.id,
    toLex ((found.2.entryIndex : ℤ), if found.2.field = .name then 0 else 1)))

omit [Sha256] in
theorem finds_sorted (event : EventRow) : (finds query event).Pairwise fun x y => x.place < y.place :=
  (pieces_sorted event.conversation).sublist List.filter_sublist

omit [Sha256] [CaseMapping] in
theorem findRank_le_iff {event : EventRow} {x y : Piece} :
    findRank (event, x) ≤ findRank (event, y) ↔ x.place ≤ y.place := by
  simp only [findRank, Piece.place, Prod.Lex.toLex_le_toLex, lt_irrefl, true_and, false_or, Int.ofNat_lt,
    Int.natCast_inj]

omit [Sha256] [CaseMapping] in
theorem findRank_lt {event other : EventRow} (h : eventOrder event < eventOrder other) (x y : Piece) :
    findRank (event, x) < findRank (other, y) := by
  rw [eventOrder, eventOrder, Prod.Lex.toLex_lt_toLex] at h
  rw [findRank, findRank, Prod.Lex.toLex_lt_toLex, Prod.Lex.toLex_lt_toLex]
  exact h.imp id fun hsame => ⟨hsame.1, Or.inl hsame.2⟩

theorem Sound.sessionFinds_sorted (h : Sound store) :
    sortBy findRank ((sessionEvents owner sessionPk store).flatMap fun event => (finds query event).map (event, ·)) =
      sessionFinds owner sessionPk query store := by
  have hevents : (sortBy eventOrder (sessionEvents owner sessionPk store)).Pairwise fun x y => x.id ≠ y.id := by
    refine List.pairwise_map.mp (((sortBy_perm _ _).map EventRow.id).nodup_iff.mpr ?_)
    exact h.hierarchy.eventPks.sublist (List.filter_sublist.map EventRow.id)
  have hstrict : (sortBy eventOrder (sessionEvents owner sessionPk store)).Pairwise fun x y =>
      eventOrder x < eventOrder y := by
    refine ((sortBy_pairwise eventOrder _).and hevents).imp fun {x y} hboth => lt_of_le_of_ne hboth.1 fun heq => ?_
    exact hboth.2 (congrArg (fun rank => (ofLex rank).2) heq)
  have hsorted : (sessionFinds owner sessionPk query store).Pairwise fun x y => findRank x < findRank y := by
    refine List.pairwise_flatMap.mpr ⟨fun event _ => ?_, hstrict.imp fun {event other} hlt x hx y hy => ?_⟩
    · refine List.pairwise_map.mpr ((finds_sorted event).imp fun {x y} hxy => ?_)
      exact lt_of_not_ge fun hle => hxy.not_ge (findRank_le_iff.mp hle)
    · obtain ⟨piece, -, rfl⟩ := List.mem_map.mp hx
      obtain ⟨piece', -, rfl⟩ := List.mem_map.mp hy
      exact findRank_lt hlt piece piece'
  apply sortBy_eq ((sortBy_perm eventOrder _).flatMap_right _).symm (hsorted.imp le_of_lt)
  intro x hx y hy heq
  have hranks : ((sessionFinds owner sessionPk query store).map findRank).Nodup :=
    List.pairwise_map.mpr (hsorted.imp fun hlt => hlt.ne)
  exact List.inj_on_of_nodup_map hranks hx hy heq

end Order

section Refs

structure FindRef (store : Store) (owner sessionPk : Uuid) (query : String) (found : EventRow × Piece)
    (row : (EventRow × SearchRef) × Option StreamFactsRow) : Prop where
  event : row.1.1 = found.1
  mem : found.1 ∈ sessionEvents owner sessionPk store
  holds : naiveHolds found.2.text query = true
  ref : PieceRef store found.1 found.2 row.1.2
  stored : row.1.2 ∈ store.searchRefs
  facts : row.2 ∈ factsOf store found.1.id

omit [Sha256] [CaseMapping] in
theorem mem_sessionTextIds {event : EventRow} {ref : SearchRef} (hevent : event ∈ sessionEvents owner sessionPk store)
    (href : ref ∈ store.searchRefs) (hpk : ref.eventPk = event.id) :
    ref.textId ∈ sessionTextIds owner sessionPk store :=
  List.mem_flatMap.mpr ⟨event, hevent, List.mem_map_of_mem (List.mem_filter.mpr ⟨href, beq_iff_eq.mpr hpk⟩)⟩

theorem Sound.eventFinds (h : Sound store) (hdigests : store.DigestsApart) {textIds : List ℕ}
    (hids : Holding store owner query (fun id => id ∈ sessionTextIds owner sessionPk store) textIds)
    {event : EventRow} (hmem : event ∈ sessionEvents owner sessionPk store) :
    List.Forall₂ (FindRef store owner sessionPk query) ((finds query event).map (event, ·))
      (((store.searchRefs.filter fun ref => ref.eventPk == event.id).filter fun ref =>
        textIds.contains ref.textId).flatMap fun ref =>
          (factsOf store event.id).map fun facts => ((event, ref), facts)) := by
  obtain ⟨hevent, hown⟩ := List.mem_filter.mp hmem
  obtain rfl : event.userId = owner := beq_iff_eq.mp (Bool.and_eq_true_iff.mp hown).1
  obtain ⟨row, -, hsingle⟩ := h.factsOf_eq hevent
  have hrefs := Rows.forall₂_imp_mem (h.pieceRefs hdigests hevent)
    (S := fun piece ref => PieceRef store event piece ref ∧ ref ∈ store.searchRefs)
    fun piece _ ref href hpieceRef => ⟨hpieceRef, (List.mem_filter.mp href).1⟩
  have hkept := Rows.forall₂_filter (p := fun piece => naiveHolds piece.text query)
    (q := fun ref => textIds.contains ref.textId) hrefs fun piece ref hboth => by
      rw [Bool.eq_iff_iff, List.contains_iff_mem,
        hboth.1.holds hids (mem_sessionTextIds hmem hboth.2 hboth.1.eventPk)]
  simp only [hsingle, List.map_singleton]
  rw [← List.map_eq_flatMap, List.forall₂_map_left_iff, List.forall₂_map_right_iff]
  apply Rows.forall₂_imp_mem hkept
  intro piece hpiece ref _ hboth
  exact ⟨rfl, hmem, (List.mem_filter.mp hpiece).2, hboth.1, hboth.2, hsingle ▸ List.mem_singleton_self _⟩

theorem Sound.sessionFinds_refs (h : Sound store) (hdigests : store.DigestsApart) {textIds : List ℕ}
    (hids : Holding store owner query (fun id => id ∈ sessionTextIds owner sessionPk store) textIds) :
    List.Forall₂ (FindRef store owner sessionPk query) (sessionFinds owner sessionPk query store)
      (sortBy (fun row => hitRank row.1) (sessionRefs owner sessionPk textIds store)) := by
  have hall := Rows.forall₂_flatMap fun event hmem => h.eventFinds hdigests hids hmem
  rw [← h.sessionFinds_sorted]
  apply forall₂_sortBy hall
  intro found row href
  have hfield : (row.1.2.field = "name") = (found.2.field = .name) := by
    rw [href.ref.field, ← asStr_inj]
    rfl
  simp only [findRank, hitRank, href.event, href.ref.entryIndex, hfield]

end Refs

section Response

structure HitOf (store : Store) (owner sessionPk : Uuid) (query : String) (found : EventRow × Piece)
    (hit : InSessionHit) : Prop where
  eventPk : hit.eventPk = found.1.id
  entryIndex : hit.entryIndex = found.2.entryIndex
  field : hit.field = found.2.field
  new : hit.new = newPiece found.1 found.2
  mem : found.1 ∈ sessionEvents owner sessionPk store
  holds : naiveHolds found.2.text query = true
  text : ∃ text ∈ store.searchTexts, text.id = hit.textId ∧ text.userId = owner ∧ text.text = found.2.text ∧
    text.id ∈ sessionTextIds owner sessionPk store

omit [Sha256] [CaseMapping] in
theorem hitsInSession_eq (textIds : List ℕ) : hitsInSession owner sessionPk textIds store =
    (sessionHitRows owner sessionPk textIds store).mapM SessionHitRow.intoHit := by
  unfold hitsInSession
  split
  · next hempty =>
    obtain rfl := List.isEmpty_iff.mp hempty
    have hrefs : sessionRefs owner sessionPk [] store = [] := by simp [sessionRefs]
    rw [sessionHitRows, hrefs]
    rfl
  · rfl

theorem Sound.findRef_hit (h : Sound store) {found : EventRow × Piece}
    {row : (EventRow × SearchRef) × Option StreamFactsRow} (href : FindRef store owner sessionPk query found row) :
    ∃ hit, (sessionHitRow row.1.1 row.1.2 row.2).intoHit = .ok hit ∧
      HitOf store owner sessionPk query found hit := by
  obtain ⟨hevent, hown⟩ := List.mem_filter.mp href.mem
  obtain ⟨facts, hfacts, hsingle⟩ := h.factsOf_eq hevent
  obtain ⟨eventType, htype⟩ := h.hierarchy.eventTypes found.1 hevent
  obtain ⟨text, htext, hid, howner, heq⟩ := href.ref.text
  have hrow : row.2 = some facts := List.mem_singleton.mp (hsingle ▸ href.facts)
  have hscope := mem_sessionTextIds href.mem href.stored href.ref.eventPk
  rw [href.event, hrow, sessionHitRow_intoHit href.ref hfacts htype]
  refine ⟨_, rfl, rfl, rfl, rfl, rfl, href.mem, href.holds, text, htext, hid, ?_, heq, hid ▸ hscope⟩
  exact howner.trans (beq_iff_eq.mp (Bool.and_eq_true_iff.mp hown).1)

theorem Sound.hitsInSession (h : Sound store) (hdigests : store.DigestsApart) {textIds : List ℕ}
    (hids : Holding store owner query (fun id => id ∈ sessionTextIds owner sessionPk store) textIds) :
    ∃ hits, Storage.hitsInSession owner sessionPk textIds store = .ok hits ∧
      List.Forall₂ (HitOf store owner sessionPk query)
        ((sessionFinds owner sessionPk query store).take (maxInSessionHits + 1)) hits := by
  rw [hitsInSession_eq, sessionHitRows]
  have hrefs := List.forall₂_take (maxInSessionHits + 1) (h.sessionFinds_refs hdigests hids)
  refine mapM_related (R := fun found row => ∃ ref, FindRef store owner sessionPk query found ref ∧
    row = sessionHitRow ref.1.1 ref.1.2 ref.2) ?_ ?_
  · exact List.forall₂_map_right_iff.mpr (hrefs.imp fun _ row href => ⟨row, href, rfl⟩)
  · rintro found _ ⟨row, href, rfl⟩
    exact h.findRef_hit href

theorem Sound.sessionStructure_ok (h : Sound store) (hown : hasOwnSession store owner sessionPk = true)
    {event : EventRow} (hmem : event ∈ sessionEvents owner sessionPk store) :
    ∃ structure', sessionStructure store owner sessionPk = .ok structure' := by
  obtain ⟨hevent, hboth⟩ := List.mem_filter.mp hmem
  obtain ⟨facts, -, hsingle⟩ := h.factsOf_eq hevent
  have hstream : intoStreamEvent event (some facts) ∈ streamEvents store sessionPk := by
    refine List.mem_flatMap.mpr ⟨event, mem_sortBy.mpr (List.mem_filter.mpr ⟨hevent, ?_⟩), ?_⟩
    · exact (Bool.and_eq_true_iff.mp hboth).2
    · exact List.mem_map_of_mem (hsingle ▸ List.mem_singleton_self _)
  have hnonempty : (streamEvents store sessionPk).isEmpty = false := by
    rw [List.isEmpty_eq_false_iff]
    exact List.ne_nil_of_mem hstream
  rw [sessionStructure, hown, hnonempty]
  exact ⟨_, rfl⟩

theorem Sound.withSegments_ok (h : Sound store) (hown : hasOwnSession store owner sessionPk = true)
    {finds : List (EventRow × Piece)} {hits : List InSessionHit}
    (hits_of : List.Forall₂ (HitOf store owner sessionPk query) finds hits) :
    ∃ segmented, withSegments owner sessionPk hits store = .ok segmented ∧
      List.Forall₂ (HitOf store owner sessionPk query) finds segmented := by
  unfold withSegments
  split
  · exact ⟨hits, rfl, hits_of⟩
  · next hnonempty =>
    obtain ⟨hit, rest, rfl⟩ := List.exists_cons_of_ne_nil fun hnil => hnonempty (List.isEmpty_iff.mpr hnil)
    obtain ⟨found, -, hof⟩ := Rows.forall₂_mem_right hits_of (List.mem_cons_self ..)
    obtain ⟨structure', hstructure⟩ := h.sessionStructure_ok hown hof.mem
    rw [hstructure]
    refine ⟨_, rfl, List.forall₂_map_right_iff.mpr (hits_of.imp fun found hit hof => ?_)⟩
    exact { hof with }

omit [Sha256] [CaseMapping] in
theorem find_text (ranges : Table ℕ (List (ℕ × ℕ))) (textId : ℕ) (ids : List ℕ) :
    (ids.filterMap fun id => (ranges id).map (MatchedText.mk id)).find? (fun text => text.id == textId) =
      if textId ∈ ids then (ranges textId).map (MatchedText.mk textId) else none := by
  induction ids with
  | nil => rfl
  | cons id ids ih =>
    rw [List.filterMap_cons]
    by_cases hid : id = textId
    · subst hid
      cases hranges : ranges id with
      | none => simp [ih, hranges]
      | some found => simp
    · cases hranges : ranges id with
      | none => simp [ih, Ne.symm hid]
      | some found => simp [ih, hid, Ne.symm hid]

omit [Sha256] [CaseMapping] in
theorem fromHits_text {text : String} {hits : List InSessionHit} {ranges : Table ℕ (List (ℕ × ℕ))}
    {hit : InSessionHit} (hhit : hit ∈ hits.take maxInSessionHits) :
    ((InSessionSearchResponse.fromHits text hits ranges).texts.find? fun text => text.id == hit.textId).map
      MatchedText.ranges = ranges hit.textId := by
  have hmem : hit.textId ∈ sortBy id ((hits.take maxInSessionHits).map InSessionHit.textId).dedup :=
    mem_sortBy.mpr (List.mem_dedup.mpr (List.mem_map_of_mem hhit))
  have hfind := find_text ranges hit.textId
    (sortBy id ((hits.take maxInSessionHits).map InSessionHit.textId).dedup)
  rw [if_pos hmem] at hfind
  apply (congrArg (Option.map MatchedText.ranges) hfind).trans
  rw [Option.map_map]
  exact Option.map_id' ..

theorem HitOf.response (h : Sound store) [TrigramIndex] [Iteration] (hquery : trim query ≠ "")
    {found : EventRow × Piece} {hit : InSessionHit} (hof : HitOf store owner sessionPk query found hit)
    {text : String} {hits : List InSessionHit} (hhit : hit ∈ hits.take maxInSessionHits) :
    responseHit (InSessionSearchResponse.fromHits text hits
      (ofPairs (matchedRanges owner (Pattern.new (trim query)) sessionPk store))) hit =
        scanHit query found.1 found.2 := by
  obtain ⟨row, hrow, hid, howner, heq, hscope⟩ := hof.text
  have hranges := h.ranges_eq hquery hrow howner hscope (heq ▸ hof.holds)
  rw [hid, heq] at hranges
  simp only [responseHit, scanHit, hof.eventPk, hof.entryIndex, hof.field, hof.new]
  rw [fromHits_text hhit, hranges]

theorem Sound.searchInSession (h : Sound store) (hdigests : store.DigestsApart) [TrigramIndex] [Iteration]
    (hown : hasOwnSession store owner sessionPk = true) {query : InSessionSearchQuery} {text : String}
    (hvalid : query.validate = .ok text) :
    ∃ response, Storage.searchInSession owner sessionPk query store = .ok response ∧
      response.hits.map (responseHit response) =
        (scanSession owner sessionPk query.q store).take maxInSessionHits ∧
      (response.truncated = true ↔ maxInSessionHits < (scanSession owner sessionPk query.q store).length) := by
  obtain ⟨rfl, hquery⟩ := normalizedRequired_spec hvalid
  obtain ⟨hits, hhits, hfinds⟩ := h.hitsInSession hdigests (h.ranges_holding owner sessionPk hquery)
  obtain ⟨segmented, hsegmented, hall⟩ := h.withSegments_ok hown hfinds
  refine ⟨InSessionSearchResponse.fromHits (trim query.q) segmented
    (ofPairs (matchedRanges owner (Pattern.new (trim query.q)) sessionPk store)), ?_, ?_, ?_⟩
  · rw [Storage.searchInSession, hvalid, hown]
    simp only [bind, Except.bind, Bool.not_true, Bool.false_eq_true, if_false]
    rw [hhits]
    simp only [hsegmented]
    rfl
  · have hkept := List.forall₂_take maxInSessionHits hall
    rw [List.take_take, Nat.min_eq_left (Nat.le_succ _)] at hkept
    rw [scanSession_eq, ← List.map_take]
    exact (Rows.forall₂_map_eq hkept fun found _ hit hhit hof => (hof.response h hquery hhit).symm).symm
  · have hlength := hall.length_eq
    rw [List.length_take] at hlength
    rw [scanSession_eq, List.length_map]
    simp only [InSessionSearchResponse.fromHits, decide_eq_true_eq]
    omega

end Response

end AbyssBackend.Storage
