import AbyssBackend.Search.HitOrder
import AbyssBackend.Storage.InSession
import AbyssBackend.Storage.OwnEvents
import AbyssBackend.Storage.SessionSearch

namespace AbyssBackend.Storage

open Attempts Search Sorting Streams Tables Text

variable [Sha256] [CaseMapping]

section Hits

variable {store : Store} {owner : Uuid} {event : EventRow} {ref : SearchRef}

theorem Sound.refPiece (h : Sound store) (hevent : event ∈ store.events) (href : ref ∈ store.searchRefs)
    (hpk : ref.eventPk = event.id) : ∃ piece ∈ pieces event.conversation,
      ref.entryIndex = piece.entryIndex ∧ ref.field = piece.field.asStr := by
  have hmem : ref ∈ store.searchRefs.filter fun ref => ref.eventPk = event.id :=
    List.mem_filter.mpr ⟨href, decide_eq_true hpk⟩
  obtain ⟨piece, hpiece, hrefers⟩ := Rows.forall₂_mem_right (h.eventRefs hevent) hmem
  exact ⟨piece, hpiece, hrefers.entryIndex, hrefers.field⟩

/-- The hits are those of pieces that the store's refs place. -/
structure RefHit (store : Store) (hit : SearchHit) : Prop where
  of : ∃ event ∈ store.events, ∃ piece, ∃ ref ∈ store.searchRefs, ref.eventPk = event.id ∧
    ref.entryIndex = piece.entryIndex ∧ ref.field = piece.field.asStr ∧ hit = pieceHit event piece ref.textId

theorem Sound.hitRow_ok (h : Sound store) {textIds : List ℕ} {query : ValidatedSearchQuery} {row : HitRow}
    (hrow : row ∈ hitRows owner textIds query store) : ∃ hit, row.intoHit = .ok hit ∧ RefHit store hit := by
  obtain ⟨event, hevent, -, ref, href, -, facts, hfacts, rfl⟩ := mem_hitRows.mp hrow
  obtain ⟨href, hpk⟩ := List.mem_filter.mp href
  have hpk : ref.eventPk = event.id := beq_iff_eq.mp hpk
  obtain ⟨piece, -, hentry, hfield⟩ := h.refPiece hevent href hpk
  obtain ⟨fact, hfact, hsingle⟩ := h.factsOf_eq hevent
  obtain ⟨eventType, htype⟩ := h.hierarchy.eventTypes event hevent
  obtain rfl := List.mem_singleton.mp (hsingle ▸ hfacts)
  exact ⟨_, hitRow_intoHit hpk hentry hfield hfact htype, event, hevent, piece, ref, href, hpk, hentry, hfield, rfl⟩

theorem Sound.consistent (h : Sound store) {hits : List SearchHit} (hhits : ∀ hit ∈ hits, RefHit store hit) :
    Consistent hits := by
  constructor
  case event =>
    intro x hx y hy hsame
    obtain ⟨event, hevent, piece, ref, -, -, -, -, rfl⟩ := hhits x hx
    obtain ⟨event', hevent', piece', ref', -, -, -, -, rfl⟩ := hhits y hy
    obtain rfl := List.inj_on_of_nodup_map h.hierarchy.eventPks hevent hevent' hsame
    exact ⟨rfl, rfl⟩
  case session =>
    intro x hx y hy hsame
    obtain ⟨event, hevent, piece, ref, -, -, -, -, rfl⟩ := hhits x hx
    obtain ⟨event', hevent', piece', ref', -, -, -, -, rfl⟩ := hhits y hy
    exact h.hierarchy.same_sessionId hevent hevent' hsame
  case piece =>
    intro x hx y hy hsame hentry hfield
    obtain ⟨event, hevent, piece, ref, href, hpk, hindex, hname, rfl⟩ := hhits x hx
    obtain ⟨event', hevent', piece', ref', href', hpk', hindex', hname', rfl⟩ := hhits y hy
    obtain rfl := List.inj_on_of_nodup_map h.hierarchy.eventPks hevent hevent' hsame
    have hindices : (piece.entryIndex : ℤ) = piece'.entryIndex := congrArg Nat.cast hentry
    have hnames : piece.field.asStr = piece'.field.asStr := congrArg PieceField.asStr hfield
    have hplace : ref.place = ref'.place := by
      simp only [SearchRef.place, hpk, hpk', hindex, hindex', hname, hname', hindices, hnames]
    obtain rfl := List.inj_on_of_nodup_map h.index.places href href' hplace
    exact ⟨rfl, by simp only [pieceHit, newPiece, hindices]⟩

end Hits

section Refs

variable {store : Store} {owner sessionPk : Uuid} {textIds : List ℕ}

theorem Sound.sessionRefs_inj (h : Sound store) {x y : (EventRow × SearchRef) × Option StreamFactsRow}
    (hx : x ∈ sessionRefs owner sessionPk textIds store) (hy : y ∈ sessionRefs owner sessionPk textIds store)
    (hsame : hitRank x.1 = hitRank y.1) : x = y := by
  obtain ⟨event, hevent, hx⟩ := List.mem_flatMap.mp hx
  obtain ⟨ref, href, hx⟩ := List.mem_flatMap.mp hx
  obtain ⟨facts, hfacts, rfl⟩ := List.mem_map.mp hx
  obtain ⟨event', hevent', hy⟩ := List.mem_flatMap.mp hy
  obtain ⟨ref', href', hy⟩ := List.mem_flatMap.mp hy
  obtain ⟨facts', hfacts', rfl⟩ := List.mem_map.mp hy
  obtain ⟨-, hrest⟩ := Prod.mk.inj (toLex_inj.mp hsame)
  obtain ⟨hid, hrest⟩ := Prod.mk.inj (toLex_inj.mp hrest)
  obtain ⟨hentry, hname⟩ := Prod.mk.inj (toLex_inj.mp hrest)
  have hmem := (List.mem_filter.mp hevent).1
  obtain rfl := List.inj_on_of_nodup_map h.hierarchy.eventPks hmem (List.mem_filter.mp hevent').1 hid
  obtain ⟨hstored, hpk⟩ := List.mem_filter.mp (List.mem_filter.mp href).1
  obtain ⟨hstored', hpk'⟩ := List.mem_filter.mp (List.mem_filter.mp href').1
  have hpk : ref.eventPk = event.id := beq_iff_eq.mp hpk
  have hpk' : ref'.eventPk = event.id := beq_iff_eq.mp hpk'
  obtain ⟨piece, -, -, hfield⟩ := h.refPiece hmem hstored hpk
  obtain ⟨piece', -, -, hfield'⟩ := h.refPiece hmem hstored' hpk'
  have hfields : ref.field = ref'.field := by
    dsimp only at hname
    rw [hfield, hfield'] at hname ⊢
    cases hpiece : piece.field <;> cases hpiece' : piece'.field <;> simp [hpiece, hpiece', PieceField.asStr] at hname ⊢
  have hplace : ref.place = ref'.place := by
    have hentry : ref.entryIndex = ref'.entryIndex := hentry
    simp only [SearchRef.place, hpk, hpk', hentry, hfields]
  obtain rfl := List.inj_on_of_nodup_map h.index.places hstored hstored' hplace
  obtain ⟨row, -, hsingle⟩ := h.factsOf_eq hmem
  rw [hsingle] at hfacts hfacts'
  rw [List.mem_singleton.mp hfacts, List.mem_singleton.mp hfacts']

theorem Sound.matchedRanges_same [TrigramIndex] (h : Sound store) (iteration : Iteration) {pattern : Pattern}
    {textId : ℕ}
    {ranges ranges' : List (ℕ × ℕ)} (hranges : (textId, ranges) ∈ matchedRanges owner pattern sessionPk store)
    (hranges' : (textId, ranges') ∈ matchedRanges owner pattern sessionPk store) : ranges' = ranges := by
  obtain ⟨text, htext, hfound⟩ := List.mem_filterMap.mp hranges
  obtain ⟨text', htext', hfound'⟩ := List.mem_filterMap.mp hranges'
  dsimp only at hfound hfound'
  split at hfound <;> cases hfound
  split at hfound'
  · cases hfound'
  · obtain ⟨hid, rfl⟩ := Prod.mk.inj (Option.some.inj hfound')
    have hstored := (mem_ownerTexts (mem_candidates.mp htext).1).1
    have hstored' := (mem_ownerTexts (mem_candidates.mp htext').1).1
    rw [List.inj_on_of_nodup_map h.index.indexed.ids hstored' hstored hid]

end Refs

section Titles

variable {store : Store} {owner sessionPk : Uuid}

theorem Sound.find_title (h : Sound store) {named : SessionTitle} {session : SessionRow}
    (hnamed : named ∈ store.sessionTitles) (hpk : named.sessionPk = session.id)
    (huser : named.userId = session.userId) :
    (store.sessionTitles.find? fun title => title.sessionPk == session.id && title.userId == session.userId) =
      some named := by
  have hsome : (store.sessionTitles.find? fun title => title.sessionPk == session.id &&
      title.userId == session.userId).isSome := List.find?_isSome.mpr ⟨named, hnamed, by simp [hpk, huser]⟩
  obtain ⟨found, hfound⟩ := Option.isSome_iff_exists.mp hsome
  have hboth := List.find?_some hfound
  simp only [Bool.and_eq_true, beq_iff_eq] at hboth
  rw [hfound, List.inj_on_of_nodup_map h.titles.sessions (List.mem_of_find?_eq_some hfound) hnamed
    (hboth.1.trans hpk.symm)]

theorem Sound.mem_titlePairs (h : Sound store) {sessionPks : List Uuid} {label : EntryLabel} :
    (sessionPk, label) ∈ (store.sessionTitles.flatMap fun title =>
      (store.sessions.filter fun session => session.id == title.sessionPk && session.userId == title.userId &&
        session.userId == owner && sessionPks.contains session.id).flatMap fun session =>
      (Rows.leftJoin (fun event => some event.id == title.titleEventPk && event.sessionPk == session.id &&
        event.eventType == "request") store.events).flatMap fun event =>
      (Rows.leftJoin (fun row => some row.eventPk == event.map EventRow.id) store.streamFacts).filterMap fun facts =>
      (EntryLabel.fromColumns (event.map EventRow.id) (facts.bind StreamFactsRow.labelIndex)
        (facts.bind StreamFactsRow.labelText) (facts.bind StreamFactsRow.labelLength)).map (session.id, ·)) ↔
    (hasOwnSession store owner sessionPk = true ∧ sessionPks.contains sessionPk = true) ∧
      title store sessionPk = some label := by
  have hevents : ∀ (eventPk : Option Uuid) (pk : Uuid), Rows.leftJoin (fun event : EventRow =>
      some event.id == eventPk && event.sessionPk == pk && event.eventType == "request") store.events =
        [store.events.find? fun event => some event.id == eventPk && event.sessionPk == pk &&
          event.eventType == "request"] := by
    intro eventPk pk
    have hpks : (store.events.map fun event => some event.id).Nodup := by
      have hmap := h.hierarchy.eventPks.map (Option.some_injective Uuid)
      rwa [List.map_map] at hmap
    apply Rows.leftJoin_find (Rows.filter_length_le_one hpks (k := eventPk) fun event _ hall => ?_)
    simp only [Bool.and_eq_true, beq_iff_eq] at hall
    exact hall.1.1
  have hfacts : ∀ eventPk : Option Uuid, Rows.leftJoin (fun row : StreamFactsRow => some row.eventPk == eventPk)
      store.streamFacts = [store.streamFacts.find? fun row => some row.eventPk == eventPk] := by
    intro eventPk
    have hpks : (store.streamFacts.map fun row => some row.eventPk).Nodup := by
      have hmap := (factsOf_pks h.streamFacts ▸ h.hierarchy.eventPks).map (Option.some_injective Uuid)
      rwa [List.map_map] at hmap
    exact Rows.leftJoin_find (Rows.filter_length_le_one hpks fun row _ hsame => beq_iff_eq.mp hsame)
  simp only [hevents, hfacts, List.mem_flatMap, List.mem_filter, List.mem_singleton, List.mem_filterMap,
    Bool.and_eq_true, beq_iff_eq]
  constructor
  · rintro ⟨named, hnamed, session, ⟨hsession, ⟨⟨hpk, huser⟩, howner⟩, hpage⟩, event, rfl, facts, rfl, hlabel⟩
    obtain ⟨shown, hshown, heq⟩ := Option.map_eq_some_iff.mp hlabel
    obtain ⟨rfl, rfl⟩ := Prod.mk.inj heq
    refine ⟨⟨hasOwnSession_of_mem hsession howner, hpage⟩, ?_⟩
    have hfind := h.find_title hnamed hpk.symm huser.symm
    rw [title, Rows.find_of_mem h.hierarchy.sessionIds hsession]
    simp only [Option.bind_eq_bind, Option.bind_some, hfind]
    exact hshown
  · rintro ⟨⟨hown, hpage⟩, htitle⟩
    obtain ⟨session, hsession, hid, howner⟩ := exists_ownSession hown
    obtain ⟨found, hfound, htitle⟩ := Option.bind_eq_some_iff.mp htitle
    obtain ⟨named, hnamed, hshown⟩ := Option.bind_eq_some_iff.mp htitle
    obtain ⟨hmem, hfoundId⟩ := Rows.find_mem hfound
    obtain rfl := List.inj_on_of_nodup_map h.hierarchy.sessionIds hmem hsession (hfoundId.trans hid.symm)
    have hboth := List.find?_some hnamed
    simp only [Bool.and_eq_true, beq_iff_eq] at hboth
    refine ⟨named, List.mem_of_find?_eq_some hnamed, found, ⟨hmem, ⟨⟨hboth.1.symm, hboth.2.symm⟩, howner⟩,
      hid ▸ hpage⟩, _, rfl, _, rfl, ?_⟩
    rw [Option.map_eq_some_iff]
    exact ⟨label, hshown, by rw [hid]⟩

/-- The titles of a page are those that the sessions have on their own. -/
theorem Sound.titles_eq (h : Sound store) (sessionPks : List Uuid) : Storage.titles store owner sessionPks sessionPk =
    if hasOwnSession store owner sessionPk = true ∧ sessionPks.contains sessionPk = true then title store sessionPk
    else none := by
  split
  · next hshown =>
    cases htitle : title store sessionPk with
    | none =>
      refine ofPairs_eq_none.mpr fun label hlabel => ?_
      cases htitle.symm.trans (h.mem_titlePairs.mp hlabel).2
    | some label =>
      refine ofPairs_of_mem (h.mem_titlePairs.mpr ⟨hshown, htitle⟩) fun other hother => ?_
      exact Option.some.inj ((h.mem_titlePairs.mp hother).2.symm.trans htitle)
  · next hout => exact ofPairs_eq_none.mpr fun label hlabel => hout (h.mem_titlePairs.mp hlabel).1

end Titles

namespace Agree

variable {owner : Uuid} {store store' : Store} {event : EventRow}

section Candidates

theorem texts (h : Agree owner store store') {p : SearchText → Bool}
    (hp : ∀ text, p text = true → text.userId = owner) :
    (store.searchTexts.filter p).Perm (store'.searchTexts.filter p) :=
  Rows.filter_perm_of h.rows.searchTexts (fun text _ hpass => beq_iff_eq.mpr (hp text hpass))
    (fun text _ hpass => beq_iff_eq.mpr (hp text hpass)) fun _ _ _ => rfl

theorem refs (h : Agree owner store store') (hevent : event ∈ store.events) (howner : event.userId = owner) :
    (store.searchRefs.filter fun ref => ref.eventPk == event.id).Perm
      (store'.searchRefs.filter fun ref => ref.eventPk == event.id) := by
  have howns : ∀ {store : Store}, event ∈ store.events → ∀ ref ∈ store.searchRefs, (ref.eventPk == event.id) = true →
      store.ownsEvent owner ref.eventPk = true := by
    intro store hevent ref _ hpk
    exact List.any_eq_true.mpr ⟨event, hevent, by simp [howner, beq_iff_eq.mp hpk]⟩
  exact Rows.filter_perm_of h.rows.searchRefs (howns hevent) (howns (h.mem_events hevent howner)) fun _ _ _ => rfl

theorem sessionEvents (h : Agree owner store store') (sessionPk : Uuid) :
    (sessionEvents owner sessionPk store).Perm (Storage.sessionEvents owner sessionPk store') :=
  h.ownEvents fun _ hboth => beq_iff_eq.mp (Bool.and_eq_true_iff.mp hboth).1

omit [Sha256] [CaseMapping] in
theorem mem_sessionEvents {sessionPk : Uuid} (h : event ∈ Storage.sessionEvents owner sessionPk store) :
    event ∈ store.events ∧ event.userId = owner :=
  ⟨(List.mem_filter.mp h).1, beq_iff_eq.mp (Bool.and_eq_true_iff.mp (List.mem_filter.mp h).2).1⟩

theorem sessionTextIds (h : Agree owner store store') (sessionPk : Uuid) :
    (sessionTextIds owner sessionPk store).Perm (Storage.sessionTextIds owner sessionPk store') := by
  apply Rows.flatMap_perm_of (h.sessionEvents sessionPk)
  intro event hevent
  obtain ⟨hmem, howner⟩ := mem_sessionEvents hevent
  exact (h.refs hmem howner).map _

variable [TrigramIndex]

theorem ownerTexts (h : Agree owner store store') (pattern : Pattern) :
    (ownerTexts owner pattern store).Perm (Storage.ownerTexts owner pattern store') := by
  unfold Storage.ownerTexts
  split
  · exact h.texts fun text hpass => beq_iff_eq.mp hpass
  · next expression _ =>
    have howned : ∀ store : Store, ((store.searchTextsTrigram.filter fun row =>
        TrigramIndex.isMatch expression row.folded).flatMap fun row => store.searchTexts.filter fun text =>
          text.id == row.rowid && text.userId == owner) = ((store.searchTextsTrigram.filter fun row =>
        store.ownsText owner row.rowid).filter fun row => TrigramIndex.isMatch expression row.folded).flatMap fun row =>
          store.searchTexts.filter fun text => text.id == row.rowid && text.userId == owner := by
      intro store
      rw [List.filter_comm]
      apply Rows.flatMap_filter_of
      intro row _ hne
      obtain ⟨text, htext⟩ := List.exists_mem_of_ne_nil _ hne
      obtain ⟨hmem, hboth⟩ := List.mem_filter.mp htext
      simp only [Bool.and_eq_true, beq_iff_eq] at hboth
      exact List.any_eq_true.mpr ⟨text, hmem, by simp [hboth]⟩
    rw [howned, howned]
    apply Rows.flatMap_perm_of (h.rows.searchTextsTrigram.filter _)
    intro row _
    exact h.texts fun text hboth => beq_iff_eq.mp (Bool.and_eq_true_iff.mp hboth).2

theorem candidates (h : Agree owner store store') (pattern : Pattern) (sessionPk : Option Uuid)
    (iteration iteration' : Iteration) : (@candidates _ iteration owner pattern sessionPk store).Perm
      (@Storage.candidates _ iteration' owner pattern sessionPk store') := by
  have hids : ∀ textId,
      (sessionPk.all fun sessionPk => (Storage.sessionTextIds owner sessionPk store).contains textId) =
        sessionPk.all fun sessionPk => (Storage.sessionTextIds owner sessionPk store').contains textId := by
    intro textId
    cases sessionPk with
    | none => rfl
    | some sessionPk => exact contains_perm (h.sessionTextIds sessionPk) textId
  unfold Storage.candidates
  refine (iteration.perm _ _).trans (List.Perm.trans ?_ (iteration'.perm _ _).symm)
  simp only [hids]
  exact (h.ownerTexts pattern).filter _

end Candidates

section Hits

theorem hitRows (h : Agree owner store store') {textIds textIds' : List ℕ} (hids : textIds.Perm textIds')
    (query : ValidatedSearchQuery) :
    (hitRows owner textIds query store).Perm (Storage.hitRows owner textIds' query store') := by
  have howned : ∀ (store : Store) (textId : ℕ), ((store.searchRefs.filter fun ref => ref.textId == textId).flatMap
      fun ref => (store.events.filter fun event => event.id == ref.eventPk && event.userId == owner &&
        admits query event).flatMap fun event => (Storage.factsOf store event.id).map (hitRow event ref)) =
      ((store.searchRefs.filter fun ref => store.ownsEvent owner ref.eventPk).filter fun ref =>
        ref.textId == textId).flatMap fun ref => (store.events.filter fun event => event.id == ref.eventPk &&
          event.userId == owner && admits query event).flatMap fun event =>
            (Storage.factsOf store event.id).map (hitRow event ref) := by
    intro store textId
    rw [List.filter_comm]
    apply Rows.flatMap_filter_of
    intro ref _ hne
    obtain ⟨row, hrow⟩ := List.exists_mem_of_ne_nil _ hne
    obtain ⟨event, hevent, -⟩ := List.mem_flatMap.mp hrow
    obtain ⟨hmem, hall⟩ := List.mem_filter.mp hevent
    simp only [Bool.and_eq_true, beq_iff_eq] at hall
    exact List.any_eq_true.mpr ⟨event, hmem, by simp [hall]⟩
  unfold Storage.hitRows
  apply Rows.flatMap_perm_of hids
  intro textId _
  rw [howned, howned]
  apply Rows.flatMap_perm_of (h.rows.searchRefs.filter _)
  intro ref _
  apply Rows.flatMap_perm_of (h.ownEvents fun event hall => ?_) fun event hevent => ?_
  · simp only [Bool.and_eq_true, beq_iff_eq] at hall
    exact hall.1.2
  · obtain ⟨hmem, hall⟩ := List.mem_filter.mp hevent
    simp only [Bool.and_eq_true, beq_iff_eq] at hall
    rw [h.factsOf hmem hall.1.2]

theorem sessionHits (h : Agree owner store store') {textIds textIds' : List ℕ} (hids : textIds.Perm textIds')
    (query : ValidatedSearchQuery) (iteration iteration' : Iteration) :
    ∃ hits hits', @sessionHits owner textIds query store iteration = .ok hits ∧
      @Storage.sessionHits owner textIds' query store' iteration' = .ok hits' ∧ hits.Perm hits' ∧ Consistent hits := by
  rw [@sessionHits_eq _ _ iteration, @sessionHits_eq _ _ iteration']
  have hrows := ((iteration.perm .hits _).trans (h.hitRows hids query)).trans (iteration'.perm .hits _).symm
  have hall : ∀ row ∈ iteration.order .hits (Storage.hitRows owner textIds query store),
      ∃ hit, row.intoHit = .ok hit ∧ RefHit store hit :=
    fun row hrow => h.sound.hitRow_ok ((iteration.perm _ _).mem_iff.mp hrow)
  obtain ⟨hits, hhits, hrefs⟩ := mapM_all hall
  have halike := mapM_perm (e := AppError.database .notFound) hrows fun row hrow error herror => by
    obtain ⟨hit, hhit, -⟩ := hall row hrow
    cases hhit.symm.trans herror
  have hconsistent := h.sound.consistent fun hit hhit => by
    obtain ⟨row, -, href⟩ := Rows.forall₂_mem_right hrefs hhit
    exact href
  rw [hhits] at halike ⊢
  cases hhits' : (iteration'.order .hits (Storage.hitRows owner textIds' query store')).mapM HitRow.intoHit with
  | ok hits' =>
    rw [hhits'] at halike
    cases halike with
    | ok hperm => exact ⟨hits, hits', rfl, rfl, hperm, hconsistent⟩
  | error error =>
    rw [hhits'] at halike
    cases halike

end Hits

section Page

theorem sessionDetails (h : Agree owner store store') (sessionPks : List Uuid) :
    sessionDetails owner store sessionPks = Storage.sessionDetails owner store' sessionPks := by
  apply ofPairs_perm
  · apply Rows.flatMap_perm_of
    · apply Rows.filter_perm_of h.rows.sessions ?_ ?_ fun _ _ _ => rfl
      all_goals exact fun session _ hboth => (Bool.and_eq_true_iff.mp hboth).1
    · intro session hsession
      obtain ⟨hmem, hboth⟩ := List.mem_filter.mp hsession
      obtain ⟨device, hdevice, hid, howner⟩ := h.sound.hierarchy.sessionDevices session hmem
      have hown : device.userId = owner := howner.trans (beq_iff_eq.mp (Bool.and_eq_true_iff.mp hboth).1)
      rw [h.devices hdevice hown fun other => by rw [beq_iff_eq, hid]]
  · intro sessionPk details details' hdetails hdetails'
    obtain ⟨session, hsession, hpair⟩ := List.mem_flatMap.mp hdetails
    obtain ⟨session', hsession', hpair'⟩ := List.mem_flatMap.mp hdetails'
    obtain ⟨device, hdevice, heq⟩ := List.mem_map.mp hpair
    obtain ⟨device', hdevice', heq'⟩ := List.mem_map.mp hpair'
    obtain ⟨hid, rfl⟩ := Prod.mk.inj heq
    obtain ⟨hid', rfl⟩ := Prod.mk.inj heq'
    obtain rfl := List.inj_on_of_nodup_map h.sound.hierarchy.sessionIds (List.mem_filter.mp hsession).1
      (List.mem_filter.mp hsession').1 (hid.trans hid'.symm)
    obtain ⟨hmem, hof⟩ := List.mem_filter.mp hdevice
    obtain ⟨hmem', hof'⟩ := List.mem_filter.mp hdevice'
    rw [List.inj_on_of_nodup_map h.sound.hierarchy.deviceIds hmem hmem'
      ((beq_iff_eq.mp hof).trans (beq_iff_eq.mp hof').symm)]

theorem matchedEvents (h : Agree owner store store') (eventPks : List Uuid) :
    matchedEvents owner store eventPks = Storage.matchedEvents owner store' eventPks := by
  apply ofPairs_perm
  · exact (h.ownEvents fun event hboth => beq_iff_eq.mp (Bool.and_eq_true_iff.mp hboth).2).map _
  · intro eventPk found found' hfound hfound'
    obtain ⟨event, hevent, heq⟩ := List.mem_map.mp hfound
    obtain ⟨event', hevent', heq'⟩ := List.mem_map.mp hfound'
    obtain ⟨hid, rfl⟩ := Prod.mk.inj heq
    obtain ⟨hid', rfl⟩ := Prod.mk.inj heq'
    rw [List.inj_on_of_nodup_map h.sound.hierarchy.eventPks (List.mem_filter.mp hevent).1
      (List.mem_filter.mp hevent').1 (hid.trans hid'.symm)]

theorem textFragments (h : Agree owner store store') (pattern : Pattern) (textIds : List ℕ) :
    textFragments owner pattern textIds store = Storage.textFragments owner pattern textIds store' := by
  apply ofPairs_perm
  · exact (h.texts fun text hboth => beq_iff_eq.mp (Bool.and_eq_true_iff.mp hboth).1).filterMap _
  · intro textId shown shown' hshown hshown'
    obtain ⟨text, htext, hpair⟩ := List.mem_filterMap.mp hshown
    obtain ⟨text', htext', hpair'⟩ := List.mem_filterMap.mp hshown'
    obtain ⟨cut, hcut, heq⟩ := Option.map_eq_some_iff.mp hpair
    obtain ⟨cut', hcut', heq'⟩ := Option.map_eq_some_iff.mp hpair'
    obtain ⟨hid, rfl⟩ := Prod.mk.inj heq
    obtain ⟨hid', rfl⟩ := Prod.mk.inj heq'
    obtain rfl := List.inj_on_of_nodup_map h.sound.index.indexed.ids (List.mem_filter.mp htext).1
      (List.mem_filter.mp htext').1 (hid.trans hid'.symm)
    exact Option.some.inj (hcut'.symm.trans hcut)

theorem titles (h : Agree owner store store') (sessionPks : List Uuid) :
    titles store owner sessionPks = Storage.titles store' owner sessionPks := by
  funext sessionPk
  rw [h.sound.titles_eq, h.sound'.titles_eq, ← h.hasOwnSession]
  split
  · next hshown => exact h.title hshown.1
  · rfl

variable [TrigramIndex]

theorem sessionSearch (h : Agree owner store store') (query : SessionSearchQuery) (iteration iteration' : Iteration) :
    @sessionSearch _ _ iteration owner query store = @Storage.sessionSearch _ _ iteration' owner query store' := by
  unfold Storage.sessionSearch
  apply (alike_eq.mpr rfl).bind_eq
  rintro validated _ rfl
  have hids := ((h.candidates (Pattern.new validated.text) none iteration iteration').filter fun text =>
    (Pattern.new validated.text).isMatch text.text).map SearchText.id
  obtain ⟨hits, hits', hhits, hhits', hperm, hconsistent⟩ := h.sessionHits hids validated iteration iteration'
  have hpage := hconsistent.rankSessions_perm iteration iteration' hperm validated.offset validated.pageSize
  have hhydrate : ∀ page : RankedPage, hydratePage owner validated (Pattern.new validated.text) page store =
      hydratePage owner validated (Pattern.new validated.text) page store' := by
    intro page
    unfold hydratePage
    rw [h.sessionDetails, h.matchedEvents, h.textFragments]
    simp only [h.titles]
  dsimp only
  rw [hhits, hhits']
  simp only [bind, Except.bind, hpage, hhydrate]

end Page

section InSession

variable {sessionPk : Uuid}

theorem sessionRefs (h : Agree owner store store') {textIds textIds' : List ℕ} (hids : textIds.Perm textIds') :
    (sessionRefs owner sessionPk textIds store).Perm (Storage.sessionRefs owner sessionPk textIds' store') := by
  apply Rows.flatMap_perm_of (h.sessionEvents sessionPk)
  intro event hevent
  obtain ⟨hmem, howner⟩ := mem_sessionEvents hevent
  rw [h.factsOf hmem howner]
  simp only [contains_perm hids]
  exact ((h.refs hmem howner).filter _).flatMap_right _

theorem sessionHitRows (h : Agree owner store store') {textIds textIds' : List ℕ} (hids : textIds.Perm textIds') :
    sessionHitRows owner sessionPk textIds store = Storage.sessionHitRows owner sessionPk textIds' store' := by
  have hsorted : sortBy (fun row => hitRank row.1) (Storage.sessionRefs owner sessionPk textIds store) =
      sortBy (fun row => hitRank row.1) (Storage.sessionRefs owner sessionPk textIds' store') := by
    exact sortBy_congr (h.sessionRefs hids) fun x hx y hy hsame => h.sound'.sessionRefs_inj hx hy hsame
  unfold Storage.sessionHitRows
  rw [hsorted]

variable (sessionPk) in
theorem hitsInSession (h : Agree owner store store') {textIds textIds' : List ℕ} (hids : textIds.Perm textIds') :
    hitsInSession owner sessionPk textIds store = Storage.hitsInSession owner sessionPk textIds' store' := by
  rw [hitsInSession_eq, hitsInSession_eq, h.sessionHitRows hids]

theorem withSegments (h : Agree owner store store') (hits : List InSessionHit) :
    withSegments owner sessionPk hits store = Storage.withSegments owner sessionPk hits store' := by
  unfold Storage.withSegments
  rw [h.sessionStructure]

variable [TrigramIndex]

theorem matchedRanges (h : Agree owner store store') (pattern : Pattern) (iteration iteration' : Iteration) :
    (@matchedRanges _ _ iteration owner pattern sessionPk store).Perm
      (@Storage.matchedRanges _ _ iteration' owner pattern sessionPk store') :=
  (h.candidates pattern (some sessionPk) iteration iteration').filterMap _

theorem searchInSession (h : Agree owner store store') (query : InSessionSearchQuery)
    (iteration iteration' : Iteration) : @searchInSession _ _ iteration owner sessionPk query store =
      @Storage.searchInSession _ _ iteration' owner sessionPk query store' := by
  unfold Storage.searchInSession
  apply (alike_eq.mpr rfl).bind_eq
  rintro text _ rfl
  rw [← h.hasOwnSession]
  have hranges : (@Storage.matchedRanges _ _ iteration owner (Pattern.new text) sessionPk store).Perm
      (@Storage.matchedRanges _ _ iteration' owner (Pattern.new text) sessionPk store') :=
    h.matchedRanges (Pattern.new text) iteration iteration'
  have htable := ofPairs_perm hranges fun _ _ _ => h.sound.matchedRanges_same iteration
  have hids := ((iteration.perm .ranges _).trans ((hranges.map Prod.fst).dedup)).trans
    (iteration'.perm .ranges _).symm
  have hhits := h.hitsInSession sessionPk hids
  simp only [hhits, htable, h.withSegments]

end InSession

end Agree

end AbyssBackend.Storage
