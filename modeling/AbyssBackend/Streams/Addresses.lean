import AbyssBackend.Streams.EventGroups
import AbyssBackend.Streams.Forest

namespace AbyssBackend.Streams

open Groups Segmentation Tables

namespace SessionStructure

def Holds (s : SessionStructure) (x : ℕ) (event : StreamEvent) : Prop :=
  ∃ exchange, s.exchanges[x]? = some exchange ∧ event.pk ∈ exchange.eventPks

def Begins (s : SessionStructure) (x : ℕ) : Prop :=
  ∃ (j : ℕ) (segment : Segment), s.segmentation.segments[j]? = some segment ∧
    segment.exchanges.head? = some x

/-- Listed heads and event positions lead back to their segments. -/
structure Addressable (s : SessionStructure) (events : List StreamEvent) : Prop where
  run : ∀ (j : ℕ) (described : StreamSegment), s.sessionStreams[j]? = some described →
    ∃ (segment : Segment) (run : SegmentRun),
    s.segmentation.segments[j]? = some segment ∧ s.segmentRun described.head = some run ∧
    run.segment = described.head ∧ run.exchanges = segment.exchanges.map s.exchange ∧
    run.exchanges.length = described.exchangeCount
  position : ∀ event ∈ events, ∃ (location : EventLocation) (x : ℕ) (described : StreamSegment)
    (run : SegmentRun), s.eventPosition event.pk = some location ∧ s.Holds x event ∧ described ∈ s.sessionStreams ∧
    described.head = location.segment ∧ s.segmentRun location.segment = some run ∧
    s.exchange x ∈ run.exchanges

def FirstNamed (s : SessionStructure) (x : ℕ) : Prop := ∀ k < x, s.id k ≠ s.id x

variable {events : List StreamEvent}

theorem exchangeAt_eq {s : SessionStructure} {x : ℕ} {exchange : Exchange}
    (h : s.exchanges[x]? = some exchange) : s.exchangeAt x = exchange := by
  rw [Derivation.exchangeAt, List.getD_eq_getElem?_getD, h, Option.getD_some]

theorem exchangeById_eq {x : ℕ} (hx : x < (derive events).exchanges.length)
    (hfirst : (derive events).FirstNamed x) : (derive events).exchangeById ((derive events).id x) = some x := by
  have hget := List.getElem?_eq_getElem hx
  have hname : (derive events).id x = ((derive events).exchanges[x]).id := by
    rw [Derivation.id, exchangeAt_eq hget]
  rw [hname]
  apply ofFirst_zipIdx (f := Exchange.id) hget
  intro k hk exchange hexchange
  have hne := hfirst k hk
  rwa [hname, Derivation.id, exchangeAt_eq hexchange] at hne

theorem exists_firstNamed (s : SessionStructure) (x : ℕ) : ∃ k ≤ x, s.id k = s.id x ∧ s.FirstNamed k := by
  induction x using Nat.strong_induction_on with
  | h x ih =>
    by_cases hfirst : s.FirstNamed x
    · exact ⟨x, le_rfl, rfl, hfirst⟩
    · simp only [FirstNamed, not_forall, not_not] at hfirst
      obtain ⟨k, hk, hid⟩ := hfirst
      obtain ⟨first, hle, hfirst, hnamed⟩ := ih k hk
      exact ⟨first, hle.trans hk.le, hfirst.trans hid, hnamed⟩

theorem segmentOf_eq {x j : ℕ} {segment : Segment}
    (hsegment : (derive events).segmentation.segments[j]? = some segment) (hx : x ∈ segment.exchanges) :
    (derive events).segmentation.segmentOf.getD x 0 = j := by
  have hlt := ((partition events).members segment (List.mem_of_getElem? hsegment)).2 x hx
  obtain ⟨k, hk, hown⟩ := (partition events).owner x hlt
  rw [List.getD_eq_getElem?_getD, hk, Option.getD_some]
  exact ((hown j).mp ⟨segment, hsegment, hx⟩).symm

variable (events) in
theorem exists_segment {x : ℕ} (hx : x < (derive events).exchanges.length) :
    ∃ (j : ℕ) (segment : Segment), (derive events).segmentation.segments[j]? = some segment ∧
      x ∈ segment.exchanges := by
  obtain ⟨j, -, hown⟩ := (partition events).owner x hx
  obtain ⟨segment, hsegment, hmem⟩ := (hown j).mpr rfl
  exact ⟨j, segment, hsegment, hmem⟩

theorem segmentRun_eq {fromId : String} {x j position : ℕ} {segment : Segment}
    (hfrom : (derive events).exchangeById fromId = some x)
    (hsegment : (derive events).segmentation.segments[j]? = some segment)
    (hposition : segment.exchanges.idxOf? x = some position) :
    (derive events).segmentRun fromId = some ⟨(derive events).segmentHead j,
      (segment.exchanges.drop position).map (derive events).exchange⟩ := by
  have hx : x ∈ segment.exchanges := by
    obtain ⟨hlt, heq, -⟩ := List.idxOf?_eq_some_iff.mp hposition
    exact heq ▸ List.getElem_mem hlt
  simp only [segmentRun, hfrom, segmentOf_eq hsegment hx, hsegment, Option.map_some, Option.getD_some,
    hposition, Option.bind_eq_bind, Option.bind_some]
  rfl

theorem segmentRun_first {fromId : String} {x : ℕ} {run : SegmentRun}
    (hx : x < (derive events).exchanges.length)
    (hfrom : (derive events).exchangeById fromId = some x)
    (hrun : (derive events).segmentRun fromId = some run) :
    run.exchanges.head? = some ((derive events).exchange x) := by
  obtain ⟨j, segment, hsegment, hmem⟩ := exists_segment events hx
  obtain ⟨position, hposition⟩ : ∃ position, segment.exchanges.idxOf? x = some position :=
    Option.ne_none_iff_exists'.mp (mt List.idxOf?_eq_none_iff.mp (not_not.mpr hmem))
  obtain ⟨hlt, heq, -⟩ := List.idxOf?_eq_some_iff.mp hposition
  rw [segmentRun_eq hfrom hsegment hposition] at hrun
  cases hrun
  simp [List.head?_drop, List.getElem?_eq_getElem hlt, heq]

theorem segmentRun_head {x j : ℕ} {segment : Segment} (hfirst : (derive events).FirstNamed x)
    (hsegment : (derive events).segmentation.segments[j]? = some segment)
    (hhead : segment.exchanges.head? = some x) :
    (derive events).segmentRun ((derive events).id x) =
      some ⟨(derive events).id x, segment.exchanges.map (derive events).exchange⟩ := by
  obtain ⟨rest, hrest⟩ : ∃ rest, segment.exchanges = x :: rest := by
    cases h : segment.exchanges with
    | nil => simp [h] at hhead
    | cons first rest => exact ⟨rest, by simpa [h] using hhead⟩
  have hlt := ((partition events).members segment (List.mem_of_getElem? hsegment)).2 x (by simp [hrest])
  have hposition : segment.exchanges.idxOf? x = some 0 := by simp [hrest, List.idxOf?_cons]
  have hsegmentHead : (derive events).segmentHead j = (derive events).id x := by
    simp [Derivation.segmentHead, hsegment, hrest]
  rw [segmentRun_eq (exchangeById_eq hlt hfirst) hsegment hposition, hsegmentHead, List.drop_zero]

theorem exchange_group {x : ℕ} {exchange : Exchange} (h : (derive events).exchanges[x]? = some exchange) :
    ∃ group, (exchangeGroups events)[x]? = some group ∧ group ∈ eventGroups events ∧ exchange = formed group ∧
      Built (group.2.map Prod.fst) exchange := by
  have hgroups : (groupExchanges events)[x]? = some exchange := h
  rw [groupExchanges_eq, List.getElem?_map] at hgroups
  obtain ⟨group, hgroup, rfl⟩ := Option.map_eq_some_iff.mp hgroups
  have hmem := mem_exchangeGroups.mp (List.mem_of_getElem? hgroup)
  exact ⟨group, hgroup, hmem, rfl, formed_built hmem⟩

theorem record_pk {x : ℕ} {exchange : Exchange} (h : (derive events).exchanges[x]? = some exchange) :
    ∃ pk ∈ exchange.eventPks,
      (((derive events).exchange x).requestPk.or ((derive events).exchange x).responsePk) = some pk := by
  obtain ⟨group, -, hmem, -, hbuilt⟩ := exchange_group h
  have hrequestPk : ((derive events).exchange x).requestPk = exchange.request.map Side.pk := by
    rw [Derivation.exchange, exchangeAt_eq h]
  have hresponsePk : ((derive events).exchange x).responsePk = exchange.response.map Side.pk := by
    rw [Derivation.exchange, exchangeAt_eq h]
  rw [hrequestPk, hresponsePk, hbuilt.request, hbuilt.response, hbuilt.eventPks]
  cases hrequest : (group.2.map Prod.fst).findSome? requestSide with
  | some side =>
    obtain ⟨event, hevent, hside⟩ := List.exists_of_findSome?_eq_some hrequest
    refine ⟨side.pk, List.mem_map.mpr ⟨event, hevent, ?_⟩, rfl⟩
    simp only [requestSide] at hside
    split at hside <;> cases hside
    rfl
  | none =>
    obtain ⟨indexed, hindexed⟩ := List.exists_mem_of_ne_nil _ (eventGroup_ne_nil hmem)
    have hfirst : indexed.1 ∈ group.2.map Prod.fst := List.mem_map_of_mem hindexed
    have hresponses : (group.2.map Prod.fst).findSome? responseSide ≠ none := by
      intro hnone
      have hsides := side_exists indexed.1
      simp [List.findSome?_eq_none_iff.mp hrequest _ hfirst, List.findSome?_eq_none_iff.mp hnone _ hfirst] at hsides
    obtain ⟨side, hresponse⟩ := Option.ne_none_iff_exists'.mp hresponses
    obtain ⟨event, hevent, hside⟩ := List.exists_of_findSome?_eq_some hresponse
    refine ⟨side.pk, List.mem_map.mpr ⟨event, hevent, ?_⟩, by rw [hresponse]; rfl⟩
    simp only [responseSide] at hside
    split at hside <;> cases hside
    rfl

theorem begins_lt {x j : ℕ} {segment : Segment}
    (hsegment : (derive events).segmentation.segments[j]? = some segment)
    (hhead : segment.exchanges.head? = some x) : x < (derive events).exchanges.length :=
  ((partition events).members segment (List.mem_of_getElem? hsegment)).2 x (List.mem_of_head? hhead)

theorem streams_getElem? {j : ℕ} {segment : Segment}
    (hsegment : (derive events).segmentation.segments[j]? = some segment) :
    (derive events).sessionStreams[j]? = some ((derive events).segment segment) :=
  List.getElem?_map.trans (congrArg _ hsegment)

theorem head_eq {x : ℕ} {segment : Segment} (hhead : segment.exchanges.head? = some x) :
    ((derive events).segment segment).head = (derive events).id x := by
  simp [Derivation.segment, hhead]

theorem holds_exists {event : StreamEvent} (hevent : event ∈ events) :
    ∃ x < (derive events).exchanges.length, (derive events).Holds x event := by
  have hpk : event.pk ∈ (groupExchanges events).flatMap Exchange.eventPks :=
    (eventPks_perm events).mem_iff.mpr (List.mem_map_of_mem hevent)
  obtain ⟨exchange, hexchange, hpk⟩ := List.mem_flatMap.mp hpk
  obtain ⟨x, hx⟩ := List.getElem?_of_mem hexchange
  exact ⟨x, (List.getElem?_eq_some_iff.mp hx).1, exchange, hx, hpk⟩

section Pks

variable (hpks : (events.map StreamEvent.pk).Nodup)

include hpks

theorem eventToExchange_eq {x : ℕ} {pk : Uuid} {exchange : Exchange}
    (hexchange : (derive events).exchanges[x]? = some exchange) (hpk : pk ∈ exchange.eventPks) :
    (derive events).eventToExchange pk = some x := by
  have hkeys : (((deriveExchanges events).exchanges.zipIdx.flatMap fun indexed =>
      indexed.1.eventPks.map fun pk => (pk, indexed.2)).map Prod.fst) =
      (deriveExchanges events).exchanges.flatMap Exchange.eventPks := by
    conv_rhs => rw [← List.zipIdx_map_fst 0 (deriveExchanges events).exchanges, List.flatMap_map]
    rw [List.map_flatMap]
    simp [List.map_map, Function.comp_def]
  refine (ofPairs_eq_some ?_).mpr ?_
  · exact (congrArg List.Nodup hkeys).mpr ((eventPks_perm events).nodup_iff.mpr hpks)
  · refine List.mem_flatMap.mpr ⟨(exchange, x), List.mem_zipIdx_iff_getElem?.mpr hexchange, ?_⟩
    exact List.mem_map.mpr ⟨pk, hpk, rfl⟩

theorem eventPosition_eq {x j : ℕ} {event : StreamEvent} {segment : Segment}
    (hx : (derive events).Holds x event)
    (hsegment : (derive events).segmentation.segments[j]? = some segment) (hmem : x ∈ segment.exchanges) :
    (derive events).eventPosition event.pk = some
      { segment := (derive events).segmentHead j
        turn := ((derive events).turn x).2
        segmentKind := segment.kind
        exchange := (derive events).id x } := by
  obtain ⟨exchange, hexchange, hpk⟩ := hx
  have hkind : (derive events).segments[j]?.map StreamSegment.kind = some segment.kind :=
    congrArg (Option.map StreamSegment.kind) (streams_getElem? hsegment)
  simp only [eventPosition, eventToExchange_eq hpks hexchange hpk, segmentOf_eq hsegment hmem, hkind,
    Option.bind_eq_bind, Option.bind_some]
  rfl

theorem eventPosition_isSome {event : StreamEvent} (hevent : event ∈ events) :
    ((derive events).eventPosition event.pk).isSome := by
  obtain ⟨x, hlt, hholds⟩ := holds_exists hevent
  obtain ⟨j, segment, hsegment, hmem⟩ := exists_segment events hlt
  rw [eventPosition_eq hpks hholds hsegment hmem, Option.isSome_some]

theorem record_inj {x y : ℕ} (hx : x < (derive events).exchanges.length)
    (hy : y < (derive events).exchanges.length)
    (h : (derive events).exchange x = (derive events).exchange y) : x = y := by
  obtain ⟨pk, hpk, hrecord⟩ := record_pk (List.getElem?_eq_getElem hx)
  obtain ⟨pk', hpk', hrecord'⟩ := record_pk (List.getElem?_eq_getElem hy)
  rw [h, hrecord'] at hrecord
  obtain rfl : pk' = pk := Option.some.inj hrecord
  have hto := eventToExchange_eq hpks (List.getElem?_eq_getElem hx) hpk
  rw [eventToExchange_eq hpks (List.getElem?_eq_getElem hy) hpk'] at hto
  exact (Option.some.inj hto).symm

theorem firstNamed_of_addressable (h : Addressable (derive events) events) {x : ℕ}
    (hx : (derive events).Begins x) : (derive events).FirstNamed x := by
  intro k hk hid
  obtain ⟨j, segment, hsegment, hhead⟩ := hx
  have hlt := begins_lt hsegment hhead
  obtain ⟨first, hle, hfirst, hnamed⟩ := exists_firstNamed (derive events) k
  have hfirstLt : first < (derive events).exchanges.length := by omega
  have hfrom := exchangeById_eq hfirstLt hnamed
  rw [hfirst, hid] at hfrom
  obtain ⟨segment', run, hsegment', hrun, -, hexchanges, -⟩ := h.run j _ (streams_getElem? hsegment)
  obtain rfl : segment = segment' := Option.some.inj (hsegment.symm.trans hsegment')
  rw [head_eq hhead] at hrun
  have hrunHead := segmentRun_first hfirstLt hfrom hrun
  rw [hexchanges, List.head?_map, hhead] at hrunHead
  have heq := record_inj hpks hlt hfirstLt (Option.some.inj hrunHead)
  omega

theorem addressable_of_firstNamed (h : ∀ x, (derive events).Begins x → (derive events).FirstNamed x) :
    Addressable (derive events) events where
  run := by
    intro j described hdescribed
    obtain ⟨segment, hsegment, rfl⟩ := Option.map_eq_some_iff.mp (List.getElem?_map.symm.trans hdescribed)
    obtain ⟨x, hhead⟩ : ∃ x, segment.exchanges.head? = some x := by
      obtain ⟨hne, -⟩ := (partition events).members segment (List.mem_of_getElem? hsegment)
      exact ⟨_, List.head?_eq_some_head hne⟩
    have hrun := segmentRun_head (h x ⟨j, segment, hsegment, hhead⟩) hsegment hhead
    rw [← head_eq hhead] at hrun
    exact ⟨segment, _, hsegment, hrun, rfl, rfl, List.length_map ..⟩
  position := by
    intro event hevent
    obtain ⟨x, hlt, hholds⟩ := holds_exists hevent
    obtain ⟨j, segment, hsegment, hmem⟩ := exists_segment events hlt
    obtain ⟨first, hhead⟩ : ∃ first, segment.exchanges.head? = some first :=
      ⟨_, List.head?_eq_some_head (List.ne_nil_of_mem hmem)⟩
    have hrun := segmentRun_head (h first ⟨j, segment, hsegment, hhead⟩) hsegment hhead
    have hsegmentHead : (derive events).segmentHead j = (derive events).id first := by
      simp [Derivation.segmentHead, hsegment, hhead]
    have hposition := eventPosition_eq hpks hholds hsegment hmem
    refine ⟨_, x, _, ⟨(derive events).id first, segment.exchanges.map (derive events).exchange⟩, hposition, hholds,
      List.mem_of_getElem? (streams_getElem? hsegment), ?_, ?_, List.mem_map_of_mem hmem⟩
    · rw [head_eq hhead, hsegmentHead]
    · rw [hsegmentHead, hrun]

theorem holds_group {x : ℕ} {event : StreamEvent} (hevent : event ∈ events)
    (h : (derive events).Holds x event) : ∃ key members place,
      (exchangeGroups events)[x]? = some (key, members) ∧ (event, place) ∈ members := by
  obtain ⟨exchange, hexchange, hpk⟩ := h
  obtain ⟨⟨key, members⟩, hgroup, hmem, rfl, hbuilt⟩ := exchange_group hexchange
  rw [hbuilt.eventPks, List.map_map] at hpk
  obtain ⟨⟨other, place⟩, hother, hsame⟩ := List.mem_map.mp hpk
  have hotherMem := List.mem_of_getElem? ((mem_eventGroup hmem).mp hother).1
  obtain rfl : other = event := List.inj_on_of_nodup_map hpks hotherMem hevent hsame
  exact ⟨key, members, place, hgroup, hother⟩

end Pks

theorem group_holds {x place : ℕ} {key : ExchangeKey} {members : List (StreamEvent × ℕ)} {event : StreamEvent}
    (hgroup : (exchangeGroups events)[x]? = some (key, members)) (hmem : (event, place) ∈ members) :
    (derive events).Holds x event := by
  have hbuilt := formed_built (mem_exchangeGroups.mp (List.mem_of_getElem? hgroup))
  refine ⟨formed (key, members), ?_, ?_⟩
  · show (groupExchanges events)[x]? = _
    rw [groupExchanges_eq, List.getElem?_map, hgroup]
    rfl
  · rw [hbuilt.eventPks, List.map_map]
    exact List.mem_map.mpr ⟨(event, place), hmem, rfl⟩

theorem id_eq {x : ℕ} {group : EventGroup} (hgroup : (exchangeGroups events)[x]? = some group) :
    (derive events).id x = (formed group).id := by
  have hexchange : (derive events).exchanges[x]? = some (formed group) := by
    show (groupExchanges events)[x]? = _
    rw [groupExchanges_eq, List.getElem?_map, hgroup]
    rfl
  rw [Derivation.id, exchangeAt_eq hexchange]

theorem group_key_inj {x y : ℕ} {key : ExchangeKey} {members members' : List (StreamEvent × ℕ)}
    (hx : (exchangeGroups events)[x]? = some (key, members))
    (hy : (exchangeGroups events)[y]? = some (key, members')) : x = y := by
  have hnodup := exchangeGroups_nodup events
  have hkx : ((exchangeGroups events).map Prod.fst)[x]? = some key := by rw [List.getElem?_map, hx]; rfl
  have hky : ((exchangeGroups events).map Prod.fst)[y]? = some key := by rw [List.getElem?_map, hy]; rfl
  rw [← idxOf_eq_of_getElem? hnodup hkx, idxOf_eq_of_getElem? hnodup hky]

theorem response_named {x : ℕ} {responseId : String} {members : List (StreamEvent × ℕ)}
    (hgroup : (exchangeGroups events)[x]? = some (.response responseId, members)) :
    (derive events).id x = responseId ∧
      ∃ other ∈ events, other.responseId = some responseId ∧ (derive events).Holds x other := by
  have hmem := mem_exchangeGroups.mp (List.mem_of_getElem? hgroup)
  obtain ⟨hid, hmembers⟩ := formed_response hmem
  obtain ⟨⟨other, place⟩, hother⟩ := List.exists_mem_of_ne_nil _ (eventGroup_ne_nil hmem)
  refine ⟨(id_eq hgroup).trans hid, other, ?_, hmembers _ hother, group_holds hgroup hother⟩
  exact List.mem_of_getElem? ((mem_eventGroup hmem).mp hother).1

theorem alone_named {x index : ℕ} {members : List (StreamEvent × ℕ)}
    (hgroup : (exchangeGroups events)[x]? = some (.alone index, members)) :
    ∃ event, events[index]? = some event ∧ event.responseId = none ∧
      (derive events).id x = event.eventId ∧ (derive events).Holds x event := by
  have hmem := mem_exchangeGroups.mp (List.mem_of_getElem? hgroup)
  obtain ⟨event, hevent, hnone, hmembers, hid⟩ := formed_alone hmem
  obtain ⟨indexed, hindexed⟩ := List.exists_mem_of_ne_nil _ (eventGroup_ne_nil hmem)
  obtain rfl := hmembers indexed hindexed
  exact ⟨event, hevent, hnone, (id_eq hgroup).trans hid, group_holds hgroup hindexed⟩

/-- The event has no response id, and its event id is the other event's response id. -/
def Namesakes (event other : StreamEvent) : Prop :=
  event.responseId = none ∧ other.responseId = some event.eventId

theorem namesakes_of_id {k x : ℕ} (hids : (events.map StreamEvent.eventId).Nodup) (hne : k ≠ x)
    (hk : k < (derive events).exchanges.length) (hx : x < (derive events).exchanges.length)
    (hid : (derive events).id k = (derive events).id x) :
    ∃ event ∈ events, ∃ other ∈ events, Namesakes event other ∧
      ((derive events).Holds k event ∧ (derive events).Holds x other ∨
        (derive events).Holds x event ∧ (derive events).Holds k other) := by
  obtain ⟨⟨keyK, membersK⟩, hgroupK, -⟩ := exchange_group (List.getElem?_eq_getElem hk)
  obtain ⟨⟨keyX, membersX⟩, hgroupX, -⟩ := exchange_group (List.getElem?_eq_getElem hx)
  cases keyK with
  | response responseId =>
    obtain ⟨hidK, other, hother, hresponse, hholds⟩ := response_named hgroupK
    cases keyX with
    | response responseId' =>
      obtain ⟨hidX, -⟩ := response_named hgroupX
      obtain rfl : responseId = responseId' := by rw [← hidK, hid, hidX]
      exact absurd (group_key_inj hgroupK hgroupX) hne
    | alone index =>
      obtain ⟨event, hevent, hnone, hidX, hholds'⟩ := alone_named hgroupX
      refine ⟨event, List.mem_of_getElem? hevent, other, hother, ⟨hnone, ?_⟩, Or.inr ⟨hholds', hholds⟩⟩
      rw [hresponse, ← hidK, hid, hidX]
  | alone index =>
    obtain ⟨event, hevent, hnone, hidK, hholds⟩ := alone_named hgroupK
    cases keyX with
    | response responseId =>
      obtain ⟨hidX, other, hother, hresponse, hholds'⟩ := response_named hgroupX
      refine ⟨event, List.mem_of_getElem? hevent, other, hother, ⟨hnone, ?_⟩, Or.inl ⟨hholds, hholds'⟩⟩
      rw [hresponse, ← hidX, ← hid, hidK]
    | alone index' =>
      obtain ⟨event', hevent', -, hidX, -⟩ := alone_named hgroupX
      have hsame : event.eventId = event'.eventId := by rw [← hidK, hid, hidX]
      have hplace : index = index' := by
        have hget : (events.map StreamEvent.eventId)[index]? = some event.eventId := by
          rw [List.getElem?_map, hevent]; rfl
        have hget' : (events.map StreamEvent.eventId)[index']? = some event.eventId := by
          rw [List.getElem?_map, hevent', hsame]; rfl
        rw [← idxOf_eq_of_getElem? hids hget, idxOf_eq_of_getElem? hids hget']
      subst hplace
      exact absurd (group_key_inj hgroupK hgroupX) hne

theorem id_of_namesakes (hpks : (events.map StreamEvent.pk).Nodup) {event other : StreamEvent}
    (hevent : event ∈ events) (hother : other ∈ events) (h : Namesakes event other) {x y : ℕ}
    (hx : (derive events).Holds x event) (hy : (derive events).Holds y other) :
    x ≠ y ∧ (derive events).id x = (derive events).id y := by
  obtain ⟨keyX, membersX, placeX, hgroupX, hmemX⟩ := holds_group hpks hevent hx
  obtain ⟨keyY, membersY, placeY, hgroupY, hmemY⟩ := holds_group hpks hother hy
  obtain ⟨hgetX, hkeyX⟩ := (mem_eventGroup (mem_exchangeGroups.mp (List.mem_of_getElem? hgroupX))).mp hmemX
  obtain ⟨-, hkeyY⟩ := (mem_eventGroup (mem_exchangeGroups.mp (List.mem_of_getElem? hgroupY))).mp hmemY
  simp only [exchangeKey, h.1] at hkeyX
  simp only [exchangeKey, h.2] at hkeyY
  subst hkeyX hkeyY
  refine ⟨?_, ?_⟩
  · rintro rfl
    rw [hgroupX] at hgroupY
    cases hgroupY
  · obtain ⟨event', hevent', -, hidX, -⟩ := alone_named hgroupX
    obtain rfl : event' = event := Option.some.inj (hevent'.symm.trans hgetX)
    rw [hidX, (response_named hgroupY).1]

theorem addressable_iff (hids : (events.map StreamEvent.eventId).Nodup)
    (hpks : (events.map StreamEvent.pk).Nodup) :
    Addressable (derive events) events ↔ ∀ event ∈ events, ∀ other ∈ events, Namesakes event other →
      ∀ x y, (derive events).Holds x event → (derive events).Holds y other →
        ¬ (derive events).Begins (max x y) := by
  constructor
  · intro haddressable event hevent other hother hnamesakes x y hx hy hbegins
    obtain ⟨hne, hid⟩ := id_of_namesakes hpks hevent hother hnamesakes hx hy
    have hfirst := firstNamed_of_addressable hpks haddressable hbegins
    rcases lt_or_gt_of_ne hne with hlt | hlt
    · rw [max_eq_right hlt.le] at hfirst
      exact hfirst x hlt hid
    · rw [max_eq_left hlt.le] at hfirst
      exact hfirst y hlt hid.symm
  · refine fun hclear => addressable_of_firstNamed hpks fun x hbegins k hk hid => ?_
    obtain ⟨j, segment, hsegment, hhead⟩ := hbegins
    have hx := begins_lt hsegment hhead
    obtain ⟨event, hevent, other, hother, hnamesakes, hholds⟩ :=
      namesakes_of_id hids hk.ne (hk.trans hx) hx hid
    rcases hholds with ⟨hk', hx'⟩ | ⟨hx', hk'⟩
    · apply hclear event hevent other hother hnamesakes k x hk' hx'
      rw [max_eq_right hk.le]
      exact ⟨j, segment, hsegment, hhead⟩
    · apply hclear event hevent other hother hnamesakes x k hx' hk'
      rw [max_eq_left hk.le]
      exact ⟨j, segment, hsegment, hhead⟩

section Session

open Fixtures

local instance namesakeDigest : Text.Sha256 := okDigest

/-- Two segments: a lone event without a response id, and a request with a response that it resends. -/
def resentEvents : List StreamEvent :=
  [{ answer 1 "s" 500 [assistant "note"] with eventId := "q", responseId := none },
    ask 2 "p" 1000 [user "go"],
    answer 3 "p" 1500 [call "c1"],
    ask 4 "q" 2000 [user "go", call "c1", result "c1"],
    answer 5 "q" 2500 [assistant "done"]]

theorem resentEvents_exchanges : (derive resentEvents).exchanges.map Exchange.eventPks = [[1], [2, 3], [4, 5]] := by
  decide +kernel

theorem resentEvents_segments : (derive resentEvents).segmentation.segments.map Segment.exchanges = [[0], [1, 2]] := by
  decide +kernel

theorem resentEvents_holds {x : ℕ} {event : StreamEvent} (h : (derive resentEvents).Holds x event) :
    x = event.pk / 2 := by
  obtain ⟨exchange, hget, hmem⟩ := h
  have hpks : [[1], [2, 3], [4, 5]][x]? = some exchange.eventPks := by
    rw [← resentEvents_exchanges, List.getElem?_map, hget, Option.map_some]
  obtain ⟨hlt, hpks⟩ := List.getElem?_eq_some_iff.mp hpks
  have hall : ∀ place : Fin 3, ∀ pk ∈ [[1], [2, 3], [4, 5]].get place, place.val = pk / 2 := by decide
  rw [← hpks] at hmem
  exact hall ⟨x, hlt⟩ event.pk hmem

/-- The exchange that shares the lone event's name heads no segment. -/
theorem resentEvents_begins : ¬ (derive resentEvents).Begins 2 := by
  rintro ⟨j, segment, hsegment, hhead⟩
  have hmem : segment.exchanges ∈ [[0], [1, 2]] := by
    rw [← resentEvents_segments]
    exact List.mem_map_of_mem (List.mem_of_getElem? hsegment)
  simp only [List.mem_cons, List.not_mem_nil, or_false] at hmem
  obtain hfirst | hsecond := hmem
  · simp [hfirst] at hhead
  · simp [hsecond] at hhead

theorem addressable_resent : Addressable (derive resentEvents) resentEvents := by
  apply (addressable_iff (by decide) (by decide)).mpr
  intro event hevent other hother hnamesakes x y hx hy
  have hlast : ∀ event ∈ resentEvents, ∀ other ∈ resentEvents, Namesakes event other →
      max (event.pk / 2) (other.pk / 2) = 2 := by
    unfold Namesakes
    decide
  rw [resentEvents_holds hx, resentEvents_holds hy, hlast event hevent other hother hnamesakes]
  exact resentEvents_begins

/-- A request without a response id whose event id is the response id of the exchange after it. -/
def namesakeEvents : List StreamEvent :=
  [{ ask 1 "r" 1000 [user "one"] with eventId := "r", responseId := none },
    ask 2 "r" 2000 [user "two"],
    answer 3 "r" 2500 [assistant "ok"]]

theorem namesakeEvents_not_addressable :
    (namesakeEvents.map StreamEvent.eventId).Nodup ∧ (namesakeEvents.map StreamEvent.pk).Nodup ∧
      ¬ Addressable (derive namesakeEvents) namesakeEvents := by
  refine ⟨by decide, by decide, fun h => ?_⟩
  obtain ⟨segment, run, hsegment, hrun, -, hexchanges, -⟩ := h.run 1 _ rfl
  have hfirst : (derive namesakeEvents).segmentRun "r" =
      some ⟨"r", [(derive namesakeEvents).exchange 0]⟩ := rfl
  have hsecond : (derive namesakeEvents).segmentation.segments[1]? =
      some ⟨.root, none, [1], .line 1, false⟩ := rfl
  obtain rfl := Option.some.inj (hsecond.symm.trans hsegment)
  obtain rfl := Option.some.inj (hfirst.symm.trans hrun)
  have hdiffer : (derive namesakeEvents).exchange 0 ≠ (derive namesakeEvents).exchange 1 := by decide
  exact hdiffer (by simpa using hexchanges)

end Session

end SessionStructure

end AbyssBackend.Streams
