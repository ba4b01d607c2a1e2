import AbyssBackend.Library.Sorting
import AbyssBackend.Streams.TimeSpans

namespace AbyssBackend.Streams

open Groups Sorting

def firstRequest (members : List StreamEvent) : Option StreamEvent := members.find? StreamEvent.isRequest

def firstResponse (members : List StreamEvent) : Option StreamEvent := members.find? fun event => !event.isRequest

namespace Exchange

/-- The events of an exchange, in the order of the list. -/
def membersIn (exchange : Exchange) (events : List StreamEvent) : List StreamEvent :=
  events.filter fun event => event.pk ∈ exchange.eventPks

/-- Where the first event of an exchange is in the list. -/
def firstIn (exchange : Exchange) (events : List StreamEvent) : ℕ :=
  events.findIdx fun event => event.pk ∈ exchange.eventPks

/-- What an exchange of these events holds. -/
structure Of (exchange : Exchange) (members : List StreamEvent) : Prop where
  nonempty : members ≠ []
  eventPks : exchange.eventPks = members.map StreamEvent.pk
  request : exchange.request = (firstRequest members).bind requestSide
  response : exchange.response = (firstResponse members).bind responseSide
  declared : ∀ event ∈ (firstRequest members).or (firstResponse members), exchange.subagentId = event.subagentId ∧
    exchange.parentSubagentId = event.parentSubagentId ∧ exchange.turnId = event.turnId
  atTime : ∀ event ∈ (firstRequest members).or members.head?, exchange.atTime = event.observedAt
  endTime : IsGreatest (observed members) exchange.endTime

end Exchange

/-- Exchanges that events are paired into. -/
structure Paired (events : List StreamEvent) (exchanges : List Exchange) : Prop where
  pks : (exchanges.flatMap Exchange.eventPks).Perm (events.map StreamEvent.pk)
  once : ∀ event ∈ events, ∃! index : ℕ, ∃ exchange : Exchange,
    exchanges[index]? = some exchange ∧ event.pk ∈ exchange.eventPks
  shared : ∀ event ∈ events, ∀ other ∈ events, event ≠ other →
    ((∃ exchange ∈ exchanges, event.pk ∈ exchange.eventPks ∧ other.pk ∈ exchange.eventPks) ↔
      ∃ responseId, event.responseId = some responseId ∧ other.responseId = some responseId)
  described : ∀ exchange ∈ exchanges, exchange.Of (exchange.membersIn events)
  ordered : exchanges.Pairwise fun x y =>
    x.atTime < y.atTime ∨ x.atTime = y.atTime ∧ x.firstIn events < y.firstIn events

section Sides

variable {members : List StreamEvent} {exchange : Exchange}

theorem responseSide_isSome (event : StreamEvent) : (responseSide event).isSome = !event.isRequest := by
  cases hfacts : event.facts <;> simp [StreamEvent.isRequest, requestSide, responseSide, hfacts]

theorem findSome?_eq_bind {α β : Type} (f : α → Option β) (xs : List α) :
    xs.findSome? f = (xs.find? fun x => (f x).isSome).bind f := by
  induction xs with
  | nil => rfl
  | cons x xs ih =>
    cases hx : f x with
    | none => simp [hx, ih]
    | some y => simp [hx]

theorem speaker_eq (members : List StreamEvent) :
    speaker members = (firstRequest members).or (firstResponse members) := by
  unfold speaker firstRequest firstResponse
  cases hfind : members.find? StreamEvent.isRequest with
  | some first =>
    have hspeaks : members.find? (fun event => (requestSide event).isSome) = some first := hfind
    rw [hspeaks]
    rfl
  | none =>
    have hspeaks : members.find? (fun event => (requestSide event).isSome) = none := hfind
    rw [hspeaks, Option.none_or, Option.none_or]
    cases members with
    | nil => rfl
    | cons first rest =>
      have hfirst := List.find?_eq_none.mp hfind first (by simp)
      rw [List.find?_cons_of_pos (by simpa using hfirst)]
      rfl

theorem Built.of (h : Built members exchange) (hne : members ≠ []) (hbuilt : exchange = built members) :
    exchange.Of members := by
  have hresponse : (fun event => (responseSide event).isSome) = fun event : StreamEvent => !event.isRequest :=
    funext responseSide_isSome
  refine ⟨hne, h.eventPks, ?_, ?_, fun event hevent => ?_, h.atTime, ?_⟩
  · rw [h.request, findSome?_eq_bind]
    rfl
  · rw [h.response, findSome?_eq_bind, hresponse]
    rfl
  · rw [← speaker_eq] at hevent
    exact ⟨h.subagentId event hevent, h.parentSubagentId event hevent, h.turnId event hevent⟩
  · rw [hbuilt]
    exact built_endTime hne

end Sides

section Groups

variable {events : List StreamEvent} {group : EventGroup} {event : StreamEvent} {i : ℕ}

/-- An event is in the exchange that is formed for its key, and in no other one. -/
theorem mem_formed (hpks : (events.map StreamEvent.pk).Nodup) (hgroup : group ∈ eventGroups events)
    (hevent : events[i]? = some event) : event.pk ∈ (formed group).eventPks ↔ exchangeKey (event, i) = group.1 := by
  rw [(formed_built hgroup).eventPks, List.mem_map]
  constructor
  · rintro ⟨other, hother, hpk⟩
    obtain ⟨⟨other, j⟩, hmember, rfl⟩ := List.mem_map.mp hother
    obtain ⟨hplace, hkey⟩ := (mem_eventGroup hgroup).mp hmember
    have hsame : i = j := by
      have hi : (events.map StreamEvent.pk)[i]? = some event.pk := by rw [List.getElem?_map, hevent]; rfl
      have hj : (events.map StreamEvent.pk)[j]? = some event.pk := by rw [List.getElem?_map, hplace, ← hpk]; rfl
      rw [← idxOf_eq_of_getElem? hpks hi, idxOf_eq_of_getElem? hpks hj]
    rw [← hsame, hevent] at hplace
    cases hplace
    rw [hsame]
    exact hkey
  · intro hkey
    exact ⟨event, List.mem_map.mpr ⟨(event, i), (mem_eventGroup hgroup).mpr ⟨hevent, hkey⟩, rfl⟩, rfl⟩

theorem membersIn_formed (hpks : (events.map StreamEvent.pk).Nodup) (hgroup : group ∈ eventGroups events) :
    (formed group).membersIn events = group.2.map Prod.fst := by
  have hevents : events.filter (fun event => event.pk ∈ (formed group).eventPks) =
      (events.zipIdx.map Prod.fst).filter fun event => event.pk ∈ (formed group).eventPks := by
    rw [List.zipIdx_map_fst]
  rw [Exchange.membersIn, hevents, List.filter_map, (mem_groupBy.mp hgroup).1]
  congr 1
  apply List.filter_congr
  rintro ⟨event, i⟩ hmem
  rw [Function.comp_apply, decide_eq_decide]
  exact mem_formed hpks hgroup (List.mem_zipIdx_iff_getElem?.mp hmem)

theorem formed_of (hpks : (events.map StreamEvent.pk).Nodup) (hgroup : group ∈ eventGroups events) :
    (formed group).Of ((formed group).membersIn events) := by
  rw [membersIn_formed hpks hgroup]
  exact (formed_built hgroup).of (by simpa using eventGroup_ne_nil hgroup) rfl

theorem zipIdx_ordered (events : List StreamEvent) : events.zipIdx.Pairwise fun x y => x.2 < y.2 := by
  rw [← List.pairwise_map (R := (· < ·)), List.zipIdx_map_snd]
  exact List.pairwise_lt_range' ..

theorem firstIn_formed (hpks : (events.map StreamEvent.pk).Nodup) (hgroup : group ∈ eventGroups events)
    (hhead : group.2.head? = some (event, i)) : (formed group).firstIn events = i := by
  obtain ⟨rest, hmembers⟩ := List.head?_eq_some_iff.mp hhead
  obtain ⟨hevent, hkey⟩ := (mem_eventGroup hgroup).mp (by rw [hmembers]; exact List.mem_cons_self)
  obtain ⟨hlt, hget⟩ := List.getElem?_eq_some_iff.mp hevent
  rw [Exchange.firstIn, List.findIdx_eq hlt]
  constructor
  · rw [hget, decide_eq_true_iff]
    exact (mem_formed hpks hgroup hevent).mpr hkey
  · intro j hji
    rw [decide_eq_false_iff_not, mem_formed hpks hgroup (List.getElem?_eq_getElem (hji.trans hlt))]
    intro hother
    have hmem := (mem_eventGroup hgroup).mpr ⟨List.getElem?_eq_getElem (hji.trans hlt), hother⟩
    have hordered : group.2.Pairwise fun x y => x.2 < y.2 := by
      rw [(mem_groupBy.mp hgroup).1]
      exact (zipIdx_ordered events).filter _
    rw [hmembers] at hmem hordered
    obtain hsame | hrest := List.mem_cons.mp hmem
    · cases hsame
      exact lt_irrefl _ hji
    · exact lt_asymm hji ((List.pairwise_cons.mp hordered).1 _ hrest)

/-- The groups come in the order of their first events. -/
theorem eventGroups_firstIn (hpks : (events.map StreamEvent.pk).Nodup) :
    (eventGroups events).Pairwise fun x y => (formed x).firstIn events < (formed y).firstIn events := by
  obtain ⟨firsts, hheads, hsublist⟩ := heads_sublist exchangeKey events.zipIdx
  have hordered : firsts.Pairwise fun x y => x.2 < y.2 := (zipIdx_ordered events).sublist hsublist
  have hplaces : (eventGroups events).map (fun group => (formed group).firstIn events) = firsts.map Prod.snd := by
    have hmap := congrArg (List.map fun first => (first.map Prod.snd).getD 0) hheads
    rw [List.map_map, List.map_map] at hmap
    refine Eq.trans (List.map_congr_left fun group hgroup => ?_) hmap
    obtain ⟨⟨first, i⟩, rest, hmembers⟩ := List.exists_cons_of_ne_nil (eventGroup_ne_nil hgroup)
    rw [Function.comp_apply, firstIn_formed hpks hgroup (by rw [hmembers]; rfl), hmembers]
    rfl
  rw [← List.pairwise_map (R := (· < ·)), hplaces, List.pairwise_map]
  exact hordered

theorem groupExchanges_ordered (hpks : (events.map StreamEvent.pk).Nodup) :
    (groupExchanges events).Pairwise fun x y =>
      x.atTime < y.atTime ∨ x.atTime = y.atTime ∧ x.firstIn events < y.firstIn events := by
  rw [groupExchanges_eq, List.pairwise_map]
  exact sortBy_stable (eventGroups_firstIn hpks)

theorem exists_group (hevent : events[i]? = some event) :
    ∃ (index : ℕ) (group : EventGroup),
      (exchangeGroups events)[index]? = some group ∧ group.1 = exchangeKey (event, i) := by
  have hkey : exchangeKey (event, i) ∈ (eventGroups events).map Prod.fst :=
    mem_keys.mpr ⟨(event, i), List.mem_zipIdx_iff_getElem?.mpr hevent, rfl⟩
  obtain ⟨group, hgroup, hsame⟩ := List.mem_map.mp hkey
  obtain ⟨index, hindex⟩ := List.getElem?_of_mem (mem_exchangeGroups.mpr hgroup)
  exact ⟨index, group, hindex, hsame⟩

theorem exchange_eq_some {index : ℕ} {exchange : Exchange} : (groupExchanges events)[index]? = some exchange ↔
    ∃ group, (exchangeGroups events)[index]? = some group ∧ formed group = exchange := by
  rw [groupExchanges_eq, List.getElem?_map, Option.map_eq_some_iff]

theorem placed_once (hpks : (events.map StreamEvent.pk).Nodup) (hevent : events[i]? = some event) :
    ∃! index : ℕ, ∃ exchange : Exchange,
      (groupExchanges events)[index]? = some exchange ∧ event.pk ∈ exchange.eventPks := by
  obtain ⟨index, group, hindex, hkey⟩ := exists_group hevent
  have hgroup := mem_exchangeGroups.mp (List.mem_of_getElem? hindex)
  refine ⟨index, ⟨formed group, exchange_eq_some.mpr ⟨group, hindex, rfl⟩, ?_⟩, ?_⟩
  · exact (mem_formed hpks hgroup hevent).mpr hkey.symm
  · rintro other ⟨exchange, hother, hpk⟩
    obtain ⟨group', hplace, rfl⟩ := exchange_eq_some.mp hother
    have hsame := (mem_formed hpks (mem_exchangeGroups.mp (List.mem_of_getElem? hplace)) hevent).mp hpk
    obtain ⟨key, members⟩ := group
    obtain ⟨key', members'⟩ := group'
    cases hkey
    cases hsame
    exact SessionStructure.group_key_inj hplace hindex

theorem shares_iff (hpks : (events.map StreamEvent.pk).Nodup) {other : StreamEvent} {j : ℕ}
    (hevent : events[i]? = some event) (hother : events[j]? = some other) (hne : event ≠ other) :
    (∃ exchange ∈ groupExchanges events, event.pk ∈ exchange.eventPks ∧ other.pk ∈ exchange.eventPks) ↔
      ∃ responseId, event.responseId = some responseId ∧ other.responseId = some responseId := by
  have hkeys : (∃ exchange ∈ groupExchanges events, event.pk ∈ exchange.eventPks ∧ other.pk ∈ exchange.eventPks) ↔
      exchangeKey (event, i) = exchangeKey (other, j) := by
    constructor
    · rintro ⟨exchange, hexchange, hpk, hpk'⟩
      rw [groupExchanges_eq] at hexchange
      obtain ⟨group, hgroup, rfl⟩ := List.mem_map.mp hexchange
      have hgroup := mem_exchangeGroups.mp hgroup
      rw [(mem_formed hpks hgroup hevent).mp hpk, (mem_formed hpks hgroup hother).mp hpk']
    · intro hsame
      obtain ⟨index, group, hindex, hkey⟩ := exists_group hevent
      have hgroup := mem_exchangeGroups.mp (List.mem_of_getElem? hindex)
      refine ⟨formed group, List.mem_of_getElem? (exchange_eq_some.mpr ⟨group, hindex, rfl⟩), ?_, ?_⟩
      · exact (mem_formed hpks hgroup hevent).mpr hkey.symm
      · exact (mem_formed hpks hgroup hother).mpr (hsame.symm.trans hkey.symm)
  have hplaces : i ≠ j := by
    rintro rfl
    exact hne (Option.some.inj (hevent.symm.trans hother))
  rw [hkeys]
  cases hid : event.responseId with
  | none =>
    cases hid' : other.responseId <;> simp [exchangeKey, hid, hid', hplaces]
  | some responseId =>
    cases hid' : other.responseId <;> simp [exchangeKey, hid, hid', eq_comm]

end Groups

/-- Events are paired into exchanges by their response ids, each exchange with its sides, times and declarations. -/
theorem groupExchanges_paired {events : List StreamEvent} (hpks : (events.map StreamEvent.pk).Nodup) :
    Paired events (groupExchanges events) := by
  refine ⟨eventPks_perm events, fun event hevent => ?_, fun event hevent other hother hne => ?_,
    fun exchange hexchange => ?_, groupExchanges_ordered hpks⟩
  · obtain ⟨i, hi⟩ := List.getElem?_of_mem hevent
    exact placed_once hpks hi
  · obtain ⟨i, hi⟩ := List.getElem?_of_mem hevent
    obtain ⟨j, hj⟩ := List.getElem?_of_mem hother
    exact shares_iff hpks hi hj hne
  · rw [groupExchanges_eq] at hexchange
    obtain ⟨group, hgroup, rfl⟩ := List.mem_map.mp hexchange
    exact formed_of hpks (mem_exchangeGroups.mp hgroup)

section Repeated

open Conversation Fixtures Text

local instance repeatedDigest : Sha256 := okDigest

/-- An answer that comes before its request, which is then sent again. -/
def repeatedRequest : List StreamEvent :=
  [answer 1 "p" 1000 [assistant "ok"], ask 2 "q" 2000 [user "go"], ask 3 "p" 3000 [user "go"],
    ask 4 "p" 4000 [user "go"]]

theorem groupExchanges_paired_repeatedRequest :
    (groupExchanges repeatedRequest).map (fun exchange => (exchange.id, exchange.eventPks)) =
        [("q", [2]), ("p", [1, 3, 4])] ∧
      (groupExchanges repeatedRequest).map (fun exchange => (exchange.atTime, exchange.endTime)) =
        [(2000000, 2000000), (3000000, 4000000)] ∧
      Paired repeatedRequest (groupExchanges repeatedRequest) :=
  ⟨by decide +kernel, by decide +kernel, groupExchanges_paired (by decide)⟩

end Repeated

end AbyssBackend.Streams
