import AbyssBackend.Library.Groups
import AbyssBackend.Streams.Exchanges

namespace AbyssBackend.Streams

open Groups Tables

/-- What an event's exchange is found by: its response id, or its own place without one. -/
inductive ExchangeKey
  | response (responseId : String)
  | alone (index : ℕ)
deriving DecidableEq

def exchangeKey (indexed : StreamEvent × ℕ) : ExchangeKey :=
  match indexed.1.responseId with
  | some responseId => .response responseId
  | none => .alone indexed.2

abbrev EventGroup := ExchangeKey × List (StreamEvent × ℕ)

def eventGroups (events : List StreamEvent) : List EventGroup := groupBy exchangeKey events.zipIdx

def requestSide (event : StreamEvent) : Option (Side RequestFacts) :=
  match event.facts with
  | .request facts => some ⟨event.pk, event.previousResponseId, facts⟩
  | .response _ => none

def responseSide (event : StreamEvent) : Option (Side ResponseFacts) :=
  match event.facts with
  | .request _ => none
  | .response facts => some ⟨event.pk, event.previousResponseId, facts⟩

/-- The event whose time and declarations the exchange takes: its first request, else its first event. -/
def speaker (members : List StreamEvent) : Option StreamEvent :=
  (members.find? fun event => (requestSide event).isSome).or members.head?

def built (members : List StreamEvent) : Exchange :=
  members.foldl Exchange.add ((members.head?.map Exchange.opened).getD default)

structure Built (members : List StreamEvent) (exchange : Exchange) : Prop where
  id : ∀ event ∈ members.head?, exchange.id = event.responseId.getD event.eventId
  responseId : ∀ event ∈ members.head?, exchange.responseId = event.responseId
  eventPks : exchange.eventPks = members.map StreamEvent.pk
  request : exchange.request = members.findSome? requestSide
  response : exchange.response = members.findSome? responseSide
  atTime : ∀ event ∈ speaker members, exchange.atTime = event.observedAt
  subagentId : ∀ event ∈ speaker members, exchange.subagentId = event.subagentId
  parentSubagentId : ∀ event ∈ speaker members, exchange.parentSubagentId = event.parentSubagentId
  turnId : ∀ event ∈ speaker members, exchange.turnId = event.turnId

theorem built_concat {members : List StreamEvent} (h : members ≠ []) (event : StreamEvent) :
    built (members ++ [event]) = (built members).add event := by
  obtain ⟨first, rest, rfl⟩ := List.exists_cons_of_ne_nil h
  simp [built]

theorem side_exists (event : StreamEvent) : (requestSide event).isSome ∨ (responseSide event).isSome := by
  cases hfacts : event.facts <;> simp [requestSide, responseSide, hfacts]

theorem built_one (event : StreamEvent) : Built [event] (built [event]) := by
  cases hfacts : event.facts <;>
    constructor <;> simp [built, Exchange.add, Exchange.opened, Exchange.declare, hfacts, requestSide,
      responseSide, speaker]

theorem request_isNone {members : List StreamEvent} {exchange : Exchange} (h : Built members exchange) :
    exchange.request.isNone = (members.find? fun event => (requestSide event).isSome).isNone := by
  rw [Bool.eq_iff_iff]
  simp [h.request]

/-- The first request of an exchange gives it its time and its declarations. -/
theorem Exchange.add_speaks {exchange : Exchange} {event : StreamEvent} {side : Side RequestFacts}
    (hnone : exchange.request = none) (hside : requestSide event = some side) :
    exchange.add event = { exchange.declare event with
      eventPks := exchange.eventPks ++ [event.pk]
      endTime := max exchange.endTime event.observedAt
      atTime := event.observedAt
      request := some side } := by
  cases hfacts : event.facts with
  | request facts =>
    simp only [requestSide, hfacts, Option.some.injEq] at hside
    simp [Exchange.add, Exchange.declare, hfacts, hnone, hside]
  | response facts => simp [requestSide, hfacts] at hside

/-- Any other event of an exchange at most gives it its response. -/
theorem Exchange.add_follows {exchange : Exchange} {event : StreamEvent}
    (hspoken : exchange.request = none → requestSide event = none)
    (hfilled : exchange.request = none → exchange.response.isSome) :
    exchange.add event = { exchange with
      eventPks := exchange.eventPks ++ [event.pk]
      endTime := max exchange.endTime event.observedAt
      response := exchange.response.or (responseSide event) } := by
  cases hfacts : event.facts with
  | request facts =>
    cases hrequest : exchange.request with
    | none =>
      have hsilent := hspoken hrequest
      simp [requestSide, hfacts] at hsilent
    | some side => simp [Exchange.add, responseSide, hfacts, hrequest]
  | response facts =>
    cases hresponse : exchange.response with
    | none =>
      have hrequest : exchange.request.isNone = false := by
        cases hrequest : exchange.request with
        | none =>
          have hanswered := hfilled hrequest
          simp [hresponse] at hanswered
        | some side => rfl
      simp [Exchange.add, responseSide, hfacts, hresponse, hrequest]
    | some side => simp [Exchange.add, hfacts, hresponse]

theorem Built.side_exists {members : List StreamEvent} {exchange : Exchange} (h : Built members exchange)
    (hne : members ≠ []) (hrequest : exchange.request = none) : exchange.response.isSome := by
  obtain ⟨first, hfirst⟩ := List.exists_mem_of_ne_nil _ hne
  have hrequests := List.findSome?_eq_none_iff.mp (h.request.symm.trans hrequest)
  rw [Option.isSome_iff_ne_none, h.response, ne_eq, List.findSome?_eq_none_iff]
  intro hresponses
  have hsides := Streams.side_exists first
  simp [hrequests first hfirst, hresponses first hfirst] at hsides

theorem built_add {members : List StreamEvent} {exchange : Exchange} (h : Built members exchange)
    (hne : members ≠ []) (event : StreamEvent) : Built (members ++ [event]) (exchange.add event) := by
  have hhead : (members ++ [event]).head? = members.head? := by
    rw [List.head?_append_of_ne_nil _ hne]
  have hpks : (members ++ [event]).map StreamEvent.pk = exchange.eventPks ++ [event.pk] := by
    simp [h.eventPks]
  have hrequest : (members ++ [event]).findSome? requestSide = exchange.request.or (requestSide event) := by
    simp [List.findSome?_append, h.request]
  have hresponse : (members ++ [event]).findSome? responseSide = exchange.response.or (responseSide event) := by
    simp [List.findSome?_append, h.response]
  have hspeaker : speaker (members ++ [event]) =
      if exchange.request.isNone && (requestSide event).isSome then some event else speaker members := by
    rw [request_isNone h]
    simp only [speaker, List.find?_append, hhead]
    cases members.find? fun event => (requestSide event).isSome <;>
      cases hside : requestSide event <;> simp [hside]
  by_cases hspeaks : exchange.request = none ∧ ∃ side, requestSide event = some side
  · obtain ⟨hnone, side, hside⟩ := hspeaks
    have hevent : speaker (members ++ [event]) = some event := by simp [hspeaker, hnone, hside]
    have hother : responseSide event = none := by
      cases hfacts : event.facts <;> simp_all [requestSide, responseSide]
    rw [Exchange.add_speaks hnone hside]
    refine ⟨hhead ▸ h.id, hhead ▸ h.responseId, hpks.symm, ?_, ?_, ?_, ?_, ?_, ?_⟩
    · rw [hrequest, hnone, hside]
      rfl
    · rw [hresponse, hother, Option.or_none]
      rfl
    all_goals
      rw [hevent]
      rintro _ ⟨⟩
      rfl
  · have hspoken : exchange.request = none → requestSide event = none := by
      intro hnone
      rw [Option.eq_none_iff_forall_ne_some]
      exact fun side hside => hspeaks ⟨hnone, side, hside⟩
    have hsame : speaker (members ++ [event]) = speaker members := by
      rw [hspeaker, if_neg]
      rw [Bool.and_eq_true, Option.isNone_iff_eq_none]
      exact fun ⟨hnone, hside⟩ => by simp [hspoken hnone] at hside
    have hkept : exchange.request.or (requestSide event) = exchange.request := by
      cases hx : exchange.request with
      | none => simp [hspoken hx]
      | some side => rfl
    rw [Exchange.add_follows hspoken (h.side_exists hne)]
    exact ⟨hhead ▸ h.id, hhead ▸ h.responseId, hpks.symm, (hrequest.trans hkept).symm, hresponse.symm,
      hsame ▸ h.atTime, hsame ▸ h.subagentId, hsame ▸ h.parentSubagentId, hsame ▸ h.turnId⟩

theorem built_spec {members : List StreamEvent} (h : members ≠ []) : Built members (built members) := by
  induction members using List.reverseRecOn with
  | nil => exact absurd rfl h
  | append_singleton members event ih =>
    cases members with
    | nil => exact built_one event
    | cons first rest =>
      rw [built_concat (by simp)]
      exact built_add (ih (by simp)) (by simp) event

def formed (group : EventGroup) : Exchange := built (group.2.map Prod.fst)

theorem eventGroups_concat (events : List StreamEvent) (event : StreamEvent) :
    eventGroups (events ++ [event]) =
      pushInto (exchangeKey (event, events.length)) (event, events.length) (eventGroups events) := by
  rw [eventGroups, List.zipIdx_append, Nat.zero_add, List.zipIdx_singleton, groupBy_concat]
  rfl

theorem eventGroups_nodup (events : List StreamEvent) : ((eventGroups events).map Prod.fst).Nodup :=
  keys_nodup _ _

theorem eventGroup_ne_nil {events : List StreamEvent} {group : EventGroup} (h : group ∈ eventGroups events) :
    group.2 ≠ [] :=
  group_ne_nil h

theorem mem_eventGroup {events : List StreamEvent} {key : ExchangeKey} {members : List (StreamEvent × ℕ)}
    (h : (key, members) ∈ eventGroups events) {event : StreamEvent} {index : ℕ} :
    (event, index) ∈ members ↔ events[index]? = some event ∧ exchangeKey (event, index) = key := by
  obtain ⟨rfl, -⟩ := mem_groupBy.mp h
  simp [List.mem_filter, List.mem_zipIdx_iff_getElem?]

theorem alone_not_mem (events : List StreamEvent) :
    .alone events.length ∉ (eventGroups events).map Prod.fst := by
  intro hmem
  obtain ⟨⟨event, index⟩, hindex, hkey⟩ := mem_keys.mp hmem
  have hlt := (List.getElem?_eq_some_iff.mp (List.mem_zipIdx_iff_getElem?.mp hindex)).1
  simp only [exchangeKey] at hkey
  split at hkey <;> cases hkey
  exact lt_irrefl _ hlt

theorem paired (events : List StreamEvent) :
    (events.foldl Pairing.place Pairing.start).exchanges = (eventGroups events).map formed ∧
      ∀ responseId index, (events.foldl Pairing.place Pairing.start).byResponseId responseId = some index ↔
        ((eventGroups events).map Prod.fst)[index]? = some (.response responseId) := by
  induction events using List.reverseRecOn with
  | nil => exact ⟨rfl, fun _ _ => by simp [Pairing.start, Tables.empty, eventGroups, groupBy]⟩
  | append_singleton events event ih =>
    obtain ⟨hexchanges, hids⟩ := ih
    rw [List.foldl_concat]
    generalize events.foldl Pairing.place Pairing.start = pairing at hexchanges hids
    have hlength : pairing.exchanges.length = ((eventGroups events).map Prod.fst).length := by
      rw [hexchanges, List.length_map, List.length_map]
    have hconcat : (eventGroups (events ++ [event])).map Prod.fst =
        if exchangeKey (event, events.length) ∈ (eventGroups events).map Prod.fst then
          (eventGroups events).map Prod.fst
        else (eventGroups events).map Prod.fst ++ [exchangeKey (event, events.length)] := by
      rw [eventGroups_concat, pushInto_keys]
    cases hr : event.responseId with
    | none =>
      have hkey : exchangeKey (event, events.length) = .alone events.length := by simp [exchangeKey, hr]
      have hnew := alone_not_mem events
      rw [hkey, if_neg hnew] at hconcat
      have hplace : pairing.place event = { pairing with
          exchanges := pairing.exchanges ++ [(Exchange.opened event).add event] } := by
        simp [Pairing.place, hr]
      rw [hplace, eventGroups_concat, hkey, pushInto_of_not_mem _ hnew, hexchanges]
      refine ⟨by simp [formed, built], fun responseId index => ?_⟩
      rw [List.map_append, List.map_singleton, getElem?_concat, hids]
      simp
    | some responseId =>
      have hkey : exchangeKey (event, events.length) = .response responseId := by simp [exchangeKey, hr]
      cases hfound : pairing.byResponseId responseId with
      | none =>
        have hnew : .response responseId ∉ (eventGroups events).map Prod.fst := by
          intro hmem
          obtain ⟨index, hindex⟩ := List.getElem?_of_mem hmem
          rw [(hids responseId index).mpr hindex] at hfound
          cases hfound
        have hplace : pairing.place event =
            { exchanges := pairing.exchanges ++ [(Exchange.opened event).add event]
              byResponseId := insert pairing.byResponseId responseId pairing.exchanges.length } := by
          simp [Pairing.place, hr, hfound]
        rw [hplace, eventGroups_concat, hkey, pushInto_of_not_mem _ hnew, hlength, hexchanges]
        refine ⟨by simp [formed, built], fun other index => ?_⟩
        rw [List.map_append, List.map_singleton, getElem?_concat, ← hids]
        by_cases ho : other = responseId
        · subst ho
          simp [hfound, eq_comm]
        · simp [insert_ne _ _ ho, Ne.symm ho]
      | some index =>
        have hindex := (hids responseId index).mp hfound
        have hmem := List.mem_of_getElem? hindex
        have hplace : pairing.place event = { pairing with
            exchanges := pairing.exchanges.modify index fun exchange => exchange.add event } := by
          simp [Pairing.place, hr, hfound]
        rw [hkey, if_pos hmem] at hconcat
        rw [hplace, hconcat, eventGroups_concat, hkey, pushInto_of_mem _ hmem,
          idxOf_eq_of_getElem? (eventGroups_nodup events) hindex, hexchanges]
        refine ⟨modify_map (fun group hgroup => ?_) index, hids⟩
        have hne : group.2.map Prod.fst ≠ [] := by simpa using eventGroup_ne_nil hgroup
        simp [formed, built_concat hne]

def exchangeGroups (events : List StreamEvent) : List EventGroup :=
  (eventGroups events).insertionSort fun x y => (formed x).atTime ≤ (formed y).atTime

theorem groupExchanges_eq (events : List StreamEvent) :
    groupExchanges events = (exchangeGroups events).map formed := by
  rw [groupExchanges, (paired events).1, exchangeGroups]
  exact (List.map_insertionSort _ _ formed _ fun _ _ _ _ => Iff.rfl).symm

theorem exchangeGroups_perm (events : List StreamEvent) :
    (exchangeGroups events).Perm (eventGroups events) :=
  List.perm_insertionSort _ _

theorem exchangeGroups_nodup (events : List StreamEvent) :
    ((exchangeGroups events).map Prod.fst).Nodup :=
  ((exchangeGroups_perm events).map _).nodup_iff.mpr (eventGroups_nodup events)

theorem mem_exchangeGroups {events : List StreamEvent} {group : EventGroup} :
    group ∈ exchangeGroups events ↔ group ∈ eventGroups events :=
  (exchangeGroups_perm events).mem_iff

theorem formed_built {events : List StreamEvent} {group : EventGroup} (h : group ∈ eventGroups events) :
    Built (group.2.map Prod.fst) (formed group) :=
  built_spec (by simpa using eventGroup_ne_nil h)

theorem groupExchanges_length_le (events : List StreamEvent) :
    (groupExchanges events).length ≤ events.length := by
  rw [groupExchanges_eq, List.length_map, (exchangeGroups_perm events).length_eq]
  exact (groupBy_length_le _ _).trans (by simp)

theorem eventPks_perm (events : List StreamEvent) :
    ((groupExchanges events).flatMap Exchange.eventPks).Perm (events.map StreamEvent.pk) := by
  rw [groupExchanges_eq, List.flatMap_map]
  have hpks : ∀ group ∈ exchangeGroups events,
      (formed group).eventPks = group.2.map fun indexed => indexed.1.pk := by
    intro group hgroup
    rw [(formed_built (mem_exchangeGroups.mp hgroup)).eventPks, List.map_map]
    rfl
  rw [List.flatMap_congr hpks]
  have hmembers : ((exchangeGroups events).flatMap Prod.snd).Perm events.zipIdx :=
    ((exchangeGroups_perm events).flatMap_right _).trans (flatMap_perm exchangeKey events.zipIdx)
  have hmap := hmembers.map fun indexed => indexed.1.pk
  rw [List.map_flatMap] at hmap
  refine hmap.trans (List.Perm.of_eq ?_)
  have hfst := congrArg (List.map StreamEvent.pk) (List.zipIdx_map_fst 0 events)
  rwa [List.map_map] at hfst

theorem formed_response {events : List StreamEvent} {responseId : String} {members : List (StreamEvent × ℕ)}
    (h : (.response responseId, members) ∈ eventGroups events) :
    (formed (.response responseId, members)).id = responseId ∧
      ∀ indexed ∈ members, indexed.1.responseId = some responseId := by
  have hmember : ∀ indexed ∈ members, indexed.1.responseId = some responseId := by
    rintro ⟨event, index⟩ hmem
    have hkey := ((mem_eventGroup h).mp hmem).2
    simp only [exchangeKey] at hkey
    split at hkey
    · next found hfound => rw [hfound, ExchangeKey.response.inj hkey]
    · cases hkey
  obtain ⟨first, rest, rfl⟩ := List.exists_cons_of_ne_nil (eventGroup_ne_nil h)
  refine ⟨?_, hmember⟩
  rw [(formed_built h).id first.1 (by simp), hmember first (by simp), Option.getD_some]

theorem formed_alone {events : List StreamEvent} {index : ℕ} {members : List (StreamEvent × ℕ)}
    (h : (.alone index, members) ∈ eventGroups events) :
    ∃ event, events[index]? = some event ∧ event.responseId = none ∧
      (∀ indexed ∈ members, indexed = (event, index)) ∧ (formed (.alone index, members)).id = event.eventId := by
  have hmember : ∀ indexed ∈ members, events[indexed.2]? = some indexed.1 ∧
      indexed.1.responseId = none ∧ indexed.2 = index := by
    rintro ⟨event, at'⟩ hmem
    obtain ⟨hget, hkey⟩ := (mem_eventGroup h).mp hmem
    simp only [exchangeKey] at hkey
    split at hkey
    · cases hkey
    · next hnone => exact ⟨hget, hnone, ExchangeKey.alone.inj hkey⟩
  obtain ⟨⟨event, at'⟩, rest, rfl⟩ := List.exists_cons_of_ne_nil (eventGroup_ne_nil h)
  obtain ⟨hget, hnone, hat⟩ := hmember (event, at') (by simp)
  obtain rfl : at' = index := hat
  refine ⟨event, hget, hnone, ?_, ?_⟩
  · rintro ⟨other, place⟩ hmem
    obtain ⟨hother, -, hplace⟩ := hmember _ hmem
    obtain rfl : place = at' := hplace
    obtain rfl : other = event := Option.some.inj (hother.symm.trans hget)
    rfl
  · rw [(formed_built h).id event (by simp), hnone, Option.getD_none]

end AbyssBackend.Streams
