import AbyssBackend.Streams.Fixtures
import AbyssBackend.Streams.TurnCount
import Mathlib.Data.List.Dedup

namespace AbyssBackend.Streams

open Groups

deriving instance Inhabited for Label, RequestFacts, ResponseFacts, EventFacts, StreamEvent

namespace StreamEvent

variable (event : StreamEvent)

def startsTurn : Bool :=
  match event.facts with
  | .request facts => facts.startsTurn
  | .response _ => false

def continuesContext : Bool :=
  match event.facts with
  | .request facts => facts.newFrom > 0 || event.previousResponseId.isSome
  | .response _ => false

def isResponse : Bool :=
  match event.facts with
  | .request _ => false
  | .response _ => true

def exchangeName : String := event.responseId.getD event.eventId

end StreamEvent

def sessionLe (x y : StreamEvent) : Bool :=
  x.observedAt < y.observedAt || (x.observedAt == y.observedAt &&
    ((!x.isResponse && y.isResponse) || (x.isResponse == y.isResponse && x.pk ≤ y.pk)))

def declaredTurns (events : List StreamEvent) : List String := (events.filterMap StreamEvent.turnId).dedup

def opensTurn (found : Bool × List StreamEvent) (event : StreamEvent) : Bool × List StreamEvent :=
  if event.startsTurn then
    (true, if event.continuesContext || !found.1 then found.2 ++ [event] else found.2)
  else found

def openings (events : List StreamEvent) : List StreamEvent := (events.foldl opensTurn (false, [])).2

/-- A session's turn count, read from events alone. -/
def countedTurns (events : List StreamEvent) : ℕ :=
  if declaredTurns events = [] then (openings events).length else (declaredTurns events).length

def speakers (events : List StreamEvent) : List StreamEvent :=
  ((eventGroups events).filterMap fun group => speaker (group.2.map Prod.fst)).insertionSort
    fun x y => x.observedAt ≤ y.observedAt

/-- The turn count of the exchanges' speakers, an exchange opening the turn of its name. -/
def spokenTurns (events : List StreamEvent) : ℕ :=
  if declaredTurns events = [] then ((openings events).map StreamEvent.exchangeName).dedup.length
  else (declaredTurns events).length

/-- The exchange says what the event says. -/
structure Speaks (event : StreamEvent) (exchange : Exchange) : Prop where
  id : exchange.id = event.exchangeName
  turnId : exchange.turnId = event.turnId
  startsTurn : exchange.startsTurn = event.startsTurn
  continuesContext : exchange.continuesContext = event.continuesContext

theorem requestSide_startsTurn (event : StreamEvent) :
    ((requestSide event).any fun request => request.facts.startsTurn) = event.startsTurn := by
  rw [requestSide, StreamEvent.startsTurn]
  cases event.facts <;> rfl

theorem requestSide_continues (event : StreamEvent) :
    ((requestSide event).any fun request => request.facts.newFrom > 0 || request.previousResponseId.isSome) =
      event.continuesContext := by
  rw [requestSide, StreamEvent.continuesContext]
  cases event.facts <;> rfl

theorem speaker_mem {members : List StreamEvent} {event : StreamEvent} (h : speaker members = some event) :
    event ∈ members := by
  rcases Option.or_eq_some_iff.mp h with hfound | ⟨-, hhead⟩
  · exact List.mem_of_find?_eq_some hfound
  · exact List.mem_of_mem_head? hhead

theorem speaker_isSome {members : List StreamEvent} (h : members ≠ []) : ∃ event, speaker members = some event := by
  obtain ⟨first, rest, rfl⟩ := List.exists_cons_of_ne_nil h
  apply Option.isSome_iff_exists.mp
  simp [speaker]

theorem findSome?_requestSide {members : List StreamEvent} {event : StreamEvent}
    (h : speaker members = some event) : members.findSome? requestSide = requestSide event := by
  rcases Option.or_eq_some_iff.mp h with hfound | ⟨hnone, hhead⟩
  · obtain ⟨hside, before, after, rfl, hbefore⟩ := List.find?_eq_some_iff_append.mp hfound
    have hskip : before.findSome? requestSide = none := by
      simpa [List.findSome?_eq_none_iff] using hbefore
    obtain ⟨side, hsome⟩ := Option.isSome_iff_exists.mp hside
    simp [List.findSome?_append, hskip, hsome]
  · have hall : ∀ event ∈ members, requestSide event = none := by simpa using hnone
    rw [hall event (List.mem_of_mem_head? hhead)]
    exact List.findSome?_eq_none_iff.mpr hall

theorem formed_speaks {events : List StreamEvent} {group : EventGroup} (h : group ∈ eventGroups events)
    {event : StreamEvent} (hevent : speaker (group.2.map Prod.fst) = some event) :
    Speaks event (formed group) := by
  have hbuilt := formed_built h
  have hrequest : (formed group).request = requestSide event :=
    hbuilt.request.trans (findSome?_requestSide hevent)
  refine ⟨?_, hbuilt.turnId event hevent, ?_, ?_⟩
  · obtain ⟨key, members⟩ := group
    obtain ⟨⟨_, index⟩, hmem, rfl⟩ := List.mem_map.mp (speaker_mem hevent)
    cases key with
    | response responseId =>
      obtain ⟨hid, hmembers⟩ := formed_response h
      rw [hid, StreamEvent.exchangeName, hmembers _ hmem, Option.getD_some]
    | alone place =>
      obtain ⟨single, -, hnone, hmembers, hid⟩ := formed_alone h
      obtain rfl := congrArg Prod.fst (hmembers _ hmem)
      rw [hid, StreamEvent.exchangeName, hnone, Option.getD_none]
  · rw [Exchange.startsTurn, hrequest, requestSide_startsTurn]
  · rw [Exchange.continuesContext, hrequest, requestSide_continues]

theorem speakers_speak (events : List StreamEvent) :
    List.Forall₂ Speaks (speakers events) (groupExchanges events) := by
  let spoken (group : EventGroup) : StreamEvent := (speaker (group.2.map Prod.fst)).getD default
  have hspoken : ∀ group ∈ eventGroups events, speaker (group.2.map Prod.fst) = some (spoken group) := by
    intro group hgroup
    have hne : group.2.map Prod.fst ≠ [] := by simpa using eventGroup_ne_nil hgroup
    obtain ⟨event, hevent⟩ := speaker_isSome hne
    simp only [spoken, hevent, Option.getD_some]
  have hspeakers : speakers events = (exchangeGroups events).map spoken := by
    have hfilter : ((eventGroups events).filterMap fun group => speaker (group.2.map Prod.fst)) =
        (eventGroups events).map spoken := by
      rw [List.filterMap_congr hspoken]
      exact congrFun List.filterMap_eq_map _
    rw [speakers, hfilter, exchangeGroups]
    refine (List.map_insertionSort _ _ spoken _ fun x hx y hy => ?_).symm
    have htime : ∀ group ∈ eventGroups events, (formed group).atTime = (spoken group).observedAt :=
      fun group hgroup => (formed_built hgroup).atTime _ (hspoken group hgroup)
    rw [htime x hx, htime y hy]
  rw [hspeakers, groupExchanges_eq, List.forall₂_map_left_iff, List.forall₂_map_right_iff]
  apply List.forall₂_same.mpr
  intro group hgroup
  have hmem := mem_exchangeGroups.mp hgroup
  exact formed_speaks hmem (hspoken group hmem)

namespace Turns

theorem mem_collect {ids : List String} {id x : String} : x ∈ collect ids id ↔ x ∈ ids ∨ x = id := by
  by_cases h : id ∈ ids
  · simp only [collect, h, if_true]
    exact ⟨Or.inl, fun hx => hx.elim (fun hx => hx) fun hx => hx ▸ h⟩
  · simp [collect, h]

theorem collect_nodup {ids : List String} (h : ids.Nodup) (id : String) : (collect ids id).Nodup := by
  by_cases hid : id ∈ ids
  · simpa [collect, hid] using h
  · rw [collect, if_neg hid]
    refine List.nodup_append.mpr ⟨h, List.nodup_singleton id, ?_⟩
    rintro x hx y hy rfl
    exact hid (List.mem_singleton.mp hy ▸ hx)

theorem collected_perm (names : List String) : (names.foldl collect []).Perm names.dedup := by
  have h : (names.foldl collect []).Nodup ∧ ∀ x, x ∈ names.foldl collect [] ↔ x ∈ names := by
    induction names using List.reverseRecOn with
    | nil => simp
    | append_singleton names name ih =>
      rw [List.foldl_concat]
      refine ⟨collect_nodup ih.1 name, fun x => ?_⟩
      rw [mem_collect, ih.2, List.mem_append, List.mem_singleton]
  apply (List.perm_ext_iff_of_nodup h.1 (List.nodup_dedup names)).mpr
  intro x
  rw [h.2, List.mem_dedup]

variable {events : List StreamEvent} {exchanges : List Exchange}

theorem ids_declared (h : List.Forall₂ Speaks events exchanges) (bases : List Base) (turns : Turns) :
    (exchanges.foldl (assignOne true bases) turns).ids =
      (events.filterMap StreamEvent.turnId).foldl collect turns.ids := by
  induction h generalizing turns with
  | nil => rfl
  | @cons event exchange events exchanges hspeaks _ ih =>
    rw [List.foldl_cons, ih, assignOne_ids, opened, if_pos rfl, hspeaks.turnId, List.filterMap_cons]
    cases event.turnId <;> rfl

theorem ids_opened (h : List.Forall₂ Speaks events exchanges) (bases : List Base) {turns : Turns}
    (found : Bool × List StreamEvent) (hids : turns.ids = (found.2.map StreamEvent.exchangeName).foldl collect [])
    (hfound : found.1 = !turns.ids.isEmpty) :
    (exchanges.foldl (assignOne false bases) turns).ids =
      ((events.foldl opensTurn found).2.map StreamEvent.exchangeName).foldl collect [] := by
  induction h generalizing turns found with
  | nil => exact hids
  | @cons event exchange events exchanges hspeaks _ ih =>
    rw [List.foldl_cons, List.foldl_cons]
    have hopened : opened false turns.ids exchange =
        if event.startsTurn && (event.continuesContext || turns.ids.isEmpty) then some event.exchangeName
        else none := by
      simp only [opened, hspeaks.startsTurn, hspeaks.continuesContext, hspeaks.id, Bool.false_eq_true, if_false]
    apply ih _
    · rw [assignOne_ids, hopened, opensTurn, hfound, Bool.not_not]
      cases event.startsTurn
      · exact hids
      · cases event.continuesContext || turns.ids.isEmpty
        · exact hids
        · simp [hids]
    · rw [assignOne_ids, hopened, opensTurn]
      cases event.startsTurn
      · exact hfound
      · have hnonempty : ∀ id, (collect turns.ids id).isEmpty = false := fun id => by
          rw [List.isEmpty_eq_false_iff]
          exact List.ne_nil_of_mem (mem_collect.mpr (Or.inr rfl))
        cases event.continuesContext <;> cases hempty : turns.ids.isEmpty <;> simp [hnonempty, hempty]

end Turns

namespace SessionStructure

theorem declared_any {events : List StreamEvent} {exchanges : List Exchange}
    (h : List.Forall₂ Speaks events exchanges) :
    (exchanges.any fun exchange => exchange.turnId.isSome) = true ↔ declaredTurns events ≠ [] := by
  rw [declaredTurns, Ne, List.dedup_eq_nil]
  induction h with
  | nil => simp
  | @cons event exchange events exchanges hspeaks _ ih =>
    rw [List.any_cons, Bool.or_eq_true, ih, hspeaks.turnId, List.filterMap_cons]
    cases event.turnId <;> simp

theorem turns_counted (events : List StreamEvent) :
    (derive events).summary.turns = spokenTurns (speakers events) := by
  have hspeak := speakers_speak events
  have hturns : (derive events).summary.turns = ((groupExchanges events).foldl (Turns.assignOne
      ((groupExchanges events).any fun exchange => exchange.turnId.isSome)
      (derive events).bases) Turns.start).ids.length := rfl
  have hdeclared := declared_any hspeak
  rw [hturns, spokenTurns]
  by_cases hnone : declaredTurns (speakers events) = []
  · have hfalse : ((groupExchanges events).any fun exchange => exchange.turnId.isSome) = false := by
      simpa [hnone] using hdeclared
    rw [if_pos hnone, hfalse, Turns.ids_opened hspeak _ (false, []) rfl rfl]
    exact (Turns.collected_perm _).length_eq
  · have htrue : ((groupExchanges events).any fun exchange => exchange.turnId.isSome) = true := by
      simpa [hnone] using hdeclared
    rw [if_neg hnone, htrue, Turns.ids_declared hspeak]
    exact (Turns.collected_perm _).length_eq

section Session

open Fixtures

local instance formulaDigest : Text.Sha256 := okDigest

/-- Only responses declare a turn, and the requests open two. -/
def lateDeclaration : List StreamEvent :=
  [ask 1 "e1" 1000 [user "hi"],
    declared (answer 2 "e1" 1500 [assistant "ok"]) none none (some "p"),
    ask 3 "e2" 2000 [user "hi", assistant "ok", user "more"],
    declared (answer 4 "e2" 2500 [assistant "ok"]) none none (some "p")]

/-- The request of one exchange is delivered twice. -/
def repeatedRequest : List StreamEvent :=
  [ask 1 "e1" 1000 [user "hi", assistant "ok", user "more"],
    { ask 2 "e1" 1001 [user "hi", assistant "ok", user "more"] with eventId := "e1.again" }]

/-- A response comes before its request, which ties with the request of another exchange. -/
def earlyResponse : List StreamEvent :=
  [answer 1 "e1" 1000 [assistant "ok"], ask 2 "e2" 2000 [user "hi"],
    ask 3 "e1" 2000 [user "hi", assistant "ok", user "more"]]

/-- A request without a response id has another exchange's response id as its event id. -/
def namesakeRequests : List StreamEvent :=
  [{ ask 1 "e1" 1000 [user "hi", assistant "ok", user "more"] with eventId := "e1", responseId := none },
    ask 2 "e1" 2000 [user "hi", assistant "ok", user "more"]]

def Miscounted (events : List StreamEvent) : Prop :=
  (events.Pairwise fun x y => sessionLe x y) ∧ (derive events).summary.turns ≠ countedTurns events

instance (events : List StreamEvent) : Decidable (Miscounted events) := inferInstanceAs (Decidable (_ ∧ _))

theorem turns_not_counted_on_events :
    Miscounted lateDeclaration ∧ Miscounted repeatedRequest ∧ Miscounted earlyResponse ∧
      Miscounted namesakeRequests := by
  decide

end Session

end SessionStructure

end AbyssBackend.Streams
