import AbyssBackend.Library.Extents
import AbyssBackend.Streams.Fixtures
import AbyssBackend.Streams.TurnViews

namespace AbyssBackend.Streams

open Extents Groups Segmentation

theorem Exchange.add_endTime (exchange : Exchange) (event : StreamEvent) :
    (exchange.add event).endTime = max exchange.endTime event.observedAt := by
  cases hfacts : event.facts with
  | request facts => cases hside : exchange.request <;> simp [Exchange.add, Exchange.declare, hfacts, hside]
  | response facts =>
    cases hside : exchange.response <;> cases hother : exchange.request <;>
      simp [Exchange.add, Exchange.declare, hfacts, hside, hother]

def observed (members : List StreamEvent) : Set ℤ := {t | ∃ event ∈ members, event.observedAt = t}

theorem built_endTime {members : List StreamEvent} (h : members ≠ []) :
    IsGreatest (observed members) (built members).endTime := by
  induction members using List.reverseRecOn with
  | nil => exact absurd rfl h
  | append_singleton members event ih =>
    by_cases hne : members = []
    · subst hne
      have hend : (built [event]).endTime = event.observedAt := by
        rw [built]
        simp [Exchange.add_endTime, Exchange.opened]
      simp [observed, hend, isGreatest_singleton]
    · have hinsert : observed (members ++ [event]) = insert event.observedAt (observed members) := by
        ext t
        simp only [observed, List.mem_append, List.mem_singleton, or_and_right, exists_or, exists_eq_left]
        exact Or.comm.trans (or_congr_left eq_comm)
      rw [built_concat hne, Exchange.add_endTime, hinsert, max_comm]
      exact (ih hne).insert _

def StreamEvent.isRequest (event : StreamEvent) : Bool := (requestSide event).isSome

/-- The time an exchange is ordered by is the earliest of its events' times, unless a response of it
comes before its first request. -/
theorem speaker_least {members : List StreamEvent} (hsorted : members.Pairwise fun x y => x.observedAt ≤ y.observedAt)
    {speaks event : StreamEvent} (hspeaks : speaks ∈ speaker members) (hevent : event ∈ members)
    (h : event.isRequest = true ∨ ∀ other ∈ members, other.isRequest = false) :
    speaks.observedAt ≤ event.observedAt := by
  rw [speaker] at hspeaks
  cases hfind : members.find? fun event => (requestSide event).isSome with
  | some first =>
    obtain rfl : first = speaks := by simpa [hfind] using hspeaks
    obtain ⟨hfirst, front, back, rfl, hfront⟩ := List.find?_eq_some_iff_append.mp hfind
    have hrequest : event.isRequest = true :=
      h.resolve_right fun hno => by simpa [StreamEvent.isRequest, hfirst] using hno first (by simp)
    have hback : event ∈ first :: back := by
      refine (List.mem_append.mp hevent).resolve_left fun hmem => ?_
      have hno := hfront event hmem
      rw [StreamEvent.isRequest] at hrequest
      simp [hrequest] at hno
    rcases List.mem_cons.mp hback with rfl | hmem
    · exact le_rfl
    · exact (List.pairwise_cons.mp (List.pairwise_append.mp hsorted).2.1).1 event hmem
  | none =>
    cases members with
    | nil => simp at hevent
    | cons first rest =>
      obtain rfl : first = speaks := by simpa [hfind] using hspeaks
      rcases List.mem_cons.mp hevent with rfl | hmem
      · exact le_rfl
      · exact (List.pairwise_cons.mp hsorted).1 event hmem

namespace SessionStructure

section Spans

variable (s : SessionStructure) (events : List StreamEvent) (xs : List ℕ)

/-- The times of the events grouped into the exchanges. -/
def heldTimes : Set ℤ := {t | ∃ event ∈ events, (∃ x ∈ xs, s.Holds x event) ∧ event.observedAt = t}

structure IsSpan (startTime endTime : ℤ) : Prop where
  start : IsLeast (s.heldTimes events xs) startTime
  finish : IsGreatest (s.heldTimes events xs) endTime

/-- Among the earliest events of the exchanges is a request, or one of an exchange without any. -/
def RequestFirst : Prop :=
  ∃ event ∈ events, ∃ x ∈ xs, s.Holds x event ∧
    (∀ other ∈ events, (∃ y ∈ xs, s.Holds y other) → event.observedAt ≤ other.observedAt) ∧
    (event.isRequest = true ∨ ∀ other ∈ events, s.Holds x other → other.isRequest = false)

end Spans

variable {events : List StreamEvent}

/-- The events of one exchange, in session order. -/
structure Members (events : List StreamEvent) (x : ℕ) (members : List StreamEvent) : Prop where
  ne_nil : members ≠ []
  built : (derive events).exchangeAt x = built members
  holds : ∀ event ∈ members, event ∈ events ∧ (derive events).Holds x event
  all : ∀ event ∈ events, (derive events).Holds x event → event ∈ members
  sublist : members.Sublist events

theorem exists_members (hpks : (events.map StreamEvent.pk).Nodup) {x : ℕ}
    (hx : x < (derive events).exchanges.length) : ∃ members, Members events x members := by
  obtain ⟨group, hget, hmem, hformed, -⟩ := exchange_group (List.getElem?_eq_getElem hx)
  obtain ⟨hfilter, -⟩ := mem_groupBy.mp hmem
  refine ⟨group.2.map Prod.fst, by simpa using eventGroup_ne_nil hmem, ?_, ?_, ?_, ?_⟩
  · rw [exchangeAt_eq (List.getElem?_eq_getElem hx), hformed]
    rfl
  · intro event hevent
    obtain ⟨⟨_, place⟩, hplace, rfl⟩ := List.mem_map.mp hevent
    exact ⟨List.mem_of_getElem? ((mem_eventGroup hmem).mp hplace).1, group_holds hget hplace⟩
  · intro event hevent hholds
    obtain ⟨key, members, place, hget', hplace⟩ := holds_group hpks hevent hholds
    obtain rfl : group = (key, members) := Option.some.inj (hget.symm.trans hget')
    exact List.mem_map_of_mem hplace
  · have hsublist := (List.filter_sublist (p := fun indexed => decide (exchangeKey indexed = group.1))
      (l := events.zipIdx)).map Prod.fst
    rw [List.zipIdx_map_fst] at hsublist
    rwa [hfilter]

theorem Members.speaker {x : ℕ} {members : List StreamEvent} (h : Members events x members) :
    ∃ event, event ∈ Streams.speaker members ∧ event ∈ members ∧ ((derive events).exchangeAt x).atTime = event.observedAt ∧
      (event.isRequest = true ∨ ∀ other ∈ members, other.isRequest = false) := by
  have hbuilt := built_spec h.ne_nil
  cases hfind : members.find? fun event => (requestSide event).isSome with
  | some first =>
    have hspeaks : first ∈ Streams.speaker members := by simp [Streams.speaker, hfind]
    have hrequest := List.find?_some hfind
    exact ⟨first, hspeaks, List.mem_of_find?_eq_some hfind, by rw [h.built, hbuilt.atTime first hspeaks],
      Or.inl hrequest⟩
  | none =>
    obtain ⟨first, rest, rfl⟩ := List.exists_cons_of_ne_nil h.ne_nil
    have hspeaks : first ∈ Streams.speaker (first :: rest) := by simp [Streams.speaker, hfind]
    exact ⟨first, hspeaks, by simp, by rw [h.built, hbuilt.atTime first hspeaks],
      Or.inr fun other hother => by simpa [StreamEvent.isRequest] using List.find?_eq_none.mp hfind other hother⟩

theorem Members.finish {x : ℕ} {members : List StreamEvent} (h : Members events x members) :
    IsGreatest (heldTimes (derive events) events [x]) ((derive events).exchangeAt x).endTime := by
  have htimes : heldTimes (derive events) events [x] = observed members := by
    ext t
    simp only [heldTimes, List.mem_singleton, exists_eq_left, observed, Set.mem_ofPred_eq]
    constructor
    · rintro ⟨event, hevent, hholds, htime⟩
      exact ⟨event, h.all event hevent hholds, htime⟩
    · rintro ⟨event, hevent, htime⟩
      obtain ⟨hmem, hholds⟩ := h.holds event hevent
      exact ⟨event, hmem, hholds, htime⟩
  rw [htimes, h.built]
  exact built_endTime h.ne_nil

theorem heldTimes_nested (s : SessionStructure) (xs : List ℕ) :
    s.heldTimes events xs = {t | ∃ x ∈ xs, t ∈ s.heldTimes events [x]} := by
  ext t
  simp only [heldTimes, List.mem_singleton, exists_eq_left, Set.mem_ofPred_eq]
  constructor
  · rintro ⟨event, hevent, ⟨x, hx, hholds⟩, htime⟩
    exact ⟨x, hx, event, hevent, hholds, htime⟩
  · rintro ⟨x, hx, event, hevent, hholds, htime⟩
    exact ⟨event, hevent, ⟨x, hx, hholds⟩, htime⟩

/-- The last time is right whatever comes; the first one is if a request, or an event of an exchange
without one, is among the earliest events. -/
theorem isSpan_iff {xs : List ℕ} {startTime endTime : ℤ} (hpks : (events.map StreamEvent.pk).Nodup)
    (hsorted : events.Pairwise fun x y => x.observedAt ≤ y.observedAt)
    (hxs : ∀ x ∈ xs, x < (derive events).exchanges.length)
    (hstart : IsLeast {t | ∃ x ∈ xs, ((derive events).exchangeAt x).atTime = t} startTime)
    (hend : IsGreatest {t | ∃ x ∈ xs, ((derive events).exchangeAt x).endTime = t} endTime) :
    IsSpan (derive events) events xs startTime endTime ↔ RequestFirst (derive events) events xs := by
  constructor
  · rintro ⟨⟨-, hle⟩, -⟩
    obtain ⟨⟨x, hx, rfl⟩, -⟩ := hstart
    obtain ⟨members, hmembers⟩ := exists_members hpks (hxs x hx)
    obtain ⟨event, -, hmem, htime, hrequest⟩ := hmembers.speaker
    obtain ⟨hevent, hholds⟩ := hmembers.holds event hmem
    refine ⟨event, hevent, x, hx, hholds, fun other hother hheld => ?_, hrequest.imp_right fun hno other hother hx => ?_⟩
    · rw [← htime]
      exact hle ⟨other, hother, hheld, rfl⟩
    · exact hno other (hmembers.all other hother hx)
  · rintro ⟨event, hevent, x, hx, hholds, hearliest, hrequest⟩
    refine ⟨?_, ?_⟩
    · obtain ⟨⟨first, hfirst, htime⟩, hle⟩ := hstart
      obtain ⟨others, hothers⟩ := exists_members hpks (hxs first hfirst)
      obtain ⟨speaks, -, hspeaks, hat, -⟩ := hothers.speaker
      obtain ⟨hspeaks, hheld⟩ := hothers.holds speaks hspeaks
      obtain ⟨members, hmembers⟩ := exists_members hpks (hxs x hx)
      obtain ⟨own, hown, -, hownTime, -⟩ := hmembers.speaker
      have hmem := hmembers.all event hevent hholds
      have hno : event.isRequest = true ∨ ∀ other ∈ members, other.isRequest = false :=
        hrequest.imp_right fun hno other hother =>
          hno other (hmembers.holds other hother).1 (hmembers.holds other hother).2
      have hspoken := speaker_least (hsorted.sublist hmembers.sublist) hown hmem hno
      have hat' : startTime ≤ own.observedAt := hownTime ▸ hle ⟨x, hx, rfl⟩
      have hbefore := hearliest speaks hspeaks ⟨first, hfirst, hheld⟩
      have heq : startTime = event.observedAt := by omega
      refine ⟨⟨event, hevent, ⟨x, hx, hholds⟩, heq.symm⟩, ?_⟩
      rintro t ⟨other, hother, hheld, rfl⟩
      rw [heq]
      exact hearliest other hother hheld
    · rw [heldTimes_nested]
      refine isGreatest_nested (fun x hx => ?_) hend
      obtain ⟨members, hmembers⟩ := exists_members hpks (hxs x hx)
      exact hmembers.finish

section Segments

variable (events) in
theorem segment_extent {segment : Segment} (hne : segment.exchanges ≠ []) :
    IsLeast {t | ∃ x ∈ segment.exchanges, ((derive events).exchangeAt x).atTime = t}
        ((derive events).segment segment).startTime ∧
      IsGreatest {t | ∃ x ∈ segment.exchanges, ((derive events).exchangeAt x).endTime = t}
        ((derive events).segment segment).endTime := by
  simp only [Derivation.segment, List.map_map]
  exact ⟨min?_isLeast hne _ 0, max?_isGreatest hne _ 0⟩

theorem segment_ne_nil {j : ℕ} {segment : Segment}
    (h : (derive events).segmentation.segments[j]? = some segment) :
    segment.exchanges ≠ [] ∧ ∀ x ∈ segment.exchanges, x < (derive events).exchanges.length :=
  (partition events).members segment (List.mem_of_getElem? h)

def exchangesOf (s : SessionStructure) (segments : List ℕ) : List ℕ := segments.flatMap s.membersAt

theorem byTurn_segment {node : Option ℤ × List ℕ} (hnode : node ∈ (derive events).byTurn) {j : ℕ} (hj : j ∈ node.2) :
    ∃ segment, (derive events).segmentation.segments[j]? = some segment ∧
      (derive events).membersAt j = segment.exchanges ∧
      (derive events).startOf j = ((derive events).segment segment).startTime ∧
      (derive events).endOf j = ((derive events).segment segment).endTime := by
  have hmem : j ∈ (derive events).byTurn.flatMap Prod.snd := List.mem_flatMap.mpr ⟨node, hnode, hj⟩
  have hlt : j < (derive events).segments.length := List.mem_range.mp ((byTurn_all _).mem_iff.mp hmem)
  have hlength : (derive events).segments.length = (derive events).segmentation.segments.length := List.length_map ..
  obtain ⟨segment, hsegment⟩ : ∃ segment, (derive events).segmentation.segments[j]? = some segment :=
    ⟨_, List.getElem?_eq_getElem (hlength ▸ hlt)⟩
  have hdescribed := streams_getElem? hsegment
  rw [sessionStreams] at hdescribed
  exact ⟨segment, hsegment, by simp [membersAt, hsegment], by simp [startOf, hdescribed], by simp [endOf, hdescribed]⟩

theorem byTurn_ne_nil {node : Option ℤ × List ℕ} (hnode : node ∈ (derive events).byTurn) : node.2 ≠ [] := by
  obtain ⟨turn, members⟩ := node
  exact group_ne_nil ((List.perm_insertionSort _ _).mem_iff.mp hnode)

theorem node_extent {node : Option ℤ × List ℕ} (hnode : node ∈ (derive events).byTurn) :
    IsLeast {t | ∃ x ∈ (derive events).exchangesOf node.2, ((derive events).exchangeAt x).atTime = t}
        ((derive events).turnNode node.1 node.2).startTime ∧
      IsGreatest {t | ∃ x ∈ (derive events).exchangesOf node.2, ((derive events).exchangeAt x).endTime = t}
        ((derive events).turnNode node.1 node.2).endTime := by
  have hflat : ∀ f : ℕ → ℤ, {t | ∃ x ∈ (derive events).exchangesOf node.2, f x = t} =
      {t | ∃ j ∈ node.2, t ∈ {t | ∃ x ∈ (derive events).membersAt j, f x = t}} := by
    intro f
    ext t
    simp only [exchangesOf, List.mem_flatMap, Set.mem_ofPred_eq]
    exact ⟨fun ⟨x, ⟨j, hj, hx⟩, ht⟩ => ⟨j, hj, x, hx, ht⟩, fun ⟨j, hj, x, hx, ht⟩ => ⟨x, ⟨j, hj, hx⟩, ht⟩⟩
  have hne := byTurn_ne_nil hnode
  rw [hflat, hflat]
  constructor
  · refine isLeast_nested (fun j hj => ?_) (min?_isLeast hne (derive events).startOf 0)
    obtain ⟨segment, hsegment, hmembers, hstart, -⟩ := byTurn_segment hnode hj
    rw [hmembers, hstart]
    exact (segment_extent events (segment_ne_nil hsegment).1).1
  · refine isGreatest_nested (fun j hj => ?_) (max?_isGreatest hne (derive events).endOf 0)
    obtain ⟨segment, hsegment, hmembers, -, hend⟩ := byTurn_segment hnode hj
    rw [hmembers, hend]
    exact (segment_extent events (segment_ne_nil hsegment).1).2

/-- Segments and turns span the times of their events exactly where the earliest of these are led by a
request, or by an exchange that has none. -/
theorem spans_iff (session : SessionEvents)
    (hsorted : session.events.Pairwise fun x y => x.observedAt ≤ y.observedAt) :
    (∀ (j : ℕ) (segment : Segment) (described : StreamSegment),
      (derive session.events).segmentation.segments[j]? = some segment →
      (derive session.events).sessionStreams[j]? = some described →
        (IsSpan (derive session.events) session.events segment.exchanges described.startTime described.endTime ↔
          RequestFirst (derive session.events) session.events segment.exchanges)) ∧
    ∀ node ∈ (derive session.events).byTurn,
      IsSpan (derive session.events) session.events ((derive session.events).exchangesOf node.2)
          ((derive session.events).turnNode node.1 node.2).startTime
          ((derive session.events).turnNode node.1 node.2).endTime ↔
        RequestFirst (derive session.events) session.events ((derive session.events).exchangesOf node.2) := by
  constructor
  · intro j segment described hsegment hdescribed
    obtain rfl : described = (derive session.events).segment segment :=
      Option.some.inj (hdescribed.symm.trans (streams_getElem? hsegment))
    obtain ⟨hne, hlt⟩ := segment_ne_nil hsegment
    obtain ⟨hstart, hend⟩ := segment_extent session.events hne
    exact isSpan_iff session.pks hsorted hlt hstart hend
  · intro node hnode
    obtain ⟨hstart, hend⟩ := node_extent hnode
    refine isSpan_iff session.pks hsorted (fun x hx => ?_) hstart hend
    obtain ⟨j, hj, hx⟩ := List.mem_flatMap.mp hx
    obtain ⟨segment, hsegment, hmembers, -⟩ := byTurn_segment hnode hj
    exact (segment_ne_nil hsegment).2 x (hmembers ▸ hx)

end Segments

section Session

open Conversation Fixtures

local instance earlyDigest : Text.Sha256 := okDigest

/-- A response stamped a second before its request. -/
def earlyAnswer : List StreamEvent :=
  [answer 1 "p" 1000 [assistant "ok"],
    ask 2 "p" 2000 [user "go"]]

theorem earlyAnswer_escapes :
    (derive earlyAnswer).sessionStreams.map (fun segment => (segment.startTime, segment.endTime)) =
        [(2000000, 2000000)] ∧
      (derive earlyAnswer).sessionTurns.map (fun node => (node.startTime, node.endTime)) = [(2000000, 2000000)] ∧
      (derive earlyAnswer).Holds 0 (answer 1 "p" 1000 [assistant "ok"]) ∧
      (answer 1 "p" 1000 [assistant "ok"]).observedAt = 1000000 :=
  ⟨by decide +kernel, by decide +kernel, ⟨_, rfl, by decide +kernel⟩, rfl⟩

def promptAnswer : SessionEvents where
  events := [ask 1 "p" 1000 [user "go"], answer 2 "p" 2000 [assistant "ok"]]
  pks := by decide
  fits := by decide

theorem spans_promptAnswer :
    IsSpan (derive promptAnswer.events) promptAnswer.events [0] 1000000 2000000 := by
  have hspans := spans_iff promptAnswer (by decide)
  obtain ⟨segment, hsegment⟩ : ∃ segment, (derive promptAnswer.events).segmentation.segments[0]? = some segment ∧
      (derive promptAnswer.events).sessionStreams[0]? = some ((derive promptAnswer.events).segment segment) ∧
      segment.exchanges = [0] ∧ ((derive promptAnswer.events).segment segment).startTime = 1000000 ∧
      ((derive promptAnswer.events).segment segment).endTime = 2000000 :=
    ⟨_, rfl, rfl, by decide +kernel, by decide +kernel, by decide +kernel⟩
  obtain ⟨hsegment, hdescribed, hexchanges, hstart, hend⟩ := hsegment
  have hspan := (hspans.1 0 segment _ hsegment hdescribed).mpr
  rw [hexchanges, hstart, hend] at hspan
  refine hspan ⟨ask 1 "p" 1000 [user "go"], by simp [promptAnswer], 0, by simp, ⟨_, rfl, by decide +kernel⟩,
    fun other hother _ => ?_, Or.inl (by decide)⟩
  simp only [promptAnswer, List.mem_cons, List.not_mem_nil, or_false] at hother
  rcases hother with rfl | rfl <;> decide

end Session

end SessionStructure

end AbyssBackend.Streams
