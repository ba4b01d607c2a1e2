import AbyssBackend.Streams.Addresses
import AbyssBackend.Streams.Executors
import AbyssBackend.Streams.TurnCount
import Mathlib.Data.List.Dedup

namespace AbyssBackend.Streams

open Groups Segmentation

/-- The events of one session as they are loaded: told apart by primary key, and no more of them
than a vector can hold. -/
structure SessionEvents where
  events : List StreamEvent
  pks : (events.map StreamEvent.pk).Nodup
  fits : events.length ≤ i64Max

namespace SessionStructure

def usizeMax : ℕ := 18446744073709551615

def turnsOf (s : SessionStructure) (pks : List Uuid) : List ℤ :=
  (pks.filterMap fun pk => (s.eventPosition pk).bind EventLocation.turn).dedup

/-- The turns of each group: per session, the distinct turns its events fall in, summed over sessions. -/
def summaryTurns {ε : Type} (groups : List (List (Uuid × List Uuid)))
    (structure' : Uuid → Except ε SessionStructure) : Except ε (List ℕ) :=
  groups.mapM fun sessions => sessions.foldlM (fun turns session => do
    let s ← structure' session.1
    return min (turns + (s.turnsOf session.2).length) usizeMax) 0

def numbers (count : ℕ) : List (Option ℤ) := (List.range count).map fun turn : ℕ => some ((turn : ℤ) + 1)

/-- The turn, segment and event views of a session agree. -/
structure ViewsAgree (s : SessionStructure) (events : List StreamEvent) : Prop where
  numbered : s.sessionTurns.map TurnNode.turn = numbers s.summary.turns ∨
    s.sessionTurns.map TurnNode.turn = none :: numbers s.summary.turns
  reported : (s.turnsOf (events.map StreamEvent.pk)).length = s.summary.turns
  counted : ∀ (sessionPk : Uuid), summaryTurns (ε := Unit) [[(sessionPk, events.map StreamEvent.pk)]]
    (fun _ => .ok s) = .ok [s.summary.turns]
  located : ∀ event ∈ events, ∃ (location : EventLocation) (x j : ℕ) (segment : Segment) (described : StreamSegment),
    s.eventPosition event.pk = some location ∧ s.Holds x event ∧
    s.segmentation.segments[j]? = some segment ∧ x ∈ segment.exchanges ∧
    s.sessionStreams[j]? = some described ∧ location.turn = described.turn
  placed : (s.byTurn.flatMap fun node => (s.executors node.2).flatMap Executor.all).Perm
    (List.range s.sessionStreams.length)
  main : ∀ node ∈ s.byTurn, ∀ executor ∈ s.executors node.2, executor.main.length = 1
  executorCounts : ∀ node ∈ s.sessionTurns,
    (node.executors.map TurnExecutor.exchangeCount).sum = node.exchangeCount
  nodeCounts : (s.sessionTurns.map TurnNode.exchangeCount).sum = s.exchanges.length

theorem map_range_getElem? {α : Type} (xs : List α) (f : α → ℕ) :
    ((List.range xs.length).map fun index => (xs[index]?.map f).getD 0) = xs.map f := by
  apply List.ext_getElem?
  intro index
  rw [List.getElem?_map, List.getElem?_map]
  by_cases hlt : index < xs.length
  · simp [hlt]
  · simp [hlt]

section Counts

variable (s : SessionStructure)

theorem exchangeCount_perm {xs ys : List ℕ} (h : xs.Perm ys) : s.exchangeCount xs = s.exchangeCount ys :=
  (h.map _).sum_nat

theorem exchangeCount_flatMap {α : Type} (xs : List α) (f : α → List ℕ) :
    s.exchangeCount (xs.flatMap f) = (xs.map fun x => s.exchangeCount (f x)).sum := by
  induction xs with
  | nil => rfl
  | cons x xs ih =>
    simp only [exchangeCount, List.flatMap_cons, List.map_append, List.sum_append, List.map_cons,
      List.sum_cons] at ih ⊢
    rw [ih]

theorem executorOf_all (group : Group × List ℕ) : (s.executorOf group).all.Perm group.2 := by
  simp only [Executor.all, executorOf]
  exact List.perm_append_comm.trans (List.filter_append_perm _ _)

def startGroups (members : List ℕ) : List (Group × List ℕ) :=
  (groupBy s.groupAt members).map fun group => (group.1, group.2.insertionSort fun x y => s.segmentLe x y)

theorem executors_perm (members : List ℕ) :
    (s.executors members).Perm ((s.startGroups members).map s.executorOf) :=
  (Executor.startedFirst_perm _).trans ((List.perm_insertionSort _ _).map _)

theorem mem_executors {members : List ℕ} {executor : Executor} (h : executor ∈ s.executors members) :
    ∃ group inside, (group, inside) ∈ groupBy s.groupAt members ∧
      executor.main.Perm (inside.filter fun segment => !s.sideAt segment) := by
  obtain ⟨⟨group, sorted⟩, hgroups, rfl⟩ := List.mem_map.mp ((executors_perm s members).mem_iff.mp h)
  obtain ⟨⟨group', inside⟩, hgroup, heq⟩ := List.mem_map.mp hgroups
  obtain ⟨rfl, rfl⟩ := Prod.mk.inj heq
  exact ⟨group', inside, hgroup, (List.perm_insertionSort _ inside).filter _⟩

theorem executors_all (members : List ℕ) :
    ((s.executors members).flatMap Executor.all).Perm members := by
  refine ((executors_perm s members).flatMap_right _).trans ?_
  rw [startGroups, List.flatMap_map, List.flatMap_map]
  refine (List.Perm.flatMap_left _ fun group _ => ?_).trans (flatMap_perm s.groupAt members)
  exact (executorOf_all s _).trans (List.perm_insertionSort _ _)

theorem byTurn_all : (s.byTurn.flatMap Prod.snd).Perm (List.range s.segments.length) :=
  ((List.perm_insertionSort _ _).flatMap_right _).trans (flatMap_perm _ _)

theorem placed_perm : (s.byTurn.flatMap fun node => (s.executors node.2).flatMap Executor.all).Perm
    (List.range s.segments.length) :=
  (List.Perm.flatMap_left _ fun node _ => executors_all s node.2).trans (byTurn_all s)

theorem executorCounts_eq (turn : Option ℤ) (members : List ℕ) :
    ((s.turnNode turn members).executors.map TurnExecutor.exchangeCount).sum =
      (s.turnNode turn members).exchangeCount := by
  simp only [turnNode, List.map_map]
  rw [← exchangeCount_perm s (executors_all s members), exchangeCount_flatMap]
  rfl

end Counts

section Order

theorem turnLe_total (x y : Option ℤ) : turnLe x y = true ∨ turnLe y x = true := by
  cases x <;> cases y <;> simp [turnLe, le_total]

theorem turnLe_trans {x y z : Option ℤ} (hxy : turnLe x y = true) (hyz : turnLe y z = true) :
    turnLe x z = true := by
  cases x <;> cases y <;> cases z <;> simp_all [turnLe]
  omega

theorem turnLe_antisymm {x y : Option ℤ} (hxy : turnLe x y = true) (hyx : turnLe y x = true) : x = y := by
  cases x <;> cases y <;> simp_all [turnLe]
  omega

theorem mem_numbers {count : ℕ} {k : Option ℤ} :
    k ∈ numbers count ↔ ∃ index < count, some ((index : ℤ) + 1) = k := by
  simp [numbers]

theorem numbers_nodup (count : ℕ) : (numbers count).Nodup := by
  refine List.Nodup.map (fun x y h => ?_) List.nodup_range
  have hxy : (x : ℤ) + 1 = y + 1 := Option.some.inj h
  omega

theorem numbers_sorted (count : ℕ) : (numbers count).Pairwise fun x y => turnLe x y = true := by
  rw [numbers, List.pairwise_map]
  refine (List.sortedLT_range count).pairwise.imp fun {x y} h => ?_
  simp only [turnLe, decide_eq_true_eq]
  omega

theorem byTurn_sorted (s : SessionStructure) :
    (s.byTurn.map Prod.fst).Pairwise fun x y => turnLe x y = true := by
  have htotal : Std.Total fun x y : Option ℤ × List ℕ => turnLe x.1 y.1 = true := ⟨fun x y => turnLe_total x.1 y.1⟩
  have htrans : IsTrans _ fun x y : Option ℤ × List ℕ => turnLe x.1 y.1 = true := ⟨fun _ _ _ => turnLe_trans⟩
  rw [List.pairwise_map]
  exact List.pairwise_insertionSort _ _

theorem byTurn_nodup (s : SessionStructure) : (s.byTurn.map Prod.fst).Nodup :=
  ((List.perm_insertionSort _ _).map _).nodup_iff.mpr (keys_nodup _ _)

theorem mem_byTurn (s : SessionStructure) {k : Option ℤ} : k ∈ s.byTurn.map Prod.fst ↔
    ∃ j < s.segments.length, s.segments[j]?.bind StreamSegment.turn = k := by
  rw [byTurn, ((List.perm_insertionSort _ _).map _).mem_iff, mem_keys]
  simp

end Order

section Turns

variable {events : List StreamEvent}

theorem turn_snd (s : SessionStructure) (x : ℕ) :
    (s.turn x).2 = (s.turns.of.getD x none).map Turns.number := by
  unfold Derivation.turn
  cases s.turns.of.getD x none <;> rfl

theorem segment_turn {j x : ℕ} {segment : Segment}
    (hsegment : (derive events).segmentation.segments[j]? = some segment) (hx : x ∈ segment.exchanges) :
    ((derive events).segment segment).turn = ((derive events).turn x).2 := by
  have hmem := List.mem_of_getElem? hsegment
  obtain ⟨first, rest, hrest⟩ := List.exists_cons_of_ne_nil ((partition events).members segment hmem).1
  have hkey := (partition events).uniform segment hmem first (by simp [hrest]) x hx
  have hturn : (derive events).turns.of.getD first none = (derive events).turns.of.getD x none :=
    congrArg Prod.fst hkey
  have hfirst : ((derive events).segment segment).turn = ((derive events).turn first).2 := by
    simp [Derivation.segment, hrest]
  rw [hfirst, turn_snd, turn_snd, hturn]

variable (events) in
theorem turnIds_le : (derive events).turns.ids.length ≤ events.length := by
  have hshort := (Turns.assign_assigned (derive events).exchanges (derive events).bases).short
  rw [Turns.assign_length] at hshort
  exact hshort.trans (groupExchanges_length_le events)

theorem given_iff {turn : ℕ} : turn < (derive events).turns.ids.length ↔
    ∃ x < (derive events).exchanges.length, (derive events).turns.of.getD x none = some turn := by
  have hlength : (derive events).turns.of.length = (derive events).exchanges.length := Turns.assign_length _ _
  have hgiven : some turn ∈ (derive events).turns.of ↔ turn < (derive events).turns.ids.length :=
    (Turns.assign_assigned (derive events).exchanges (derive events).bases).given turn
  rw [← hgiven]
  constructor
  · intro hmem
    obtain ⟨x, hx⟩ := List.getElem?_of_mem hmem
    have hlt := (List.getElem?_eq_some_iff.mp hx).1
    exact ⟨x, hlength ▸ hlt, by rw [List.getD_eq_getElem?_getD, hx, Option.getD_some]⟩
  · rintro ⟨x, hx, hturn⟩
    rw [← hlength] at hx
    rw [List.getD_eq_getElem?_getD, List.getElem?_eq_getElem hx, Option.getD_some] at hturn
    exact hturn ▸ List.getElem_mem hx

variable (hfits : events.length ≤ i64Max)

include hfits

theorem number_eq {turn : ℕ} (h : turn < (derive events).turns.ids.length) :
    Turns.number turn = (turn : ℤ) + 1 := by
  have hle := turnIds_le events
  have hlt : turn + 1 ≤ i64Max := by omega
  rw [Turns.number, if_pos (by omega)]
  omega

theorem exchange_turn_iff (turn : ℤ) :
    (∃ x < (derive events).exchanges.length, ((derive events).turn x).2 = some turn) ↔
      ∃ index < (derive events).turns.ids.length, (index : ℤ) + 1 = turn := by
  constructor
  · rintro ⟨x, hx, hturn⟩
    rw [turn_snd, Option.map_eq_some_iff] at hturn
    obtain ⟨index, hindex, rfl⟩ := hturn
    have hlt := given_iff.mpr ⟨x, hx, hindex⟩
    exact ⟨index, hlt, (number_eq hfits hlt).symm⟩
  · rintro ⟨index, hlt, rfl⟩
    obtain ⟨x, hx, hindex⟩ := given_iff.mp hlt
    refine ⟨x, hx, ?_⟩
    rw [turn_snd, hindex, Option.map_some, number_eq hfits hlt]

/-- The nodes' turns are the numbers in order, after at most one node of no turn. -/
theorem byTurn_numbered : (derive events).byTurn.map Prod.fst = numbers (derive events).summary.turns ∨
    (derive events).byTurn.map Prod.fst = none :: numbers (derive events).summary.turns := by
  have hmem : ∀ turn : ℤ, some turn ∈ (derive events).byTurn.map Prod.fst ↔
      some turn ∈ numbers (derive events).summary.turns := by
    intro turn
    have hturns : (∃ j < (derive events).segments.length,
        (derive events).segments[j]?.bind StreamSegment.turn = some turn) ↔
        ∃ x < (derive events).exchanges.length, ((derive events).turn x).2 = some turn := by
      constructor
      · rintro ⟨j, -, hj⟩
        obtain ⟨described, hdescribed, hturn⟩ := Option.bind_eq_some_iff.mp hj
        obtain ⟨segment, hsegment, rfl⟩ := Option.map_eq_some_iff.mp (List.getElem?_map.symm.trans hdescribed)
        obtain ⟨hne, hlt⟩ := (partition events).members segment (List.mem_of_getElem? hsegment)
        obtain ⟨x, hx⟩ := List.exists_mem_of_ne_nil _ hne
        exact ⟨x, hlt x hx, (segment_turn hsegment hx).symm.trans hturn⟩
      · rintro ⟨x, hx, hturn⟩
        obtain ⟨j, segment, hsegment, hmem⟩ := exists_segment events hx
        have hdescribed : (derive events).segments[j]? = some ((derive events).segment segment) :=
          streams_getElem? hsegment
        refine ⟨j, (List.getElem?_eq_some_iff.mp hdescribed).1, ?_⟩
        rw [hdescribed, Option.bind_some, segment_turn hsegment hmem, hturn]
    rw [mem_byTurn, mem_numbers, hturns, exchange_turn_iff hfits turn]
    simp only [Option.some.injEq]
    rfl
  have hsorted := byTurn_sorted (derive events)
  have hnumbers := numbers_sorted (derive events).summary.turns
  have hantisymm : ∀ (xs ys : List (Option ℤ)) (x y : Option ℤ), x ∈ xs → y ∈ ys →
      turnLe x y = true → turnLe y x = true → x = y := fun _ _ _ _ _ _ => turnLe_antisymm
  by_cases hnone : none ∈ (derive events).byTurn.map Prod.fst
  · refine Or.inr (List.Perm.eq_of_pairwise (hantisymm _ _) hsorted ?_ ?_)
    · exact List.pairwise_cons.mpr ⟨fun _ _ => rfl, hnumbers⟩
    · have hnew : none ∉ numbers (derive events).summary.turns := by simp [mem_numbers]
      refine (List.perm_ext_iff_of_nodup (byTurn_nodup _)
        (List.nodup_cons.mpr ⟨hnew, numbers_nodup _⟩)).mpr fun k => ?_
      cases k with
      | none => simp [hnone]
      | some turn => simp [hmem turn]
  · refine Or.inl (List.Perm.eq_of_pairwise (hantisymm _ _) hsorted hnumbers ?_)
    apply (List.perm_ext_iff_of_nodup (byTurn_nodup _) (numbers_nodup _)).mpr
    intro k
    cases k with
    | none => simp only [hnone, mem_numbers]; simp
    | some turn => exact hmem turn

omit hfits in
theorem exists_holds {x : ℕ} (hx : x < (derive events).exchanges.length) :
    ∃ event ∈ events, (derive events).Holds x event := by
  obtain ⟨⟨key, members⟩, hgroup, hmem, -⟩ := exchange_group (List.getElem?_eq_getElem hx)
  obtain ⟨⟨event, place⟩, hevent⟩ := List.exists_mem_of_ne_nil _ (eventGroup_ne_nil hmem)
  exact ⟨event, List.mem_of_getElem? ((mem_eventGroup hmem).mp hevent).1, group_holds hgroup hevent⟩

variable (hpks : (events.map StreamEvent.pk).Nodup)

include hpks

omit hfits in
theorem position_turn {event : StreamEvent} {x : ℕ} (hx : (derive events).Holds x event) :
    ((derive events).eventPosition event.pk).bind EventLocation.turn = ((derive events).turn x).2 := by
  have hlt : x < (derive events).exchanges.length := by
    obtain ⟨exchange, hexchange, -⟩ := hx
    exact (List.getElem?_eq_some_iff.mp hexchange).1
  obtain ⟨j, segment, hsegment, hmem⟩ := exists_segment events hlt
  rw [eventPosition_eq hpks hx hsegment hmem, Option.bind_some]

theorem turnsOf_length : ((derive events).turnsOf (events.map StreamEvent.pk)).length =
    (derive events).summary.turns := by
  have hperm : ((derive events).turnsOf (events.map StreamEvent.pk)).Perm
      ((List.range (derive events).summary.turns).map fun turn : ℕ => (turn : ℤ) + 1) := by
    refine (List.perm_ext_iff_of_nodup (List.nodup_dedup _) (List.Nodup.map (fun x y h => ?_)
      List.nodup_range)).mpr fun turn => ?_
    · have hxy : (x : ℤ) + 1 = y + 1 := h
      omega
    · have hturns := exchange_turn_iff hfits turn
      have hevents : (∃ event ∈ events,
          ((derive events).eventPosition event.pk).bind EventLocation.turn = some turn) ↔
          ∃ x < (derive events).exchanges.length, ((derive events).turn x).2 = some turn := by
        constructor
        · rintro ⟨event, hevent, hturn⟩
          obtain ⟨x, hlt, hx⟩ := holds_exists hevent
          exact ⟨x, hlt, (position_turn hpks hx).symm.trans hturn⟩
        · rintro ⟨x, hlt, hturn⟩
          obtain ⟨event, hevent, hx⟩ := exists_holds hlt
          exact ⟨event, hevent, (position_turn hpks hx).trans hturn⟩
      simp only [List.mem_dedup, List.mem_filterMap, List.mem_map, exists_exists_and_eq_and, hevents,
        hturns, List.mem_range]
      rfl
  rw [hperm.length_eq, List.length_map, List.length_range]

omit hfits hpks in
theorem segments_exchanges : ((derive events).segmentation.segments.flatMap Segment.exchanges).Perm
    (List.range (derive events).exchanges.length) := by
  have hcut : (derive events).segmentation.segments =
      (lines (derive events).exchanges (derive events).bases (derive events).turns
        (derive events).exchanges.length).map
          (segmentAt (derive events).exchanges (derive events).bases (derive events).turns) :=
    congrArg Segmentation.segments cut_eq
  rw [hcut, List.flatMap_map]
  exact flatMap_perm _ _

omit hfits hpks in
theorem nodeCounts_sum : ((derive events).sessionTurns.map TurnNode.exchangeCount).sum =
    (derive events).exchanges.length := by
  have hnodes : (derive events).sessionTurns.map TurnNode.exchangeCount =
      (derive events).byTurn.map fun node => (derive events).exchangeCount node.2 := by
    rw [sessionTurns, List.map_map]
    rfl
  have hcounts : (derive events).exchangeCount (List.range (derive events).segments.length) =
      ((derive events).segmentation.segments.flatMap Segment.exchanges).length := by
    rw [exchangeCount, map_range_getElem?, List.length_flatMap]
    exact congrArg List.sum (List.map_map ..)
  rw [hnodes, ← exchangeCount_flatMap, exchangeCount_perm _ (byTurn_all _), hcounts,
    segments_exchanges.length_eq, List.length_range]

omit hpks in
theorem turn_inj {x y : ℕ} (hx : x < (derive events).exchanges.length)
    (hy : y < (derive events).exchanges.length)
    (h : ((derive events).turn x).2 = ((derive events).turn y).2) :
    (derive events).turns.of.getD x none = (derive events).turns.of.getD y none := by
  rw [turn_snd, turn_snd] at h
  cases hturnX : (derive events).turns.of.getD x none with
  | none =>
    rw [hturnX, Option.map_none, eq_comm, Option.map_eq_none_iff] at h
    exact h.symm
  | some turn =>
    cases hturnY : (derive events).turns.of.getD y none with
    | none =>
      rw [hturnX, hturnY] at h
      cases h
    | some turn' =>
      simp only [hturnX, hturnY, Option.map_some, Option.some.injEq] at h
      rw [number_eq hfits (given_iff.mpr ⟨x, hx, hturnX⟩), number_eq hfits (given_iff.mpr ⟨y, hy, hturnY⟩)] at h
      simp only [Option.some.injEq]
      omega

omit hfits hpks in
theorem segment_keys {j x : ℕ} {segment : Segment}
    (hsegment : (derive events).segmentation.segments[j]? = some segment) (hx : x ∈ segment.exchanges) :
    (derive events).segments[j]?.bind StreamSegment.turn = ((derive events).turn x).2 ∧
      (derive events).groupAt j =
        (Segmentation.key (derive events).exchanges (derive events).bases (derive events).turns x).2 ∧
      (derive events).sideAt j = segment.side := by
  have hdescribed : (derive events).segments[j]? = some ((derive events).segment segment) :=
    streams_getElem? hsegment
  refine ⟨?_, ?_, ?_⟩
  · rw [hdescribed, Option.bind_some, segment_turn hsegment hx]
  · rw [groupAt, hsegment, Option.map_some, Option.getD_some]
    exact (partition events).group segment (List.mem_of_getElem? hsegment) x hx
  · rw [sideAt, hsegment, Option.map_some, Option.getD_some]

omit hpks in
/-- Of the segments of one turn and group, one is the main line. -/
theorem main_line {turn : Option ℤ} {group : Group} {j : ℕ} (hj : j < (derive events).segments.length)
    (hturn : (derive events).segments[j]?.bind StreamSegment.turn = turn)
    (hgroup : (derive events).groupAt j = group) :
    ∃ main, ∀ y, (y < (derive events).segments.length ∧
      (derive events).segments[y]?.bind StreamSegment.turn = turn ∧ (derive events).groupAt y = group ∧
      (derive events).sideAt y = false) ↔ y = main := by
  have hlength : (derive events).segments.length = (derive events).segmentation.segments.length :=
    List.length_map ..
  have hsegments (y : ℕ) (hy : y < (derive events).segments.length) : ∃ segment x,
      (derive events).segmentation.segments[y]? = some segment ∧ x ∈ segment.exchanges ∧
        x < (derive events).exchanges.length := by
    have hsegment := List.getElem?_eq_getElem (hlength ▸ hy)
    obtain ⟨hne, hlt⟩ := (partition events).members _ (List.mem_of_getElem? hsegment)
    obtain ⟨x, hx⟩ := List.exists_mem_of_ne_nil _ hne
    exact ⟨_, x, hsegment, hx, hlt x hx⟩
  obtain ⟨segment, x, hsegment, hx, hlt⟩ := hsegments j hj
  obtain ⟨hturnX, hgroupX, -⟩ := segment_keys hsegment hx
  obtain ⟨main, ⟨mainSegment, hmain, hside, hkeys⟩, hunique⟩ := (partition events).main x hlt
  refine ⟨main, fun y => ⟨?_, ?_⟩⟩
  · rintro ⟨hy, hturnY, hgroupY, hsideY⟩
    obtain ⟨segmentY, -, hsegmentY, -⟩ := hsegments y hy
    refine hunique y ⟨segmentY, hsegmentY, ?_, fun m hm => ?_⟩
    · obtain ⟨z, hz⟩ := List.exists_mem_of_ne_nil _
        ((partition events).members _ (List.mem_of_getElem? hsegmentY)).1
      exact (segment_keys hsegmentY hz).2.2.symm.trans hsideY
    · obtain ⟨hturnM, hgroupM, -⟩ := segment_keys hsegmentY hm
      have hmLt := ((partition events).members _ (List.mem_of_getElem? hsegmentY)).2 m hm
      refine Prod.ext (turn_inj hfits hmLt hlt ?_) ?_
      · rw [← hturnM, ← hturnX, hturnY, hturn]
      · rw [← hgroupM, ← hgroupX, hgroupY, hgroup]
  · rintro rfl
    have hy : y < (derive events).segments.length := hlength ▸ (List.getElem?_eq_some_iff.mp hmain).1
    obtain ⟨z, hz⟩ := List.exists_mem_of_ne_nil _
      ((partition events).members _ (List.mem_of_getElem? hmain)).1
    obtain ⟨hturnZ, hgroupZ, hsideZ⟩ := segment_keys hmain hz
    have hkey := hkeys z hz
    refine ⟨hy, ?_, ?_, hsideZ.trans hside⟩
    · have hof : (derive events).turns.of.getD z none = (derive events).turns.of.getD x none :=
        congrArg Prod.fst hkey
      rw [hturnZ, turn_snd, hof, ← turn_snd, ← hturnX, hturn]
    · rw [hgroupZ, hkey, ← hgroupX, hgroup]

omit hpks in
theorem executor_main {node : Option ℤ × List ℕ} (hnode : node ∈ (derive events).byTurn)
    {executor : Executor} (hexecutor : executor ∈ (derive events).executors node.2) :
    executor.main.length = 1 := by
  obtain ⟨turn, members⟩ := node
  obtain ⟨hmembers, -⟩ := mem_groupBy.mp ((List.mem_insertionSort _).mp hnode)
  obtain ⟨group, inside, hgroup, hperm⟩ := mem_executors _ hexecutor
  obtain ⟨hinside, j, hj, hjGroup⟩ := mem_groupBy.mp hgroup
  have hmem (y : ℕ) : y ∈ members ↔ y < (derive events).segments.length ∧
      (derive events).segments[y]?.bind StreamSegment.turn = turn := by
    simp only [hmembers, List.mem_filter, List.mem_range, decide_eq_true_eq]
  have hnodup : (inside.filter fun segment => !(derive events).sideAt segment).Nodup := by
    rw [hinside, hmembers]
    exact ((List.nodup_range.filter _).filter _).filter _
  obtain ⟨hlt, hjTurn⟩ := (hmem j).mp hj
  obtain ⟨main, hmain⟩ := main_line hfits hlt hjTurn hjGroup
  have hsingle : (inside.filter fun segment => !(derive events).sideAt segment) = [main] := by
    apply (eq_singleton_iff hnodup).mpr
    intro y
    rw [← hmain y, hinside, List.mem_filter, List.mem_filter, hmem, decide_eq_true_eq, and_assoc, and_assoc,
      Bool.not_eq_true']
  rw [hperm.length_eq, hsingle, List.length_singleton]

end Turns

theorem views_agree (session : SessionEvents) : ViewsAgree (derive session.events) session.events where
  numbered := by
    have hnodes : (derive session.events).sessionTurns.map TurnNode.turn =
        (derive session.events).byTurn.map Prod.fst := by
      rw [sessionTurns, List.map_map]
      rfl
    rw [hnodes]
    exact byTurn_numbered session.fits
  reported := turnsOf_length session.fits session.pks
  counted := by
    intro sessionPk
    have hle : (derive session.events).summary.turns ≤ usizeMax :=
      (turnIds_le session.events).trans (session.fits.trans (by decide))
    have hlength := turnsOf_length session.fits session.pks
    simp [summaryTurns, hlength, min_eq_left hle]
  located := by
    intro event hevent
    obtain ⟨x, hlt, hx⟩ := holds_exists hevent
    obtain ⟨j, segment, hsegment, hmem⟩ := exists_segment session.events hlt
    exact ⟨_, x, j, segment, _, eventPosition_eq session.pks hx hsegment hmem, hx, hsegment, hmem,
      streams_getElem? hsegment, (segment_turn hsegment hmem).symm⟩
  placed := placed_perm _
  main := fun _ hnode _ hexecutor => executor_main session.fits hnode hexecutor
  executorCounts := by
    intro node hnode
    obtain ⟨⟨turn, members⟩, -, rfl⟩ := List.mem_map.mp hnode
    exact executorCounts_eq _ turn members
  nodeCounts := nodeCounts_sum

end SessionStructure

end AbyssBackend.Streams
