import AbyssBackend.Library.Positions
import AbyssBackend.Streams.StartOrder
import Mathlib.Data.List.Sort

namespace AbyssBackend.Streams.Executor

open Positions Preorder Relation

/-- Following the declarations leads back to the executor. -/
def OnCycle (started : ℕ → ℕ → Prop) (x : ℕ) : Prop := TransGen started x x

/-- The order of the tree of who started whom: an executor is followed by those it started, in one
block with those that these started, and siblings keep their places. -/
structure IsStartTree (started : ℕ → ℕ → Prop) (count : ℕ) (order : List ℕ) : Prop where
  perm : order.Perm (List.range count)
  block : ∀ p < count, ∃ front block back, order = front ++ p :: (block ++ back) ∧
    (∀ x ∈ block, TransGen started x p) ∧
    ∀ x, TransGen (fun x y => started x y ∧ ¬ OnCycle started x) x p → x ∈ block
  siblings : ∀ p x y, x < y → started x p → started y p → [x, y].Sublist order
  top : ∀ x y, x < y → y < count → (∀ p, ¬ started x p) → (∀ p, ¬ started y p) → [x, y].Sublist order

/-- An executor that a cycle started through others comes after some executor it descends from. -/
def CyclesFirst (started : ℕ → ℕ → Prop) : Prop :=
  ∀ x, ¬ OnCycle started x → (∃ p, started x p) →
    (∃ top, (∀ p, ¬ started top p) ∧ ReflTransGen started x top) ∨ ∃ i < x, TransGen started x i

/-- The whole of what descends from an executor off every cycle is in its block. -/
theorem IsStartTree.whole_block {started : ℕ → ℕ → Prop} {count : ℕ} {order : List ℕ}
    (hfunction : ∀ x p q, started x p → started x q → p = q) (h : IsStartTree started count order) {p : ℕ}
    (hp : p < count)
    (hcycle : ¬ OnCycle started p) : ∃ front block back, order = front ++ p :: (block ++ back) ∧
      ∀ x, x ∈ block ↔ TransGen started x p := by
  have hnext : ∀ x y, started x y → OnCycle started x → OnCycle started y := by
    intro x y hxy hx
    obtain ⟨z, hxz, hzx⟩ := TransGen.head'_iff.mp hx
    obtain rfl := hfunction x z y hxz hxy
    exact TransGen.tail' hzx hxy
  obtain ⟨front, block, back, hsplit, hblock, hall⟩ := h.block p hp
  refine ⟨front, block, back, hsplit, fun x => ⟨hblock x, fun hpath => hall x ?_⟩⟩
  have hoff : ∀ y, TransGen started y p → ¬ OnCycle started y := by
    intro y hyp hy
    induction hyp using TransGen.head_induction_on with
    | single hlast => exact hcycle (hnext _ _ hlast hy)
    | head hfirst _ ih => exact ih (hnext _ _ hfirst hy)
  induction hpath using TransGen.head_induction_on with
  | single hlast => exact .single ⟨hlast, hoff _ (.single hlast)⟩
  | head hfirst hrest ih => exact .head ⟨hfirst, hoff _ (.head hfirst hrest)⟩ ih

variable {executors : List Executor}

theorem parent_before {order : List ℕ} (h : Grown executors order) (hcycles : CyclesFirst (Parent executors))
    {front back : List ℕ} {x p : ℕ} (hsplit : order = front ++ x :: back) (hparent : Parent executors x p)
    (hoff : ¬ OnCycle (Parent executors) x) : p ∈ front := by
  rcases h.stands front x back hsplit with ⟨q, hq, hparent'⟩ | ⟨hnone, -⟩ | ⟨-, htop, hbefore, hancestors⟩
  · obtain rfl : q = p := Option.some.inj (hparent'.symm.trans hparent)
    exact hq
  · exact absurd (hparent.symm.trans hnone) (Option.some_ne_none p)
  · rcases hcycles x hoff ⟨p, hparent⟩ with ⟨top, hnone, hpath⟩ | ⟨i, hi, hpath⟩
    · exact absurd ⟨top, Option.eq_none_iff_forall_ne_some.mpr hnone, hpath⟩ htop
    · exact absurd hpath (hancestors i (hbefore i hi))

theorem startOrder_lt {x : ℕ} : x ∈ startOrder executors ↔ x < executors.length := by
  rw [(startOrder_perm executors).mem_iff, List.mem_range]

theorem parent_ne {x p : ℕ} (h : Parent executors x p) : x ≠ p := by
  rintro rfl
  simp only [Parent, parentOf, Option.bind_eq_bind, Option.bind_eq_some_iff] at h
  obtain ⟨executor, -, parent, -, found, -, hp⟩ := h
  split at hp
  · cases hp
  · next hne => exact hne (Option.some.inj hp)

theorem startOrder_block (hcycles : CyclesFirst (Parent executors)) {p : ℕ} (hp : p < executors.length) :
    ∃ front block back, startOrder executors = front ++ p :: (block ++ back) ∧
      (∀ x ∈ block, TransGen (Parent executors) x p) ∧
      ∀ x, TransGen (fun x y => Parent executors x y ∧ ¬ OnCycle (Parent executors) x) x p → x ∈ block := by
  have hgrown := startOrder_grown executors
  obtain ⟨front, block, back, hsplit, hforest⟩ := hgrown.block p (startOrder_lt.mpr hp)
  have hnodup := hgrown.nodup
  rw [hsplit] at hnodup
  refine ⟨front, block, back, hsplit, fun x hx => ?_, fun x hx => ?_⟩
  · obtain ⟨s, hs, hpath⟩ := hforest.descends x hx
    have hle : (fun x p => x ∈ childrenOf executors p) ≤ Parent executors := fun _ _ => mem_childrenOf.mp
    exact TransGen.tail' (ReflTransGen.mono hle x s hpath) (mem_childrenOf.mp (List.mem_of_mem_filter hs))
  · -- a child of the executor or of its block is not in front of it, where its parent would be
    have hinner : ∀ x y, Parent executors x y → ¬ OnCycle (Parent executors) x → x ≠ p → y ∈ p :: block →
        x ∉ front ++ [p] := by
      intro x y hparent hoff hne hy hfront
      have hfront : x ∈ front := by simpa [hne] using hfront
      obtain ⟨before, between, rfl⟩ := List.append_of_mem hfront
      have hsplit' : startOrder executors = before ++ x :: (between ++ p :: (block ++ back)) := by
        rw [hsplit]
        simp
      have hbefore := parent_before hgrown hcycles hsplit' hparent hoff
      have hdisjoint := (List.nodup_append.mp hnodup).2.2 y (by simp [hbefore]) y (by
        rcases List.mem_cons.mp hy with rfl | hy
        · simp
        · simp [hy])
      exact hdisjoint rfl
    have hne : ∀ x, TransGen (fun x y => Parent executors x y ∧ ¬ OnCycle (Parent executors) x) x p → x ≠ p := by
      rintro x hpath rfl
      obtain ⟨y, ⟨-, hoff⟩, -⟩ := TransGen.head'_iff.mp hpath
      have hle : (fun x y => Parent executors x y ∧ ¬ OnCycle (Parent executors) x) ≤ Parent executors :=
        fun _ _ => And.left
      exact hoff (TransGen.mono hle x x hpath)
    induction hx using TransGen.head_induction_on with
    | @single x hx =>
      have hout := hinner x p hx.1 hx.2 (hne x (.single hx)) (by simp)
      exact hforest.sublist.subset (List.mem_filter.mpr ⟨mem_childrenOf.mpr hx.1, decide_eq_true hout⟩)
    | @head x y hx hpath ih =>
      have hout := hinner x y hx.1 hx.2 (hne x (.head hx hpath)) (by simp [ih])
      exact (List.mem_append.mp (hforest.closed y ih x (mem_childrenOf.mpr hx.1))).resolve_left hout

theorem startOrder_siblings {p x y : ℕ} (hlt : x < y) (hx : Parent executors x p) (hy : Parent executors y p) :
    [x, y].Sublist (startOrder executors) := by
  have hgrown := startOrder_grown executors
  obtain ⟨before, after, hy'⟩ := List.append_of_mem (startOrder_lt.mpr (parentOf_lt hy))
  rcases hgrown.stands before y after hy' with ⟨q, hq, hparent⟩ | ⟨hnone, -⟩ | ⟨-, -, hbefore, -⟩
  · obtain rfl : q = p := Option.some.inj (hparent.symm.trans hy)
    obtain ⟨front, block, back, hsplit, hforest⟩ := hgrown.block q (startOrder_lt.mpr (parent_lt hy))
    have hafter : y ∈ block ++ back := mem_after hgrown.nodup hy' hq hsplit
    have hchild : ∀ z, Parent executors z q → z ∉ front →
        z ∈ unplaced (childrenOf executors) (front ++ [q]) q := by
      intro z hz hfront
      exact List.mem_filter.mpr ⟨mem_childrenOf.mpr hz, by simp [hfront, parent_ne hz]⟩
    have hfront : y ∉ front := by
      intro hmem
      have hnodup := hgrown.nodup
      rw [hsplit] at hnodup
      exact (List.nodup_append.mp hnodup).2.2 y hmem y (List.mem_cons_of_mem _ hafter) rfl
    by_cases hfrontx : x ∈ front
    · obtain ⟨first, second, hback⟩ := List.append_of_mem hafter
      have hmem : x ∈ front ++ q :: first := List.mem_append_left _ hfrontx
      have hsublist := pair_sublist hmem y second
      rw [hsplit, hback]
      simpa using hsublist
    · -- both were pushed together, the earlier one on top
      have hpair : [x, y].Sublist (unplaced (childrenOf executors) (front ++ [q]) q) := by
        have hascending : (unplaced (childrenOf executors) (front ++ [q]) q).Pairwise (· < ·) :=
          ((List.sortedLT_range _).pairwise.filter _).filter _
        have hsub : [x, y] ⊆ unplaced (childrenOf executors) (front ++ [q]) q := by
          simp [hchild x hx hfrontx, hchild y hy hfront]
        have hnodup : [x, y].Nodup := by simpa using hlt.ne
        exact List.sublist_of_subperm_of_pairwise (hnodup.subperm hsub) (by simpa using hlt) hascending
      rw [hsplit]
      exact (hpair.trans hforest.sublist).trans
        (((List.sublist_append_left block back).trans (List.sublist_cons_self q _)).trans
          (List.sublist_append_right front _))
  · exact absurd (hy.symm.trans hnone) (Option.some_ne_none p)
  · rw [hy']
    exact pair_sublist (hbefore x hlt) y after

theorem startOrder_top {x y : ℕ} (hlt : x < y) (hy : y < executors.length) (hx : parentOf executors x = none)
    (hnone : parentOf executors y = none) : [x, y].Sublist (startOrder executors) := by
  obtain ⟨before, after, hsplit⟩ := List.append_of_mem (startOrder_lt.mpr hy)
  have hmem : x ∈ before := by
    rcases (startOrder_grown executors).stands before y after hsplit with ⟨p, -, hparent⟩ | ⟨-, hbefore⟩ | ⟨hparent, -⟩
    · exact absurd (hparent.symm.trans hnone) (Option.some_ne_none p)
    · exact hbefore x hlt hx
    · exact absurd hnone hparent
  rw [hsplit]
  exact pair_sublist hmem y after

theorem parent_none {x : ℕ} : parentOf executors x = none ↔ ∀ p, ¬ Parent executors x p :=
  Option.eq_none_iff_forall_ne_some

theorem startOrder_tree (hcycles : CyclesFirst (Parent executors)) :
    IsStartTree (Parent executors) executors.length (startOrder executors) where
  perm := startOrder_perm executors
  block _ hp := startOrder_block hcycles hp
  siblings _ _ _ := startOrder_siblings
  top _ _ hlt hy hx hnone := startOrder_top hlt hy (parent_none.mpr hx) (parent_none.mpr hnone)

theorem cyclesFirst_of_tree (h : IsStartTree (Parent executors) executors.length (startOrder executors)) :
    CyclesFirst (Parent executors) := by
  rintro x hoff ⟨p, hparent⟩
  by_contra hnot
  simp only [not_or, not_exists, not_and] at hnot
  obtain ⟨hnotTop, hlater⟩ := hnot
  have hgrown := startOrder_grown executors
  -- the first of the chain of parents in the order was entered, so it is the executor itself
  obtain ⟨front, e, back, hsplit, hpath, hfirst⟩ :=
    exists_first (p := ReflTransGen (Parent executors) x) ⟨x, startOrder_lt.mpr (parentOf_lt hparent), .refl⟩
  rcases hgrown.stands front e back hsplit with ⟨q, hq, hled⟩ | ⟨hnone, -⟩ | ⟨-, -, hbefore, -⟩
  · exact hfirst q hq (hpath.tail hled)
  · exact hnotTop e (parent_none.mp hnone) hpath
  have hentered : e = x := by
    by_contra hne
    have hle : ¬ e < x := fun hlt => hlater e hlt ((reflTransGen_iff_eq_or_transGen.mp hpath).resolve_left hne)
    exact hfirst x (hbefore x (by omega)) .refl
  subst hentered
  obtain ⟨front', block, back', hsplit', -, hall⟩ := h.block p (parent_lt hparent)
  obtain ⟨first, second, hblock⟩ := List.append_of_mem (hall e (.single ⟨hparent, hoff⟩))
  have hnodup := hgrown.nodup
  have heq : front ++ e :: back = (front' ++ p :: first) ++ e :: (second ++ back') := by
    rw [← hsplit, hsplit', hblock]
    simp
  rw [hsplit] at hnodup
  obtain ⟨-, hback, hdisjoint⟩ := List.nodup_append.mp hnodup
  have hfront : e ∉ front := fun hmem => hdisjoint e hmem e (by simp) rfl
  obtain ⟨hfronts, -⟩ := (List.append_cons_inj_of_notMem hfront (List.nodup_cons.mp hback).1).mp heq
  exact hfirst p (by simp [hfronts]) (.single hparent)

section Declarations

variable (executors : List Executor)

/-- One executor declares the sub-agent that another one is as its parent. -/
def StartedBy (x p : ℕ) : Prop :=
  x ≠ p ∧ ∃ child parent id, executors[x]? = some child ∧ executors[p]? = some parent ∧
    child.parentSubagentId = some id ∧ parent.subagentId = some id

end Declarations

theorem found_of_distinct (hids : (executors.filterMap Executor.subagentId).Nodup) {p : ℕ} {parent : Executor}
    {id : String} (hp : executors[p]? = some parent) (hid : parent.subagentId = some id) :
    (executors.findIdx? fun executor => executor.subagentId == some id) = some p := by
  obtain ⟨hlt, rfl⟩ := List.getElem?_eq_some_iff.mp hp
  refine List.findIdx?_eq_some_iff_getElem.mpr ⟨hlt, by simp [hid], fun j hj => ?_⟩
  have hdistinct := List.pairwise_iff_getElem.mp (List.pairwise_filterMap.mp hids) j p (by omega) hlt hj
  simp only [Bool.not_eq_true, beq_eq_false_iff_ne, ne_eq]
  exact fun hsame => hdistinct id hsame id hid rfl

theorem parent_iff_startedBy (hids : (executors.filterMap Executor.subagentId).Nodup) (x p : ℕ) :
    Parent executors x p ↔ StartedBy executors x p := by
  constructor
  · intro h
    have hne := parent_ne h
    simp only [Parent, parentOf, Option.bind_eq_bind, Option.bind_eq_some_iff] at h
    obtain ⟨child, hchild, id, hid, found, hfound, hp⟩ := h
    split at hp <;> cases hp
    obtain ⟨hlt, hparent, -⟩ := List.findIdx?_eq_some_iff_getElem.mp hfound
    exact ⟨hne, child, executors[p], id, hchild, List.getElem?_eq_getElem hlt, hid, by simpa using hparent⟩
  · rintro ⟨hne, child, parent, id, hchild, hparent, hid, hsame⟩
    have hfound := found_of_distinct hids hparent hsame
    simp [Parent, parentOf, hchild, hid, hfound, Ne.symm hne]

/-- The executors come out as the tree of who started whom when no executor that hangs off a cycle
comes before all of its ancestors, and then only. -/
theorem startedFirst_tree_iff (executors : List Executor) (hids : (executors.filterMap Executor.subagentId).Nodup) :
    (∀ index < executors.length, ∀ placed : List ℕ, placed.Nodup → (∀ i ∈ placed, i < executors.length) →
      (drain executors (executors.length + 1) ([index], placed)).1 = []) ∧
    (startedFirst executors).Perm executors ∧
    (IsStartTree (StartedBy executors) executors.length (startOrder executors) ↔ CyclesFirst (StartedBy executors)) := by
  refine ⟨fun index hindex placed hnodup hplaced => enter_stack ⟨by simpa using hindex, hnodup, hplaced⟩,
    startedFirst_perm executors, ?_⟩
  have hsame : StartedBy executors = Parent executors := by
    funext x p
    exact propext (parent_iff_startedBy hids x p).symm
  rw [hsame]
  exact ⟨cyclesFirst_of_tree, startOrder_tree⟩

def named (id parent : Option String) : Executor := ⟨id, parent, [], []⟩

/-- A main line and a sub-agent that started another one, listed after it. -/
theorem startedFirst_tree_mainLine :
    let executors := [named none none, named (some "b") (some "a"), named (some "a") none]
    (executors.filterMap Executor.subagentId).Nodup ∧
    (∀ index < executors.length, ∀ placed : List ℕ, placed.Nodup → (∀ i ∈ placed, i < executors.length) →
      (drain executors (executors.length + 1) ([index], placed)).1 = []) ∧
    (startedFirst executors).Perm executors ∧
    (IsStartTree (StartedBy executors) executors.length (startOrder executors) ↔ CyclesFirst (StartedBy executors)) :=
  have hids : ([named none none, named (some "b") (some "a"), named (some "a") none].filterMap
      Executor.subagentId).Nodup := by decide
  ⟨hids, startedFirst_tree_iff _ hids⟩

/-- Two sub-agents that declare each other, listed after one that the first of them started. -/
theorem childOfCycle_first :
    let executors := [named (some "c") (some "p"), named (some "p") (some "q"), named (some "q") (some "p")]
    (executors.filterMap Executor.subagentId).Nodup ∧ StartedBy executors 0 1 ∧
      ¬ OnCycle (StartedBy executors) 0 ∧ startOrder executors = [0, 1, 2] ∧
      ¬ IsStartTree (StartedBy executors) executors.length (startOrder executors) := by
  intro executors
  have hids : (executors.filterMap Executor.subagentId).Nodup := by decide
  have hparent : ∀ x p, Parent executors x p ↔ StartedBy executors x p := parent_iff_startedBy hids
  have hoff : ¬ OnCycle (StartedBy executors) 0 := by
    intro hcycle
    obtain ⟨x, -, hlast⟩ := TransGen.tail'_iff.mp hcycle
    have hchild : x ∈ childrenOf executors 0 := mem_childrenOf.mpr ((hparent x 0).mpr hlast)
    have hnone : childrenOf executors 0 = [] := by decide
    simp [hnone] at hchild
  have horder : startOrder executors = [0, 1, 2] := by decide
  have hstarted : StartedBy executors 0 1 := (hparent 0 1).mp (by decide : parentOf executors 0 = some 1)
  refine ⟨hids, hstarted, hoff, horder, fun htree => ?_⟩
  obtain ⟨front, block, back, hsplit, -, hall⟩ := htree.block 1 (by decide)
  have hmem : 0 ∈ block := hall 0 (.single ⟨hstarted, hoff⟩)
  have hnodup : (startOrder executors).Nodup := by rw [horder]; decide
  have hfront : 0 ∈ front := by
    rw [horder] at hsplit
    cases front with
    | nil => cases hsplit
    | cons x front =>
      obtain ⟨rfl, -⟩ := List.cons.inj (List.cons_append ▸ hsplit)
      simp
  rw [hsplit] at hnodup
  exact (List.nodup_append.mp hnodup).2.2 0 hfront 0 (by simp [hmem]) rfl

end AbyssBackend.Streams.Executor
