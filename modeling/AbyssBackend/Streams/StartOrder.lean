import AbyssBackend.Library.Preorder
import AbyssBackend.Streams.Executors

namespace AbyssBackend.Streams.Executor

open Preorder Relation

section Parents

variable (executors : List Executor)

def childrenOf (p : ℕ) : List ℕ := (List.range executors.length).filter fun child => parentOf executors child == some p

def Parent (x p : ℕ) : Prop := parentOf executors x = some p

def Descends (x p : ℕ) : Prop := TransGen (Parent executors) x p

/-- The chain of parents ends at a top-level executor. -/
def FromTop (x : ℕ) : Prop := ∃ top, parentOf executors top = none ∧ ReflTransGen (Parent executors) x top

end Parents

variable {executors : List Executor}

theorem parentOf_lt {x p : ℕ} (h : parentOf executors x = some p) : x < executors.length := by
  by_contra hge
  simp [parentOf, List.getElem?_eq_none (not_lt.mp hge)] at h

theorem parent_lt {x p : ℕ} (h : parentOf executors x = some p) : p < executors.length := by
  simp only [parentOf, Option.bind_eq_bind, Option.bind_eq_some_iff] at h
  obtain ⟨executor, -, parent, -, found, hfound, hp⟩ := h
  split at hp <;> cases hp
  exact (List.findIdx?_eq_some_iff_getElem.mp hfound).1

theorem mem_childrenOf {x p : ℕ} : x ∈ childrenOf executors p ↔ parentOf executors x = some p := by
  simp only [childrenOf, List.mem_filter, List.mem_range, beq_iff_eq, and_iff_right_iff_imp]
  exact parentOf_lt

theorem unplacedChildren_eq (placed : List ℕ) (next : ℕ) :
    unplacedChildren executors placed next = unplaced (childrenOf executors) placed next := by
  rw [unplacedChildren, unplaced, childrenOf, List.filter_filter]
  apply List.filter_congr
  intro child hchild
  have hparent : (parents executors).getD child none = parentOf executors child := by
    simp [parents, List.getD_eq_getElem?_getD, List.mem_range.mp hchild]
  rw [hparent, Bool.and_comm]
  simp

/-- What waits on the stack is not placed, and was pushed by a parent that is. -/
structure Fresh (executors : List Executor) (stack placed : List ℕ) : Prop where
  nodup : stack.Nodup
  unplaced : ∀ s ∈ stack, s ∉ placed
  led : ∀ s ∈ stack.tail, ∃ p ∈ placed, parentOf executors s = some p

theorem Fresh.place {next : ℕ} {stack placed : List ℕ} (h : Fresh executors (next :: stack) placed) :
    Fresh executors (unplacedChildren executors (placed ++ [next]) next ++ stack) (placed ++ [next]) := by
  obtain ⟨hnext, hstack⟩ := List.nodup_cons.mp h.nodup
  have hnew : next ∉ placed := h.unplaced next (by simp)
  have hchild : ∀ s ∈ unplacedChildren executors (placed ++ [next]) next,
      parentOf executors s = some next ∧ s ∉ placed ++ [next] := by
    intro s hs
    rw [unplacedChildren_eq, Preorder.unplaced, List.mem_filter] at hs
    exact ⟨mem_childrenOf.mp hs.1, by simpa using hs.2⟩
  have hled : ∀ s ∈ unplacedChildren executors (placed ++ [next]) next ++ stack,
      ∃ p ∈ placed ++ [next], parentOf executors s = some p := by
    intro s hs
    rcases List.mem_append.mp hs with hs | hs
    · exact ⟨next, by simp, (hchild s hs).1⟩
    · obtain ⟨p, hp, hparent⟩ := h.led s hs
      exact ⟨p, List.mem_append_left _ hp, hparent⟩
  refine ⟨List.nodup_append.mpr ⟨List.nodup_range.filter _, hstack, ?_⟩, fun s hs => ?_,
    fun s hs => hled s (List.mem_of_mem_tail hs)⟩
  · rintro s hs t ht rfl
    obtain ⟨p, hp, hparent⟩ := h.led s ht
    obtain rfl : next = p := Option.some.inj ((hchild s hs).1.symm.trans hparent)
    exact hnew hp
  · rcases List.mem_append.mp hs with hs | hs
    · exact (hchild s hs).2
    · have hunplaced := h.unplaced s (List.mem_cons_of_mem _ hs)
      simp only [List.mem_append, List.mem_singleton, not_or]
      exact ⟨hunplaced, fun heq => hnext (heq ▸ hs)⟩

theorem drain_forest {fuel : ℕ} {stack placed : List ℕ} (h : Ready executors stack placed)
    (hfresh : Fresh executors stack placed) (hfuel : stack.length + (waiting executors placed).length ≤ fuel) :
    ∃ result, (drain executors fuel (stack, placed)).2 = placed ++ result ∧
      Forest (childrenOf executors) placed stack result := by
  induction fuel generalizing stack placed with
  | zero =>
    obtain rfl : stack = [] := List.eq_nil_of_length_eq_zero (by omega)
    exact ⟨[], by simp [drain], .nil placed⟩
  | succ fuel ih =>
    cases stack with
    | nil => exact ⟨[], by simp [drain], .nil placed⟩
    | cons next stack =>
      have hnew : next ∉ placed := hfresh.unplaced next (by simp)
      have hnot : placed.contains next = false := by simpa using hnew
      have hwaiting := waiting_place executors hnew
      simp only [List.length_cons] at hfuel
      obtain ⟨result, hdrain, hforest⟩ := ih (h.place hnew) hfresh.place (by rw [List.length_append]; omega)
      obtain ⟨below, after, rfl, hbelow, hafter⟩ := hforest.split
      rw [unplacedChildren_eq] at hbelow
      refine ⟨next :: (below ++ after), ?_, .cons hnew hbelow (by simpa using hafter)⟩
      simp only [drain, hnot, Bool.false_eq_true, if_false, hdrain]
      simp

theorem enter_forest {topOnly : Bool} {index : ℕ} {placed : List ℕ} (hindex : index < executors.length)
    (hnodup : placed.Nodup) (hplaced : ∀ x ∈ placed, x < executors.length) (hnew : index ∉ placed)
    (htop : topOnly = true → parentOf executors index = none) :
    ∃ result, enter executors topOnly placed index = placed ++ result ∧
      Forest (childrenOf executors) placed [index] result := by
  have hready : Ready executors [index] placed := ⟨by simpa using hindex, hnodup, hplaced⟩
  have hfresh : Fresh executors [index] placed := ⟨List.nodup_singleton _, by simpa using hnew, by simp⟩
  have hwaiting : (waiting executors placed).length ≤ executors.length :=
    (List.length_filter_le _ _).trans (by simp)
  have hparent : (parents executors).getD index none = parentOf executors index := by
    simp [parents, List.getD_eq_getElem?_getD, hindex]
  have henter : enter executors topOnly placed index =
      (drain executors (executors.length + 1) ([index], placed)).2 := by
    rw [enter, if_neg]
    rw [hparent]
    cases topOnly with
    | false => simpa using hnew
    | true => simpa [htop rfl] using hnew
  rw [henter]
  exact drain_forest hready hfresh (by simp only [List.length_singleton]; omega)

/-- How an executor comes to stand after those in front of it: its parent is among them, or it was
entered at the top level, or, above a cycle, before all of its ancestors. -/
inductive Stands (executors : List Executor) (front : List ℕ) (x : ℕ) : Prop
  | led (p : ℕ) (hp : p ∈ front) (hparent : parentOf executors x = some p)
  | top (hparent : parentOf executors x = none) (hbefore : ∀ j < x, parentOf executors j = none → j ∈ front)
  | entered (hparent : parentOf executors x ≠ none) (htop : ¬ FromTop executors x) (hbefore : ∀ j < x, j ∈ front)
    (hancestors : ∀ y ∈ front, ¬ Descends executors x y)

structure Grown (executors : List Executor) (order : List ℕ) : Prop where
  nodup : order.Nodup
  lt : ∀ x ∈ order, x < executors.length
  closed : ∀ p ∈ order, ∀ x, parentOf executors x = some p → x ∈ order
  stands : ∀ front x back, order = front ++ x :: back → Stands executors front x
  block : ∀ p ∈ order, ∃ front block back, order = front ++ p :: (block ++ back) ∧
    Forest (childrenOf executors) (front ++ [p]) (unplaced (childrenOf executors) (front ++ [p]) p) block

theorem grown_nil : Grown executors [] where
  nodup := List.nodup_nil
  lt := by simp
  closed := by simp
  stands := by simp
  block := by simp

theorem Grown.descends {order : List ℕ} (h : Grown executors order) {x p : ℕ}
    (hpath : ReflTransGen (Parent executors) x p) (hp : p ∈ order) : x ∈ order := by
  induction hpath using ReflTransGen.head_induction_on with
  | refl => exact hp
  | head hparent _ ih => exact h.closed _ ih _ hparent

theorem Grown.enter {topOnly : Bool} {order : List ℕ} {index : ℕ} (h : Grown executors order)
    (hindex : index < executors.length) (hnew : index ∉ order)
    (htop : topOnly = true → parentOf executors index = none) (hstands : Stands executors order index) :
    Grown executors (enter executors topOnly order index) ∧ index ∈ enter executors topOnly order index := by
  have hdrained := enter_drained topOnly hindex h.nodup h.lt
  obtain ⟨result, henter, hforest⟩ := enter_forest hindex h.nodup h.lt hnew htop
  rw [henter] at hdrained ⊢
  refine ⟨⟨hdrained.nodup, hdrained.placed, fun p hp x hparent => ?_, fun front x back hsplit => ?_, fun p hp => ?_⟩,
    List.mem_append_right _ (hforest.sublist.subset (by simp))⟩
  · rcases List.mem_append.mp hp with hp | hp
    · exact List.mem_append_left _ (h.closed p hp x hparent)
    · exact hforest.closed p hp x (mem_childrenOf.mpr hparent)
  · rcases List.append_eq_append_iff.mp hsplit with ⟨between, rfl, hresult⟩ | ⟨between, hbetween, hback⟩
    · rcases hforest.led between x back hresult with hstack | ⟨p, hp, hchild⟩
      · obtain rfl : x = index := List.mem_singleton.mp hstack
        have hfirst : between = [] := by
          cases hforest with
          | cons new inner rest =>
            cases between with
            | nil => rfl
            | cons y between =>
              obtain ⟨rfl, htail⟩ := List.cons.inj (List.cons_append ▸ hresult)
              have hnodup := (List.nodup_append.mp hdrained.nodup).2.1
              rw [htail] at hnodup
              simp at hnodup
        rw [hfirst, List.append_nil]
        exact hstands
      · exact .led p (List.mem_append_right _ hp) (mem_childrenOf.mp hchild)
    · cases between with
      | nil =>
        rw [List.append_nil] at hbetween
        cases hforest with
        | cons new inner rest =>
          obtain ⟨rfl, -⟩ := List.cons.inj hback
          exact hbetween ▸ hstands
      | cons y between =>
        obtain ⟨rfl, -⟩ := List.cons.inj hback
        exact h.stands front x between hbetween
  · rcases List.mem_append.mp hp with hp | hp
    · obtain ⟨front, block, back, hsplit, hblock⟩ := h.block p hp
      exact ⟨front, block, back ++ result, by rw [hsplit]; simp, hblock⟩
    · obtain ⟨front, block, back, hsplit, hblock⟩ := hforest.block p hp
      exact ⟨order ++ front, block, back, by rw [hsplit]; simp, hblock⟩

theorem enter_skip {topOnly : Bool} {order : List ℕ} {index : ℕ} (hindex : index < executors.length)
    (h : index ∈ order ∨ topOnly = true ∧ parentOf executors index ≠ none) :
    enter executors topOnly order index = order := by
  have hparent : (parents executors).getD index none = parentOf executors index := by
    simp [parents, List.getD_eq_getElem?_getD, hindex]
  rw [enter, if_pos]
  rw [hparent]
  rcases h with h | ⟨rfl, h⟩
  · simp [h]
  · simp [Option.isSome_iff_ne_none.mpr h]

variable (executors) in
theorem topPass_grown {count : ℕ} (hcount : count ≤ executors.length) :
    Grown executors ((List.range count).foldl (enter executors true) []) ∧
      ∀ j < count, parentOf executors j = none → j ∈ (List.range count).foldl (enter executors true) [] := by
  induction count with
  | zero => exact ⟨grown_nil, fun j hj => absurd hj (Nat.not_lt_zero j)⟩
  | succ count ih =>
    obtain ⟨hgrown, htop⟩ := ih (by omega)
    have hlt : count < executors.length := by omega
    rw [List.range_succ, List.foldl_concat]
    generalize (List.range count).foldl (enter executors true) [] = order at hgrown htop
    by_cases hmem : count ∈ order
    · rw [enter_skip hlt (Or.inl hmem)]
      refine ⟨hgrown, fun j hj hnone => ?_⟩
      rcases Nat.lt_succ_iff_lt_or_eq.mp hj with hj | rfl
      · exact htop j hj hnone
      · exact hmem
    by_cases hparent : parentOf executors count = none
    · obtain ⟨hgrown', hcount'⟩ := hgrown.enter hlt hmem (fun _ => hparent) (.top hparent htop)
      refine ⟨hgrown', fun j hj hnone => ?_⟩
      rcases Nat.lt_succ_iff_lt_or_eq.mp hj with hj | rfl
      · exact (enter_drained true hlt hgrown.nodup hgrown.lt).grows.subset (htop j hj hnone)
      · exact hcount'
    · rw [enter_skip hlt (Or.inr ⟨rfl, hparent⟩)]
      refine ⟨hgrown, fun j hj hnone => ?_⟩
      rcases Nat.lt_succ_iff_lt_or_eq.mp hj with hj | rfl
      · exact htop j hj hnone
      · exact absurd hnone hparent

theorem restPass_grown {order : List ℕ} (hgrown : Grown executors order)
    (htop : ∀ j, j < executors.length → parentOf executors j = none → j ∈ order) {count : ℕ}
    (hcount : count ≤ executors.length) :
    Grown executors ((List.range count).foldl (enter executors false) order) ∧
      ∀ j ∈ order, j ∈ (List.range count).foldl (enter executors false) order := by
  induction count with
  | zero => exact ⟨hgrown, fun j hj => hj⟩
  | succ count ih =>
    obtain ⟨hgrown', hkept⟩ := ih (by omega)
    have hplaced : ∀ j < count, j ∈ (List.range count).foldl (enter executors false) order :=
      fun j hj => pass_places hgrown.nodup hgrown.lt (by omega) hj
    have hlt : count < executors.length := by omega
    rw [List.range_succ, List.foldl_concat]
    generalize (List.range count).foldl (enter executors false) order = order' at hgrown' hkept hplaced
    by_cases hmem : count ∈ order'
    · rw [enter_skip hlt (Or.inl hmem)]
      exact ⟨hgrown', hkept⟩
    have hparent : parentOf executors count ≠ none := fun hnone => hmem (hkept count (htop count hlt hnone))
    have hnotTop : ¬ FromTop executors count := by
      rintro ⟨top, hnone, hpath⟩
      rcases ReflTransGen.cases_tail hpath with rfl | ⟨last, -, hlast⟩
      · exact hparent hnone
      · exact hmem (hgrown'.descends hpath (hkept top (htop top (parent_lt hlast) hnone)))
    have hancestors : ∀ y ∈ order', ¬ Descends executors count y := fun y hy hpath =>
      hmem (hgrown'.descends hpath.to_reflTransGen hy)
    have hanyway : false = true → parentOf executors count = none := fun h => absurd h Bool.false_ne_true
    obtain ⟨hgrown'', -⟩ := hgrown'.enter hlt hmem hanyway (.entered hparent hnotTop hplaced hancestors)
    exact ⟨hgrown'', fun j hj => (enter_drained false hlt hgrown'.nodup hgrown'.lt).grows.subset (hkept j hj)⟩

theorem startOrder_grown (executors : List Executor) : Grown executors (startOrder executors) := by
  obtain ⟨hgrown, htop⟩ := topPass_grown executors le_rfl
  exact (restPass_grown hgrown htop le_rfl).1

end AbyssBackend.Streams.Executor
