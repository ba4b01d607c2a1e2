import AbyssBackend.Streams.Fixtures
import AbyssBackend.Streams.Partition
import Mathlib.Logic.Function.Iterate

namespace AbyssBackend.Streams

open Groups Segmentation Tallies

namespace SessionStructure

theorem partition (events : List StreamEvent) :
    IsPartition (derive events).exchanges (derive events).bases (derive events).turns
      (derive events).segmentation :=
  cut_partition _ _ _

def sharers (s : SessionStructure) (base : ℕ) : List ℕ :=
  (List.range s.exchanges.length).filter fun i => i ≠ base ∧ s.base i = some base

def parentAt (s : SessionStructure) (segment : ℕ) : Option ℕ :=
  s.segmentation.segments[segment]?.bind Segment.parent

/-- What is derived of one segment, whose first exchange is `first`. -/
structure Describes (s : SessionStructure) (index : ℕ) (segment : Segment) (first : ℕ)
    (described : StreamSegment) : Prop where
  parent : ∀ p, segment.parent = some p → p < index ∧ ∃ base holder, s.base first = some base ∧
    s.segmentation.segments[p]? = some holder ∧ base ∈ holder.exchanges ∧
    described.parent = holder.exchanges.head?.map s.id ∧ described.forkedFrom = some (s.id base)
  orphan : segment.parent = none → described.parent = none ∧ described.forkedFrom = none
  kind : described.kind = segment.kind
  root : segment.kind = .root ↔ segment.parent = none
  branch : segment.kind = .branch ↔
    segment.parent ≠ none ∧ ∃ base, s.base first = some base ∧ (s.sharers base).length > 1
  turn : segment.kind = .turn ↔
    segment.parent ≠ none ∧ ¬ ∃ base, s.base first = some base ∧ (s.sharers base).length > 1

structure IsForest (s : SessionStructure) : Prop where
  described : ∀ index segment, s.segmentation.segments[index]? = some segment →
    ∃ first described, segment.exchanges.head? = some first ∧ s.segments[index]? = some described ∧
      Describes s index segment first described
  ends : ∀ index, (fun segment => segment.bind s.parentAt)^[index + 1] (some index) = none

end SessionStructure

section Cut

variable {exchanges : List Exchange} {bases : List Base} {turns : Turns}

theorem earlier_eq_some {index base : ℕ} :
    earlier bases index = some base ↔ Segmentation.base bases index = some base ∧ base < index := by
  simp [earlier, Option.filter_eq_some_iff]

theorem base_ne_self (bases : List Base) (index : ℕ) : Segmentation.base bases index ≠ some index := by
  unfold Segmentation.base
  rcases bases[index]? with _ | (reason | ⟨found, rule⟩)
  · simp
  · simp
  · by_cases hf : found = index <;> simp [hf]

theorem children_getD {count base : ℕ} (h : base < count) :
    (children bases count).getD base 0 =
      ((List.range count).filter fun i => Segmentation.base bases i = some base).length := by
  rw [children, List.getD_eq_getElem?_getD, tally_getElem? _ h, Option.getD_some, List.count_filterMap,
    List.countP_eq_length_filter]
  exact congrArg List.length (List.filter_congr fun i _ => beq_eq_decide _ _)

theorem first_le {count i : ℕ} {line : Line} {members : List ℕ}
    (h : (line, members) ∈ lines exchanges bases turns count) (hi : i ∈ members) : first members ≤ i := by
  obtain ⟨head, rest, rfl⟩ := List.exists_cons_of_ne_nil (group_ne_nil h)
  rcases List.mem_cons.mp hi with rfl | hi
  · exact le_rfl
  · exact ((List.pairwise_cons.mp (line_ascending h)).1 i hi).le

theorem head?_eq_first {count : ℕ} {line : Line} {members : List ℕ}
    (h : (line, members) ∈ lines exchanges bases turns count) : members.head? = some (first members) := by
  obtain ⟨head, rest, rfl⟩ := List.exists_cons_of_ne_nil (group_ne_nil h)
  rfl

theorem lineOf_lt {base j : ℕ} {line : Line} {members : List ℕ}
    (hj : (lines exchanges bases turns exchanges.length)[j]? = some (line, members))
    (hbase : base < first members) : lineOf exchanges bases turns base < j := by
  have hmem := List.mem_of_getElem? hj
  have hlt : base < exchanges.length := hbase.trans ((mem_line hmem).mp (first_mem hmem)).1
  obtain ⟨holder, hholder⟩ := lines_getElem?.mp (lineKeys_lineOf bases turns hlt)
  have hmem' := List.mem_of_getElem? hholder
  have hle : first holder ≤ base := first_le hmem' ((mem_line hmem').mpr ⟨hlt, rfl⟩)
  by_contra hge
  rcases eq_or_lt_of_le (not_lt.mp hge) with heq | hafter
  · rw [← heq, hj] at hholder
    obtain ⟨-, rfl⟩ := Prod.mk.inj (Option.some.inj hholder)
    omega
  · obtain ⟨hj', hjget⟩ := List.getElem?_eq_some_iff.mp hj
    obtain ⟨hk', hkget⟩ := List.getElem?_eq_some_iff.mp hholder
    have hpair := List.pairwise_iff_getElem.mp (lines_ordered exchanges.length) j _ hj' hk' hafter
    rw [hjget, hkget] at hpair
    have hfirsts : first members < first holder := hpair _ (head?_eq_first hmem) _ (head?_eq_first hmem')
    omega

end Cut

namespace SessionStructure

variable {events : List StreamEvent}

theorem base_eq {s : SessionStructure} {index base : ℕ} (h : base ≠ index) :
    s.base index = some base ↔ Segmentation.base s.bases index = some base := by
  rw [Derivation.base, Segmentation.base]
  rcases s.bases[index]? with _ | (reason | ⟨found, rule⟩)
  · simp
  · simp
  · by_cases hf : found = index
    · simp [hf, Ne.symm h]
    · simp [hf]

theorem children_eq (s : SessionStructure) {base : ℕ} (h : base < s.exchanges.length) :
    (children s.bases s.exchanges.length).getD base 0 = (s.sharers base).length := by
  rw [children_getD h, sharers]
  congr 1
  apply List.filter_congr
  intro i _
  by_cases hi : i = base
  · simp [hi, base_ne_self]
  · simp [hi, base_eq (Ne.symm hi)]

theorem parentAt_lt {index p : ℕ} (h : (derive events).parentAt index = some p) : p < index := by
  obtain ⟨segment, hsegment, hparent⟩ := Option.bind_eq_some_iff.mp h
  obtain ⟨line, members, hline, rfl⟩ := segments_getElem?.mp hsegment
  obtain ⟨base, hearlier, rfl⟩ := Option.map_eq_some_iff.mp hparent
  exact lineOf_lt hline (earlier_eq_some.mp hearlier).2

theorem walk_ends (s : SessionStructure) (hlt : ∀ index p, s.parentAt index = some p → p < index) (index : ℕ) :
    (fun segment => segment.bind s.parentAt)^[index + 1] (some index) = none := by
  induction index using Nat.strong_induction_on with
  | h index ih =>
    have hnone (steps : ℕ) : (fun segment => segment.bind s.parentAt)^[steps] none = none := by
      induction steps with
      | zero => rfl
      | succ steps ih => rw [Function.iterate_succ_apply, Option.bind_none, ih]
    rw [Function.iterate_succ_apply, Option.bind_some]
    cases hp : s.parentAt index with
    | none => exact hnone index
    | some p =>
      have hpi := hlt index p hp
      obtain ⟨more, rfl⟩ : ∃ more, index = more + (p + 1) := ⟨index - (p + 1), by omega⟩
      rw [Function.iterate_add_apply, ih p (by omega), hnone]

theorem describes {s : SessionStructure} (hcut : s.segmentation = cut s.exchanges s.bases s.turns)
    {index : ℕ} {line : Line} {members : List ℕ}
    (h : (lines s.exchanges s.bases s.turns s.exchanges.length)[index]? = some (line, members)) :
    Describes s index (segmentAt s.exchanges s.bases s.turns (line, members)) (first members)
      (s.segment (segmentAt s.exchanges s.bases s.turns (line, members))) := by
  have hmem := List.mem_of_getElem? h
  have hfirst := ((mem_line hmem).mp (first_mem hmem)).1
  cases hearlier : earlier s.bases (first members) with
  | none =>
    constructor
    all_goals simp [segmentAt, hearlier, Derivation.segment]
  | some base =>
    obtain ⟨hbase, hlt⟩ := earlier_eq_some.mp hearlier
    have hbase' : s.base (first members) = some base := (base_eq hlt.ne).mpr hbase
    have hchildren := children_eq s (hlt.trans hfirst)
    obtain ⟨held, hheld⟩ :=
      lines_getElem?.mp (lineKeys_lineOf s.bases s.turns (hlt.trans hfirst))
    have hholder := segments_getElem?.mpr ⟨_, held, hheld, rfl⟩
    have hholds := (mem_line (List.mem_of_getElem? hheld)).mpr ⟨hlt.trans hfirst, rfl⟩
    rw [← hcut] at hholder
    have hparent : (segmentAt s.exchanges s.bases s.turns (line, members)).parent =
        some (lineOf s.exchanges s.bases s.turns base) := by
      simp only [segmentAt, hearlier, Option.map_some]
    have hkind : (segmentAt s.exchanges s.bases s.turns (line, members)).kind =
        if (s.sharers base).length > 1 then .branch else .turn := by
      simp only [segmentAt, hearlier, hchildren]
    refine ⟨fun p hp => ?_, fun hnone => by simp [hparent] at hnone, rfl, ?_, ?_, ?_⟩
    · obtain rfl : lineOf s.exchanges s.bases s.turns base = p := by simpa [hparent] using hp
      refine ⟨lineOf_lt h hlt, base, _, hbase', hholder, hholds, ?_, ?_⟩
      · simp only [Derivation.segment, hparent, Option.bind_some, hholder]
      · simp only [Derivation.segment, hparent, Option.bind_some]
        exact congrArg (Option.map s.id) hbase'
    · rw [hkind, hparent]
      split_ifs <;> simp
    · rw [hkind, hparent]
      split_ifs with hmany <;> simp [hbase', hmany]
    · rw [hkind, hparent]
      split_ifs with hmany <;> simp [hbase', hmany]

theorem derive_forest (events : List StreamEvent) : IsForest (derive events) where
  described := by
    intro index segment hsegment
    obtain ⟨line, members, hline, rfl⟩ := segments_getElem?.mp hsegment
    refine ⟨first members, _, head?_eq_first (List.mem_of_getElem? hline), ?_, describes rfl hline⟩
    exact List.getElem?_map.trans (congrArg _ hsegment)
  ends := walk_ends _ fun _ _ => parentAt_lt

section Session

open Fixtures

local instance laterDigest : Text.Sha256 := okDigest

/-- Two requests name the response of a later exchange as the one they continue. -/
def laterBase : List StreamEvent :=
  [{ ask 1 "a" 1000 [user "one"] with previousResponseId := some "c" },
    { ask 2 "b" 2000 [user "two"] with previousResponseId := some "c" },
    ask 3 "c" 3000 [user "three"]]

theorem laterBase_root :
    ((derive laterBase).segmentation.segments.map fun segment => (segment.kind, segment.exchanges)) =
        [(.root, [0]), (.root, [1]), (.root, [2])] ∧
      (derive laterBase).base 0 = some 2 ∧ (derive laterBase).sharers 2 = [0, 1] := by
  decide

end Session

end SessionStructure

end AbyssBackend.Streams
