import AbyssBackend.Streams.BaseRules
import AbyssBackend.Streams.Fixtures
import AbyssBackend.Streams.Structure

namespace AbyssBackend.Streams

namespace Segmentation

open Positions Tallies

/-- The exchange is the base of another one. -/
def isBase (bases : List Base) (count index : ℕ) : Bool :=
  (List.range count).any fun other => base bases other == some index

def membersOf (groups : List Group) (group : Group) : List ℕ :=
  (List.range groups.length).filter fun index => groups[index]? == some group

/-- The group is the line of its first exchange, and the exchanges of it that are continued are a
path: none of them shares its base with another. -/
structure IsLine (bases : List Base) (count : ℕ) (group : Group) (members : List ℕ) : Prop where
  first : ∃ r, group = .line r ∧ r ∈ members ∧ ∀ i ∈ members, r ≤ i
  path : (members.filter (isBase bases count)).IsChain fun before i => base bases i = some before
  apart : ∀ i ∈ members, ∀ j ∈ members, isBase bases count i = true → isBase bases count j = true →
    i ≠ j → ∀ b, base bases i = some b → base bases j ≠ some b

theorem isBase_iff {bases : List Base} {count index : ℕ} :
    isBase bases count index = true ↔ ∃ other < count, base bases other = some index := by
  simp [isBase]

theorem earlier_eq_some {bases : List Base} {index b : ℕ} :
    earlier bases index = some b ↔ base bases index = some b ∧ b < index := by
  simp [earlier, Option.filter_eq_some_iff]

theorem continued_getD {bases : List Base} {count index : ℕ} (h : index < count) :
    (continued bases count).getD index false = isBase bases count index := by
  rw [continued, List.getD_eq_getElem?_getD, mark_getElem? _ h, Option.getD_some]
  apply Bool.eq_iff_iff.mpr
  simp [isBase_iff]

/-- Another continued exchange has the same base. -/
theorem forks_iff {bases : List Base} {count index b : ℕ} (h : index < count) (hb : b < count)
    (hbase : base bases index = some b) (hcontinued : isBase bases count index = true) :
    1 < (continuedChildren bases count).getD b 0 ↔
      ∃ other < count, other ≠ index ∧ isBase bases count other = true ∧ base bases other = some b := by
  have htally : (continuedChildren bases count).getD b 0 =
      (List.range count).countP fun i => base bases i == some b && isBase bases count i := by
    rw [continuedChildren, List.getD_eq_getElem?_getD, tally_getElem? _ hb, Option.getD_some,
      List.count_filterMap, List.countP_filter]
    apply List.countP_congr
    intro i hi
    rw [continued_getD (List.mem_range.mp hi)]
  rw [htally, one_lt_countP List.nodup_range]
  simp only [List.mem_range, Bool.and_eq_true, beq_iff_eq]
  constructor
  · rintro ⟨i, hi, j, hj, hne, ⟨hbi, hci⟩, hbj, hcj⟩
    by_cases heq : i = index
    · exact ⟨j, hj, fun h => hne (heq.trans h.symm), hcj, hbj⟩
    · exact ⟨i, hi, heq, hci, hbi⟩
  · rintro ⟨other, hother, hne, hc, hbo⟩
    exact ⟨other, hother, index, h, hne, ⟨hbo, hc⟩, hbase, hcontinued⟩

section Lines

variable {exchanges : List Exchange} {bases : List Base}

variable (bases) in
theorem groups_length : (groups exchanges bases).length = exchanges.length := length_grown _ _

theorem groups_getElem? (h : exchanges.any declares = false) {i : ℕ} (hi : i < exchanges.length) :
    (groups exchanges bases)[i]? = some
      (match earlier bases i with
      | some b =>
        if isBase bases exchanges.length i && (continuedChildren bases exchanges.length).getD b 0 > 1 then .line i
        else (groups exchanges bases).getD b (.line i)
      | none => .line i) := by
  have hgrown := grown_getElem? (groupOf bases exchanges.length (exchanges.any declares)) exchanges i
  have htake : ((groups exchanges bases).take i).length = i := by
    rw [List.length_take, groups_length, min_eq_left (le_of_lt hi)]
  rw [groups, hgrown, List.getElem?_eq_getElem hi, Option.map_some, Option.some_inj]
  rw [← groups, groupOf, htake, h, if_neg Bool.false_ne_true]
  cases hb : earlier bases i with
  | none => rfl
  | some b =>
    obtain ⟨-, hlt⟩ := earlier_eq_some.mp hb
    simp only [continued_getD hi, List.getD_eq_getElem?_getD, List.getElem?_take_of_lt hlt]

/-- An exchange begins a line, or stands on the line of its base, which it alone continues there. -/
theorem line_or_inherits (h : exchanges.any declares = false) {i : ℕ} (hi : i < exchanges.length) :
    (groups exchanges bases)[i]? = some (.line i) ∨
      ∃ b < i, base bases i = some b ∧ (groups exchanges bases)[i]? = (groups exchanges bases)[b]? ∧
        (isBase bases exchanges.length i = true → ∀ other < exchanges.length,
          isBase bases exchanges.length other = true → base bases other = some b → other = i) := by
  rw [groups_getElem? h hi]
  cases hb : earlier bases i with
  | none => exact Or.inl rfl
  | some b =>
    obtain ⟨hbase, hlt⟩ := earlier_eq_some.mp hb
    by_cases hfork : isBase bases exchanges.length i && (continuedChildren bases exchanges.length).getD b 0 > 1
    · exact Or.inl (by simp only [hfork, if_true])
    · have hb : b < (groups exchanges bases).length := by rw [groups_length]; omega
      refine Or.inr ⟨b, hlt, hbase, ?_, fun hcontinued other hother hc hbo => ?_⟩
      · simp only
        rw [if_neg hfork, List.getD_eq_getElem?_getD, List.getElem?_eq_getElem hb, Option.getD_some]
      · by_contra hne
        have hforks := (forks_iff hi (hlt.trans hi) hbase hcontinued).mpr ⟨other, hother, hne, hc, hbo⟩
        exact hfork (Bool.and_eq_true_iff.mpr ⟨hcontinued, decide_eq_true hforks⟩)

variable (bases) in
theorem exists_first (h : exchanges.any declares = false) (i : ℕ) (hi : i < exchanges.length) :
    ∃ r ≤ i, (groups exchanges bases)[i]? = some (.line r) ∧ (groups exchanges bases)[r]? = some (.line r) := by
  induction i using Nat.strong_induction_on with
  | h i ih =>
    rcases line_or_inherits h hi with hline | ⟨b, hlt, -, hsame, -⟩
    · exact ⟨i, le_rfl, hline, hline⟩
    · obtain ⟨r, hr, hline, hfirst⟩ := ih b hlt (hlt.trans hi)
      exact ⟨r, hr.trans hlt.le, hsame.trans hline, hfirst⟩

theorem mem_membersOf {group : Group} {i : ℕ} :
    i ∈ membersOf (groups exchanges bases) group ↔ (groups exchanges bases)[i]? = some group := by
  simp only [membersOf, List.mem_filter, List.mem_range, beq_iff_eq, and_iff_right_iff_imp]
  exact fun h => (List.getElem?_eq_some_iff.mp h).1

theorem continued_on_line (h : exchanges.any declares = false) {i r : ℕ} (hi : i < exchanges.length)
    (hline : (groups exchanges bases)[i]? = some (.line r)) (hne : i ≠ r) :
    ∃ b < i, base bases i = some b ∧ (groups exchanges bases)[b]? = some (.line r) ∧
      isBase bases exchanges.length b = true ∧
      (isBase bases exchanges.length i = true → ∀ other < exchanges.length,
        isBase bases exchanges.length other = true → base bases other = some b → other = i) := by
  rcases line_or_inherits h hi with hown | ⟨b, hlt, hbase, hsame, honly⟩
  · exact absurd (Group.line.inj (Option.some_inj.mp (hown.symm.trans hline))) hne
  · exact ⟨b, hlt, hbase, hsame ▸ hline, isBase_iff.mpr ⟨i, hi, hbase⟩, honly⟩

/-- The continued exchanges of a line among the first ones. -/
def spine (exchanges : List Exchange) (bases : List Base) (r count : ℕ) : List ℕ :=
  (List.range count).filter fun i =>
    (groups exchanges bases)[i]? == some (.line r) && isBase bases exchanges.length i

theorem mem_spine {r count i : ℕ} : i ∈ spine exchanges bases r count ↔
    i < count ∧ (groups exchanges bases)[i]? = some (.line r) ∧ isBase bases exchanges.length i = true := by
  simp [spine]

theorem spine_succ (r count : ℕ) : spine exchanges bases r (count + 1) = spine exchanges bases r count ++
    if (groups exchanges bases)[count]? == some (.line r) && isBase bases exchanges.length count then [count]
    else [] := by
  rw [spine, List.range_succ, List.filter_append, List.filter_singleton, Bool.cond_eq_ite]
  rfl

theorem spine_chain (h : exchanges.any declares = false) {r count : ℕ} (hcount : count ≤ exchanges.length) :
    (spine exchanges bases r count).IsChain fun before i => base bases i = some before := by
  induction count with
  | zero => exact List.IsChain.nil
  | succ count ih =>
    have hchain := ih (by omega)
    rw [spine_succ]
    split
    · next hnext =>
      obtain ⟨hline, hcontinued⟩ := Bool.and_eq_true_iff.mp hnext
      refine hchain.append (List.IsChain.singleton _) fun last hlast next hnext => ?_
      obtain rfl : count = next := by simpa using hnext
      have hlast' := mem_spine.mp (List.mem_of_getLast? hlast)
      obtain ⟨first, hfirst, hline', hown⟩ := exists_first bases h last (by omega)
      obtain rfl : first = r := Group.line.inj (Option.some_inj.mp (hline'.symm.trans hlast'.2.1))
      obtain ⟨b, hlt, hbase, hgroup, hb, honly⟩ :=
        continued_on_line h (by omega) (beq_iff_eq.mp hline) (by omega : count ≠ first)
      -- whatever follows the base on the line would share it with the next exchange
      rcases last_or_next hchain (mem_spine.mpr ⟨hlt, hgroup, hb⟩) with heq | ⟨other, hother, hbo⟩
      · rw [hbase, ← heq]
        exact hlast
      · obtain ⟨hlt', -, hc⟩ := mem_spine.mp hother
        exact absurd (honly hcontinued other (by omega) hc hbo) (by omega)
    · simpa using hchain

theorem groups_lines (exchanges : List Exchange) (bases : List Base)
    (h : ∀ exchange ∈ exchanges, declares exchange = false) :
    ∀ group ∈ groups exchanges bases,
      IsLine bases exchanges.length group (membersOf (groups exchanges bases) group) := by
  have hnone : exchanges.any declares = false := by simpa using h
  intro group hgroup
  obtain ⟨i, hi⟩ := List.getElem?_of_mem hgroup
  have hlt : i < exchanges.length := groups_length bases ▸ (List.getElem?_eq_some_iff.mp hi).1
  obtain ⟨r, -, hline, hfirst⟩ := exists_first bases hnone i hlt
  obtain rfl : group = .line r := Option.some_inj.mp (hi.symm.trans hline)
  refine ⟨⟨r, rfl, mem_membersOf.mpr hfirst, fun j hj => ?_⟩, ?_, ?_⟩
  · have hj := mem_membersOf.mp hj
    obtain ⟨first, hle, hline', -⟩ := exists_first bases hnone j
      (groups_length bases ▸ (List.getElem?_eq_some_iff.mp hj).1)
    rwa [Group.line.inj (Option.some_inj.mp (hj.symm.trans hline'))]
  · have hspine : (membersOf (groups exchanges bases) (.line r)).filter (isBase bases exchanges.length) =
        spine exchanges bases r exchanges.length := by
      simp only [membersOf, spine, List.filter_filter, groups_length, Bool.and_comm]
    rw [hspine]
    exact spine_chain hnone le_rfl
  · intro j hj k hk hcj hck hne b hbj hbk
    have hj := mem_membersOf.mp hj
    have hk := mem_membersOf.mp hk
    have hltj := groups_length bases ▸ (List.getElem?_eq_some_iff.mp hj).1
    have hltk := groups_length bases ▸ (List.getElem?_eq_some_iff.mp hk).1
    -- each of the two would begin the line
    have hfirst : ∀ i < exchanges.length, (groups exchanges bases)[i]? = some (.line r) →
        isBase bases exchanges.length i = true → base bases i = some b → (∃ other < exchanges.length,
          isBase bases exchanges.length other = true ∧ base bases other = some b ∧ other ≠ i) → i = r := by
      rintro i hi hgroup hc hb ⟨other, hother, hco, hbo, hne⟩
      by_contra hr
      obtain ⟨b', -, hb', -, -, honly⟩ := continued_on_line hnone hi hgroup hr
      obtain rfl : b = b' := Option.some_inj.mp (hb.symm.trans hb')
      exact hne (honly hc other hother hco hbo)
    have hjr := hfirst j hltj hj hcj hbj ⟨k, hltk, hck, hbk, Ne.symm hne⟩
    have hkr := hfirst k hltk hk hck hbk ⟨j, hltj, hcj, hbj, hne⟩
    exact hne (hjr.trans hkr.symm)

end Lines

end Segmentation

namespace SessionStructure

open Segmentation

theorem undeclared_lines (events : List StreamEvent)
    (h : ∀ exchange ∈ (derive events).exchanges, declares exchange = false) :
    ∀ group ∈ groups (derive events).exchanges (derive events).bases,
      IsLine (derive events).bases (derive events).exchanges.length group
        (membersOf (groups (derive events).exchanges (derive events).bases) group) :=
  groups_lines _ _ h

section Session

open Conversation Fixtures

local instance forkedDigest : Text.Sha256 := okDigest

/-- Two answers are asked about after `p`, and both of them are gone on with. -/
def forkedSession : List StreamEvent :=
  [ask 1 "p" 1000 [user "go"],
    answer 2 "p" 1500 [call "a"],
    ask 3 "q" 2000 [user "go", call "a", result "a"],
    answer 4 "q" 2500 [call "b"],
    ask 5 "r" 3000 [user "go", call "a", result "a", user "and"],
    answer 6 "r" 3500 [call "c"],
    ask 7 "s" 4000 [user "go", call "a", result "a", call "b", result "b"],
    ask 8 "t" 5000 [user "go", call "a", result "a", user "and", call "c", result "c"]]

theorem undeclared_lines_forkedSession :
    groups (derive forkedSession).exchanges (derive forkedSession).bases =
        [.line 0, .line 1, .line 2, .line 1, .line 2] ∧
      IsLine (derive forkedSession).bases 5 (.line 1) [1, 3] := by
  have hgroups : groups (derive forkedSession).exchanges (derive forkedSession).bases =
      [.line 0, .line 1, .line 2, .line 1, .line 2] := by decide +kernel
  have hlines := undeclared_lines forkedSession (by decide +kernel) (.line 1) (by rw [hgroups]; decide)
  rw [hgroups] at hlines
  exact ⟨hgroups, hlines⟩

end Session

end SessionStructure

end AbyssBackend.Streams
