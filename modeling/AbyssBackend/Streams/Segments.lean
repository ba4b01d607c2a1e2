import AbyssBackend.Library.Groups
import AbyssBackend.Streams.Segmentation

namespace AbyssBackend.Streams.Segmentation

open Groups Tables Tallies

/-- The line an exchange stands on: its own when it is a side exchange, else its group's main line. -/
inductive Line
  | main (key : Key)
  | side (index : ℕ)
deriving DecidableEq

variable (exchanges : List Exchange) (bases : List Base) (turns : Turns)

def lineKey (index : ℕ) : Line :=
  if (sides exchanges bases turns).getD index false then .side index
  else .main (key exchanges bases turns index)

def lines (count : ℕ) : List (Line × List ℕ) :=
  groupBy (lineKey exchanges bases turns) (List.range count)

def lineKeys (count : ℕ) : List (Line) := (lines exchanges bases turns count).map Prod.fst

def lineOf (index : ℕ) : ℕ :=
  (lineKeys exchanges bases turns exchanges.length).idxOf (lineKey exchanges bases turns index)

def first (members : List ℕ) : ℕ := members.head?.getD 0

def segmentAt (line : Line × List ℕ) : Segment where
  kind := match earlier bases (first line.2) with
    | none => .root
    | some base => if (children bases exchanges.length).getD base 0 > 1 then .branch else .turn
  parent := (earlier bases (first line.2)).map (lineOf exchanges bases turns)
  exchanges := line.2
  group := (groups exchanges bases).getD (first line.2) (.line (first line.2))
  side := (sides exchanges bases turns).getD (first line.2) false

/-- The pass over the first exchanges has made their lines. -/
structure Placed (count : ℕ) (cutting : Cutting) : Prop where
  segments : cutting.segments = (lines exchanges bases turns count).map (segmentAt exchanges bases turns)
  length : cutting.segmentOf.length = exchanges.length
  segmentOf : ∀ i < count, cutting.segmentOf[i]? = some (lineOf exchanges bases turns i)
  mainOf : ∀ k j, cutting.mainOf k = some j ↔ (lineKeys exchanges bases turns count)[j]? = some (.main k)

variable {exchanges bases turns}

theorem lineKey_side {index : ℕ} (h : (sides exchanges bases turns).getD index false = true) :
    lineKey exchanges bases turns index = .side index := by
  rw [lineKey, if_pos h]

theorem lineKey_main {index : ℕ} (h : (sides exchanges bases turns).getD index false = false) :
    lineKey exchanges bases turns index = .main (key exchanges bases turns index) := by
  rw [lineKey, h, if_neg Bool.false_ne_true]

theorem lines_succ (count : ℕ) :
    lines exchanges bases turns (count + 1) =
      pushInto (lineKey exchanges bases turns count) count (lines exchanges bases turns count) := by
  rw [lines, List.range_succ, groupBy_concat]
  rfl

theorem lineKeys_nodup (count : ℕ) : (lineKeys exchanges bases turns count).Nodup :=
  keys_nodup _ _

theorem mem_lineKeys {count : ℕ} {k : Line} :
    k ∈ lineKeys exchanges bases turns count ↔ ∃ i < count, lineKey exchanges bases turns i = k := by
  rw [lineKeys, lines, mem_keys]
  simp

theorem side_not_mem {count : ℕ} : .side count ∉ lineKeys exchanges bases turns count := by
  rw [mem_lineKeys]
  rintro ⟨i, hi, hkey⟩
  simp only [lineKey] at hkey
  split_ifs at hkey
  rw [Line.side.inj hkey] at hi
  exact lt_irrefl _ hi

variable (bases turns) in
theorem lineKeys_prefix {count : ℕ} (h : count ≤ exchanges.length) :
    lineKeys exchanges bases turns count <+: lineKeys exchanges bases turns exchanges.length := by
  obtain ⟨more, hmore⟩ : List.range count <+: List.range exchanges.length := by
    rw [List.prefix_iff_eq_take, List.length_range, List.take_range, min_eq_left h]
  simp only [lineKeys, lines]
  rw [← hmore]
  exact keys_prefix _ _ _

theorem lineOf_eq {count i : ℕ} (h : count ≤ exchanges.length) (hi : i < count) :
    lineOf exchanges bases turns i =
      (lineKeys exchanges bases turns count).idxOf (lineKey exchanges bases turns i) := by
  obtain ⟨more, hmore⟩ := lineKeys_prefix bases turns h
  rw [lineOf, ← hmore, List.idxOf_append_of_mem (mem_lineKeys.mpr ⟨i, hi, rfl⟩)]

theorem segmentAt_append {k : Line} {members : List ℕ} (index : ℕ) (h : members ≠ []) :
    segmentAt exchanges bases turns (k, members ++ [index]) =
      { segmentAt exchanges bases turns (k, members) with exchanges := members ++ [index] } := by
  obtain ⟨head, rest, rfl⟩ := List.exists_cons_of_ne_nil h
  simp [segmentAt, first]

theorem placed_start : Placed exchanges bases turns 0 (Cutting.start exchanges) where
  segments := rfl
  length := by simp [Cutting.start]
  segmentOf := by simp
  mainOf := by simp [Cutting.start, Tables.empty, lineKeys, lines, groupBy]

theorem opens_eq {count : ℕ} {cutting : Cutting} (h : Placed exchanges bases turns count cutting) :
    { opens exchanges bases cutting.segmentOf count ((sides exchanges bases turns).getD count false) with
        exchanges := [count] } =
      segmentAt exchanges bases turns (lineKey exchanges bases turns count, [count]) := by
  have hparent : (earlier bases count).map (fun base => cutting.segmentOf.getD base 0) =
      (earlier bases count).map (lineOf exchanges bases turns) := by
    apply Option.map_congr
    intro base hbase
    have hlt : base < count := by simpa using (Option.mem_filter_iff.mp hbase).2
    rw [List.getD_eq_getElem?_getD, h.segmentOf base hlt, Option.getD_some]
  exact congrArg (fun parent => { opens exchanges bases cutting.segmentOf count
    ((sides exchanges bases turns).getD count false) with parent := parent, exchanges := [count] }) hparent

theorem lineKeys_succ (count : ℕ) :
    lineKeys exchanges bases turns (count + 1) =
      if lineKey exchanges bases turns count ∈ lineKeys exchanges bases turns count then
        lineKeys exchanges bases turns count
      else lineKeys exchanges bases turns count ++ [lineKey exchanges bases turns count] := by
  rw [lineKeys, lines_succ, pushInto_keys]
  rfl

theorem segmentOf_set {count line : ℕ} {cutting : Cutting} (h : Placed exchanges bases turns count cutting)
    (hcount : count < exchanges.length)
    (hline : (lineKeys exchanges bases turns (count + 1))[line]? = some (lineKey exchanges bases turns count)) :
    ∀ i < count + 1, (cutting.segmentOf.set count line)[i]? = some (lineOf exchanges bases turns i) := by
  have hlineOf : lineOf exchanges bases turns count = line := by
    rw [lineOf_eq hcount (Nat.lt_succ_self count)]
    exact idxOf_eq_of_getElem? (lineKeys_nodup _) hline
  intro i hi
  by_cases heq : i = count
  · have hlt : count < cutting.segmentOf.length := h.length ▸ hcount
    simp [heq, hlineOf, hlt]
  · rw [List.getElem?_set_ne (Ne.symm heq), h.segmentOf i (by omega)]

theorem placed_known {count line : ℕ} {cutting : Cutting} (h : Placed exchanges bases turns count cutting)
    (hcount : count < exchanges.length)
    (hside : (sides exchanges bases turns).getD count false = false)
    (hknown : cutting.mainOf (key exchanges bases turns count) = some line) :
    Placed exchanges bases turns (count + 1) (Cutting.place exchanges bases turns cutting count) := by
  have hplace : Cutting.place exchanges bases turns cutting count =
      { cutting with
        segments := cutting.segments.modify line fun segment =>
          { segment with exchanges := segment.exchanges ++ [count] }
        segmentOf := cutting.segmentOf.set count line } := by
    simp only [Cutting.place, hside, hknown, Bool.false_eq_true, if_false]
  have hget : (lineKeys exchanges bases turns count)[line]? = some (lineKey exchanges bases turns count) := by
    rw [(h.mainOf _ _).mp hknown, lineKey_main hside]
  have hmem := List.mem_of_getElem? hget
  have hkeys : lineKeys exchanges bases turns (count + 1) = lineKeys exchanges bases turns count := by
    rw [lineKeys_succ, if_pos hmem]
  rw [hplace]
  refine ⟨?_, by simp [h.length], segmentOf_set h hcount (by rw [hkeys, hget]),
    fun k j => by rw [hkeys]; exact h.mainOf k j⟩
  have hidx := idxOf_eq_of_getElem? (lineKeys_nodup count) hget
  rw [lines_succ, pushInto_of_mem _ hmem, ← lineKeys, hidx, h.segments]
  refine modify_map (fun group hgroup => ?_) line
  exact (segmentAt_append count (group_ne_nil hgroup)).symm

theorem placed_opens {count : ℕ} {cutting : Cutting} (h : Placed exchanges bases turns count cutting)
    (hcount : count < exchanges.length)
    (hnew : lineKey exchanges bases turns count ∉ lineKeys exchanges bases turns count) :
    Placed exchanges bases turns (count + 1) (Cutting.place exchanges bases turns cutting count) := by
  have hlength : cutting.segments.length = (lineKeys exchanges bases turns count).length := by
    rw [h.segments, lineKeys, List.length_map, List.length_map]
  have hkeys : lineKeys exchanges bases turns (count + 1) =
      lineKeys exchanges bases turns count ++ [lineKey exchanges bases turns count] := by
    rw [lineKeys_succ, if_neg hnew]
  have hplace : Cutting.place exchanges bases turns cutting count =
      { segments := cutting.segments ++
          [segmentAt exchanges bases turns (lineKey exchanges bases turns count, [count])]
        segmentOf := cutting.segmentOf.set count cutting.segments.length
        mainOf := if (sides exchanges bases turns).getD count false then cutting.mainOf
          else insert cutting.mainOf (key exchanges bases turns count) cutting.segments.length } := by
    have hunknown : (if (sides exchanges bases turns).getD count false then none
        else cutting.mainOf (key exchanges bases turns count)) = none := by
      split
      · rfl
      · next hside =>
        refine Option.eq_none_iff_forall_ne_some.mpr fun line hline => hnew ?_
        rw [lineKey_main (by simpa using hside)]
        exact List.mem_of_getElem? ((h.mainOf _ _).mp hline)
    simp only [Cutting.place, hunknown, modify_concat, ← opens_eq h]
    rfl
  rw [hplace]
  refine ⟨?_, by simp [h.length], segmentOf_set h hcount ?_, fun k j => ?_⟩
  · rw [lines_succ, pushInto_of_not_mem _ hnew, h.segments, List.map_append]
    rfl
  · rw [hkeys, hlength, List.getElem?_append_right le_rfl]
    simp
  · rw [hkeys]
    cases hside : (sides exchanges bases turns).getD count false with
    | true =>
      rw [if_pos rfl, h.mainOf, lineKey_side hside, getElem?_concat]
      simp
    | false =>
      rw [if_neg Bool.false_ne_true, lineKey_main hside, getElem?_concat, hlength, ← h.mainOf, Line.main.injEq]
      rw [lineKey_main hside] at hnew
      by_cases hk : k = key exchanges bases turns count
      · have hnone : cutting.mainOf k ≠ some j := fun hj =>
          hnew (hk ▸ List.mem_of_getElem? ((h.mainOf _ _).mp hj))
        rw [hk] at hnone ⊢
        simp [hnone, eq_comm]
      · simp [insert_ne _ _ hk, Ne.symm hk]

/-- The pass makes each line one segment, in the order of their first exchanges. -/
theorem cut_eq : cut exchanges bases turns =
    ⟨(lines exchanges bases turns exchanges.length).map (segmentAt exchanges bases turns),
      (List.range exchanges.length).map (lineOf exchanges bases turns)⟩ := by
  have hplaced : ∀ count ≤ exchanges.length, Placed exchanges bases turns count
      ((List.range count).foldl (Cutting.place exchanges bases turns) (Cutting.start exchanges)) := by
    intro count
    induction count with
    | zero => exact fun _ => placed_start
    | succ count ih =>
      intro hcount
      have h := ih (by omega)
      rw [List.range_succ, List.foldl_concat]
      by_cases hmem : lineKey exchanges bases turns count ∈ lineKeys exchanges bases turns count
      · cases hside : (sides exchanges bases turns).getD count false with
        | true => exact absurd (lineKey_side hside ▸ hmem) side_not_mem
        | false =>
          obtain ⟨line, hline⟩ := List.getElem?_of_mem hmem
          rw [lineKey_main hside] at hline
          exact placed_known h hcount hside ((h.mainOf _ _).mpr hline)
      · exact placed_opens h hcount hmem
  have h := hplaced exchanges.length le_rfl
  rw [cut, h.segments]
  congr 1
  apply List.ext_getElem?
  intro i
  by_cases hi : i < exchanges.length
  · rw [h.segmentOf i hi, List.getElem?_map, List.getElem?_range hi, Option.map_some]
  · rw [List.getElem?_eq_none (by rw [h.length]; omega), List.getElem?_eq_none (by simpa using hi)]

end AbyssBackend.Streams.Segmentation
