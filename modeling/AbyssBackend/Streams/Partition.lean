import AbyssBackend.Streams.Segments
import AbyssBackend.Streams.Structure

namespace AbyssBackend.Streams.Segmentation

open Groups

/-- The segments are a partition of the exchanges, with one main line for each turn and group. -/
structure IsPartition (exchanges : List Exchange) (bases : List Base) (turns : Turns)
    (s : Segmentation) : Prop where
  length : s.segmentOf.length = exchanges.length
  owner : ∀ i < exchanges.length, ∃ j, s.segmentOf[i]? = some j ∧
    ∀ k, (∃ segment, s.segments[k]? = some segment ∧ i ∈ segment.exchanges) ↔ k = j
  members : ∀ segment ∈ s.segments, segment.exchanges ≠ [] ∧ ∀ i ∈ segment.exchanges, i < exchanges.length
  ascending : ∀ segment ∈ s.segments, segment.exchanges.Pairwise (· < ·)
  ordered : s.segments.Pairwise fun x y => ∀ i ∈ x.exchanges.head?, ∀ j ∈ y.exchanges.head?, i < j
  uniform : ∀ segment ∈ s.segments, ∀ i ∈ segment.exchanges, ∀ j ∈ segment.exchanges,
    key exchanges bases turns i = key exchanges bases turns j
  group : ∀ segment ∈ s.segments, ∀ i ∈ segment.exchanges,
    segment.group = (key exchanges bases turns i).2
  side : ∀ segment ∈ s.segments, segment.side = true → ∃ i, segment.exchanges = [i]
  main : ∀ i < exchanges.length, ∃! j : ℕ, ∃ segment, s.segments[j]? = some segment ∧
    segment.side = false ∧ ∀ m ∈ segment.exchanges, key exchanges bases turns m = key exchanges bases turns i

variable {exchanges : List Exchange} {bases : List Base} {turns : Turns}

theorem mem_line {count : ℕ} {line : Line} {members : List ℕ}
    (h : (line, members) ∈ lines exchanges bases turns count) {i : ℕ} :
    i ∈ members ↔ i < count ∧ lineKey exchanges bases turns i = line := by
  obtain ⟨rfl, -⟩ := mem_groupBy.mp h
  simp

theorem first_mem {count : ℕ} {line : Line} {members : List ℕ}
    (h : (line, members) ∈ lines exchanges bases turns count) : first members ∈ members := by
  obtain ⟨head, rest, rfl⟩ := List.exists_cons_of_ne_nil (group_ne_nil h)
  simp [first]

theorem line_ascending {count : ℕ} {line : Line} {members : List ℕ}
    (h : (line, members) ∈ lines exchanges bases turns count) : members.Pairwise (· < ·) := by
  obtain ⟨rfl, -⟩ := mem_groupBy.mp h
  exact (List.sortedLT_range count).pairwise.filter _

theorem lines_ordered (count : ℕ) : (lines exchanges bases turns count).Pairwise fun x y =>
    ∀ i ∈ x.2.head?, ∀ j ∈ y.2.head?, i < j := by
  obtain ⟨firsts, hfirsts, hsub⟩ := heads_sublist (lineKey exchanges bases turns) (List.range count)
  have hpair : (firsts.map some).Pairwise fun x y => ∀ i ∈ x, ∀ j ∈ y, i < j := by
    rw [List.pairwise_map]
    refine ((List.sortedLT_range _).pairwise.sublist hsub).imp fun hlt => ?_
    rintro i ⟨⟩ j ⟨⟩
    exact hlt
  rw [← hfirsts, List.pairwise_map] at hpair
  exact hpair

theorem side_line {count i : ℕ} {members : List ℕ}
    (h : (.side i, members) ∈ lines exchanges bases turns count) : members = [i] := by
  have hmem : ∀ j ∈ members, j = i := by
    intro j hj
    have hkey := ((mem_line h).mp hj).2
    rw [lineKey] at hkey
    split_ifs at hkey
    exact Line.side.inj hkey
  obtain ⟨head, rest, rfl⟩ := List.exists_cons_of_ne_nil (group_ne_nil h)
  obtain rfl := hmem head (by simp)
  have hpair := List.pairwise_cons.mp (line_ascending h)
  cases rest with
  | nil => rfl
  | cons next rest => exact absurd (hpair.1 next (by simp)) (by simp [hmem next (by simp)])

theorem lines_getElem? {count j : ℕ} {line : Line} :
    (lineKeys exchanges bases turns count)[j]? = some line ↔
      ∃ members, (lines exchanges bases turns count)[j]? = some (line, members) := by
  rw [lineKeys, List.getElem?_map, Option.map_eq_some_iff]
  constructor
  · rintro ⟨⟨line, members⟩, hj, rfl⟩
    exact ⟨members, hj⟩
  · rintro ⟨members, hj⟩
    exact ⟨(line, members), hj, rfl⟩

variable (bases turns) in
theorem lineKeys_lineOf {i : ℕ} (hi : i < exchanges.length) :
    (lineKeys exchanges bases turns exchanges.length)[lineOf exchanges bases turns i]? =
      some (lineKey exchanges bases turns i) := by
  have hmem : lineKey exchanges bases turns i ∈ lineKeys exchanges bases turns exchanges.length :=
    mem_lineKeys.mpr ⟨i, hi, rfl⟩
  rw [lineOf, List.getElem?_eq_getElem (List.idxOf_lt_length_of_mem hmem), List.getElem_idxOf]

theorem sides_getD {i : ℕ} (hi : i < exchanges.length) :
    (sides exchanges bases turns).getD i false =
      (side exchanges bases turns i && (withMain exchanges bases turns).contains (key exchanges bases turns i)) := by
  simp [sides, List.getD_eq_getElem?_getD, hi]

variable (bases turns) in
theorem exists_main {i : ℕ} (hi : i < exchanges.length) :
    ∃ m < exchanges.length, key exchanges bases turns m = key exchanges bases turns i ∧
      (sides exchanges bases turns).getD m false = false := by
  by_cases hmem : key exchanges bases turns i ∈ withMain exchanges bases turns
  · obtain ⟨m, hm, hkey⟩ := List.mem_map.mp hmem
    obtain ⟨hm, hside⟩ := List.mem_filter.mp hm
    have hlt := List.mem_range.mp hm
    refine ⟨m, hlt, hkey, ?_⟩
    rw [sides_getD hlt]
    simp [by simpa using hside]
  · refine ⟨i, hi, rfl, ?_⟩
    rw [sides_getD hi]
    simp [hmem]

theorem segmentAt_side {line : Line} {members : List ℕ}
    (h : (line, members) ∈ lines exchanges bases turns exchanges.length) :
    (segmentAt exchanges bases turns (line, members)).side = true ↔ ∃ i, line = .side i := by
  have hkey := ((mem_line h).mp (first_mem h)).2
  simp only [segmentAt, ← hkey]
  cases hside : (sides exchanges bases turns).getD (first members) false with
  | true => simp [lineKey_side hside]
  | false => simp [lineKey_main hside]

theorem segments_getElem? {j : ℕ} {segment : Segment} :
    (cut exchanges bases turns).segments[j]? = some segment ↔
      ∃ line members, (lines exchanges bases turns exchanges.length)[j]? = some (line, members) ∧
        segment = segmentAt exchanges bases turns (line, members) := by
  rw [cut_eq, List.getElem?_map, Option.map_eq_some_iff]
  simp [eq_comm]

theorem mem_segments {segment : Segment} :
    segment ∈ (cut exchanges bases turns).segments ↔
      ∃ line members, (line, members) ∈ lines exchanges bases turns exchanges.length ∧
        segment = segmentAt exchanges bases turns (line, members) := by
  rw [cut_eq, List.mem_map]
  simp [eq_comm]

theorem line_main {k : Key} {members : List ℕ}
    (h : (.main k, members) ∈ lines exchanges bases turns exchanges.length) {i : ℕ} (hi : i ∈ members) :
    key exchanges bases turns i = k := by
  have hkey := ((mem_line h).mp hi).2
  rw [lineKey] at hkey
  split_ifs at hkey
  exact Line.main.inj hkey

theorem line_key {line : Line} {members : List ℕ}
    (h : (line, members) ∈ lines exchanges bases turns exchanges.length) {i j : ℕ} (hi : i ∈ members)
    (hj : j ∈ members) : key exchanges bases turns i = key exchanges bases turns j := by
  cases line with
  | side m =>
    rw [side_line h] at hi hj
    rw [List.mem_singleton.mp hi, List.mem_singleton.mp hj]
  | main k => rw [line_main h hi, line_main h hj]

theorem cut_partition (exchanges : List Exchange) (bases : List Base) (turns : Turns) :
    IsPartition exchanges bases turns (cut exchanges bases turns) where
  length := by simp [cut_eq]
  owner := by
    intro i hi
    refine ⟨lineOf exchanges bases turns i, by simp [cut_eq, hi], fun k => ?_⟩
    have hown := lineKeys_lineOf bases turns hi
    constructor
    · rintro ⟨segment, hk, hmem⟩
      obtain ⟨line, members, hline, rfl⟩ := segments_getElem?.mp hk
      obtain ⟨-, rfl⟩ := (mem_line (List.mem_of_getElem? hline)).mp hmem
      have hkey := lines_getElem?.mpr ⟨members, hline⟩
      rw [← idxOf_eq_of_getElem? (lineKeys_nodup _) hkey]
      rfl
    · rintro rfl
      obtain ⟨members, hline⟩ := lines_getElem?.mp hown
      refine ⟨_, segments_getElem?.mpr ⟨_, members, hline, rfl⟩, ?_⟩
      exact (mem_line (List.mem_of_getElem? hline)).mpr ⟨hi, rfl⟩
  members := by
    intro segment hs
    obtain ⟨line, members, hline, rfl⟩ := mem_segments.mp hs
    exact ⟨group_ne_nil hline, fun i hi => ((mem_line hline).mp hi).1⟩
  ascending := by
    intro segment hs
    obtain ⟨line, members, hline, rfl⟩ := mem_segments.mp hs
    exact line_ascending hline
  ordered := by
    rw [cut_eq, List.pairwise_map]
    exact lines_ordered _
  uniform := by
    intro segment hs i hi j hj
    obtain ⟨line, members, hline, rfl⟩ := mem_segments.mp hs
    exact line_key hline hi hj
  group := by
    intro segment hs i hi
    obtain ⟨line, members, hline, rfl⟩ := mem_segments.mp hs
    rw [line_key hline hi (first_mem hline)]
    rfl
  side := by
    intro segment hs hside
    obtain ⟨line, members, hline, rfl⟩ := mem_segments.mp hs
    obtain ⟨i, rfl⟩ := (segmentAt_side hline).mp hside
    exact ⟨i, side_line hline⟩
  main := by
    intro i hi
    obtain ⟨m, hm, hkey, hside⟩ := exists_main bases turns hi
    have hown := lineKeys_lineOf bases turns hm
    rw [lineKey_main hside, hkey] at hown
    obtain ⟨members, hline⟩ := lines_getElem?.mp hown
    have hmem := List.mem_of_getElem? hline
    refine ⟨_, ⟨_, segments_getElem?.mpr ⟨_, members, hline, rfl⟩, ?_, fun j hj => ?_⟩, ?_⟩
    · rw [← Bool.not_eq_true, segmentAt_side hmem]
      simp
    · exact line_main hmem hj
    · rintro j ⟨segment, hj, hmain, hkeys⟩
      obtain ⟨line, members, hline', rfl⟩ := segments_getElem?.mp hj
      have hmem' := List.mem_of_getElem? hline'
      cases line with
      | side k => exact absurd ((segmentAt_side hmem').mpr ⟨k, rfl⟩) (by simp [hmain])
      | main k =>
        have hk : k = key exchanges bases turns i := by
          rw [← line_main hmem' (first_mem hmem')]
          exact hkeys _ (first_mem hmem')
        have hget := lines_getElem?.mpr ⟨members, hline'⟩
        rw [hk] at hget
        exact ((idxOf_eq_of_getElem? (lineKeys_nodup _) hget).symm.trans
          (idxOf_eq_of_getElem? (lineKeys_nodup _) hown))

end AbyssBackend.Streams.Segmentation
