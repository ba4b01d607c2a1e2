import AbyssBackend.Search.Pattern

namespace AbyssBackend.Search

open Occurrences Text

section Slices

theorem dropBytes_extent (text : List Char) (i : ℕ) :
    dropBytes text (extent Char.utf8Size text i) = some (text.drop i) := by
  induction text generalizing i with
  | nil => simp [extent, dropBytes]
  | cons c cs ih =>
    cases i with
    | zero => simp [extent, dropBytes]
    | succ i =>
      have hextent : extent Char.utf8Size (c :: cs) (i + 1) = c.utf8Size + extent Char.utf8Size cs i := by
        simp [extent]
      obtain ⟨n, hn⟩ := Nat.exists_eq_succ_of_ne_zero (Nat.add_pos_left c.utf8Size_pos
        (extent Char.utf8Size cs i)).ne'
      rw [hextent, hn, dropBytes, ← Nat.succ_eq_add_one, ← hn, if_pos (Nat.le_add_right ..),
        Nat.add_sub_cancel_left, ih, List.drop_succ_cons]

theorem takeBytes_extent (text : List Char) (i : ℕ) :
    takeBytes text (extent Char.utf8Size text i) = some (text.take i) := by
  induction text generalizing i with
  | nil => simp [extent, takeBytes]
  | cons c cs ih =>
    cases i with
    | zero => simp [extent, takeBytes]
    | succ i =>
      have hextent : extent Char.utf8Size (c :: cs) (i + 1) = c.utf8Size + extent Char.utf8Size cs i := by
        simp [extent]
      obtain ⟨n, hn⟩ := Nat.exists_eq_succ_of_ne_zero (Nat.add_pos_left c.utf8Size_pos
        (extent Char.utf8Size cs i)).ne'
      rw [hextent, hn, takeBytes, ← Nat.succ_eq_add_one, ← hn, if_pos (Nat.le_add_right ..),
        Nat.add_sub_cancel_left, ih, Option.map_some, List.take_succ_cons]

theorem byteSlice_extent {text : List Char} {i j : ℕ} (h : i ≤ j) :
    byteSlice text (extent Char.utf8Size text i) (extent Char.utf8Size text j) = some ((text.drop i).take (j - i)) := by
  obtain ⟨k, rfl⟩ := Nat.exists_eq_add_of_le h
  rw [byteSlice, extent_split, if_pos (Nat.le_add_right ..), dropBytes_extent, Option.bind_some,
    Nat.add_sub_cancel_left, Nat.add_sub_cancel_left, takeBytes_extent]

theorem scan_extents {folded : List Char} (characters : ℕ) {i : ℕ} {starts : List ℕ}
    (hsorted : (i :: starts).Pairwise (· ≤ ·)) (hbounds : ∀ j ∈ starts, j ≤ folded.length) :
    Pattern.scan folded characters (extent Char.utf8Size folded i) i (starts.map (extent Char.utf8Size folded)) =
      starts.map fun j => (j, j + characters) := by
  induction starts generalizing i with
  | nil => rfl
  | cons j starts ih =>
    have hij : i ≤ j := List.rel_of_pairwise_cons hsorted (List.mem_cons_self ..)
    have hj : j ≤ folded.length := hbounds j (List.mem_cons_self ..)
    have hlength : i + ((folded.drop i).take (j - i)).length = j := by
      rw [List.length_take, List.length_drop]
      omega
    rw [List.map_cons, Pattern.scan, byteSlice_extent hij, Option.map_some, Option.getD_some, hlength, List.map_cons,
      ih hsorted.of_cons fun k hk => hbounds k (List.mem_cons_of_mem _ hk)]

end Slices

section Offsets

theorem walk_extent (width : Char → ℕ) (text : List Char) {position target : ℕ} (h : position ≤ target)
    (htarget : target ≤ text.length) :
    walk width target (text.drop position) position (extent width text position) =
      (text.drop target, target, extent width text target) := by
  induction hrest : text.drop position generalizing position with
  | nil =>
    have hend : target = position := by
      have := List.drop_eq_nil_iff.mp hrest
      omega
    rw [walk, hend, hrest]
  | cons c cs ih =>
    unfold walk
    split
    · next hlt =>
      have hstep : extent width text (position + 1) = extent width text position + width c := by
        rw [extent_split, hrest]
        simp [extent]
      have hnext : text.drop (position + 1) = cs := by
        rw [← List.drop_drop, hrest, List.drop_one, List.tail_cons]
      rw [← hstep]
      exact ih hlt hnext
    · next hge =>
      obtain rfl : position = target := by omega
      rw [hrest]

theorem offsetsFrom_extents (width : Char → ℕ) (text : List Char) {position : ℕ} {targets : List ℕ}
    (hsorted : (position :: targets).Pairwise (· ≤ ·)) (hbounds : ∀ target ∈ targets, target ≤ text.length) :
    offsetsFrom width (text.drop position) position (extent width text position) targets =
      targets.map (extent width text) := by
  induction targets generalizing position with
  | nil => rfl
  | cons target targets ih =>
    have hle : position ≤ target := List.rel_of_pairwise_cons hsorted (List.mem_cons_self ..)
    rw [offsetsFrom, walk_extent width text hle (hbounds target (List.mem_cons_self ..))]
    dsimp only
    rw [ih hsorted.of_cons fun other hother => hbounds other (List.mem_cons_of_mem _ hother), List.map_cons]

theorem characterOffsets_eq {text : String} {positions : List ℕ} (width : Char → ℕ)
    (hsorted : positions.Pairwise (· ≤ ·)) (hbounds : ∀ position ∈ positions, position ≤ text.toList.length) :
    characterOffsets text positions width = positions.map (extent width text.toList) :=
  offsetsFrom_extents width text.toList (hsorted.cons fun _ _ => Nat.zero_le _) hbounds

theorem pairs_flatMap {α β : Type} (f g : α → β) (xs : List α) :
    pairs (xs.flatMap fun x => [f x, g x]) = xs.map fun x => (f x, g x) := by
  induction xs with
  | nil => rfl
  | cons x xs ih => simp [pairs, ih]

theorem bounds_sorted {starts : List ℕ} {length : ℕ} (h : starts.Pairwise fun i j => i + length ≤ j) :
    (starts.flatMap fun i => [i, i + length]).Pairwise (· ≤ ·) := by
  refine List.pairwise_flatMap.mpr ⟨fun i _ => by simp, h.imp fun {i j} hle x hx y hy => ?_⟩
  simp only [List.mem_cons, List.not_mem_nil, or_false] at hx hy
  omega

end Offsets

section Greedy

variable [CaseMapping]

theorem fold_length (text : String) : (fold text).toList.length = text.toList.length := by
  rw [fold_toList, List.length_map]

theorem fold_ne_nil {query : String} (hquery : query ≠ "") : (fold query).toList ≠ [] := by
  rw [← List.length_pos_iff, fold_length, List.length_pos_iff, ne_eq, String.toList_eq_nil_iff]
  exact hquery

theorem occurrences_starts {query : String} (hquery : query ≠ "") (text : String) :
    (Pattern.new query).occurrences text =
      (starts (fun _ => 1) (fold query).toList 0 0 (fold text).toList).map
        fun start => (start, start + (fold query).toList.length) := by
  have hword := fold_ne_nil hquery
  have hzero : extent Char.utf8Size (fold text).toList 0 = 0 := rfl
  have hwidth := starts_width Char.utf8Size (fold query).toList [] (fold text).toList 0
  rw [List.nil_append, List.length_nil, hzero] at hwidth
  have hsorted : (0 :: starts (fun _ => 1) (fold query).toList 0 0 (fold text).toList).Pairwise (· ≤ ·) :=
    ((starts_pairwise hword).imp fun hle => by omega).cons fun _ _ => Nat.zero_le _
  have hbounds : ∀ j ∈ starts (fun _ => 1) (fold query).toList 0 0 (fold text).toList, j ≤ (fold text).toList.length := by
    intro j hj
    have := starts_bounds hword j hj
    omega
  have hscan := scan_extents (fold query).toList.length hsorted hbounds
  rw [hzero] at hscan
  rw [Pattern.occurrences, matchIndices, Pattern.new, hwidth, hscan]

def utf16Length (text : List Char) : ℕ := (text.map lenUtf16).sum

theorem occurrences_utf16 {query : String} (hquery : query ≠ "") (text : String) :
    utf16Ranges text ((Pattern.new query).occurrences text) = ((Pattern.new query).occurrences text).map fun range =>
      (utf16Length (text.toList.take range.1), utf16Length (text.toList.take range.2)) := by
  have hword := fold_ne_nil hquery
  rw [utf16Ranges, occurrences_starts hquery, List.flatMap_map, characterOffsets_eq, List.map_flatMap, List.map_map]
  · simp only [List.map_cons, List.map_nil]
    rw [pairs_flatMap]
    rfl
  · exact bounds_sorted (starts_pairwise hword)
  · intro position hposition
    obtain ⟨i, hi, hmem⟩ := List.mem_flatMap.mp hposition
    have hbounds := starts_bounds hword i hi
    rw [fold_length text] at hbounds
    simp only [List.mem_cons, List.not_mem_nil, or_false] at hmem
    omega

/-- The ranges reported are the greedy occurrences of the folded query, none of which is missed. -/
theorem occurrences_greedy (query text : String) (hquery : query ≠ "") :
    (fold text).toList.length = text.toList.length ∧
    Leftmost (fold query).toList (fold text).toList 0 (((Pattern.new query).occurrences text).map Prod.fst) ∧
    (∀ range ∈ (Pattern.new query).occurrences text,
      range.2 = range.1 + (fold query).toList.length ∧ range.2 ≤ text.toList.length) ∧
    ((Pattern.new query).occurrences text = [] ↔ (Pattern.new query).isMatch text = false) ∧
    (∀ i, (fold query).toList <+: (fold text).toList.drop i →
      ∃ range ∈ (Pattern.new query).occurrences text, range.1 < i + (fold query).toList.length ∧ i < range.2) ∧
    utf16Ranges text ((Pattern.new query).occurrences text) = ((Pattern.new query).occurrences text).map fun range =>
      (utf16Length (text.toList.take range.1), utf16Length (text.toList.take range.2)) := by
  set word := (fold query).toList
  set haystack := (fold text).toList
  set ranges := (Pattern.new query).occurrences text
  have hword : word ≠ [] := fold_ne_nil hquery
  have hpos := List.length_pos_of_ne_nil hword
  have hranges : ranges = (starts (fun _ => 1) word 0 0 haystack).map fun start => (start, start + word.length) :=
    occurrences_starts hquery text
  have hleftmost : Leftmost word haystack 0 (starts (fun _ => 1) word 0 0 haystack) := starts_leftmost hword haystack 0
  refine ⟨fold_length text, ?_, ?_, ?_, ?_, occurrences_utf16 hquery text⟩
  · rw [hranges, List.map_map]
    simpa [Function.comp_def] using hleftmost
  · rw [hranges]
    intro range hrange
    obtain ⟨start, hstart, rfl⟩ := List.mem_map.mp hrange
    have hbounds := starts_bounds hword start hstart
    rw [fold_length text] at hbounds
    exact ⟨rfl, by dsimp only; omega⟩
  · rw [hranges, List.map_eq_nil_iff, starts_eq_nil hword, Pattern.isMatch, decide_eq_false_iff_not]
    rfl
  · intro i hi
    obtain ⟨start, hstart, hle, hlt⟩ := hleftmost.overlaps (Nat.zero_le i) hi
    rw [hranges]
    exact ⟨(start, start + word.length), List.mem_map_of_mem hstart, by dsimp only; omega, hlt⟩

end Greedy

/-- The Kelvin sign lowers to a letter of one byte. -/
local instance kelvinCase : CaseMapping where
  toLowercase c := if c = '\u212a' then ['k'] else [c.toLower]
  ascii := by
    intro c hc
    have hne : c ≠ '\u212a' := by
      rintro rfl
      revert hc
      decide
    rw [if_neg hne]

theorem occurrences_greedy_kelvin :
    let word := (fold "k").toList
    let haystack := (fold "\u212aok").toList
    let ranges := (Pattern.new "k").occurrences "\u212aok"
    "k" ≠ "" ∧ haystack.length = "\u212aok".toList.length ∧ Leftmost word haystack 0 (ranges.map Prod.fst) ∧
    (∀ range ∈ ranges, range.2 = range.1 + word.length ∧ range.2 ≤ "\u212aok".toList.length) ∧
    (ranges = [] ↔ (Pattern.new "k").isMatch "\u212aok" = false) ∧
    (∀ i, word <+: haystack.drop i → ∃ range ∈ ranges, range.1 < i + word.length ∧ i < range.2) ∧
    utf16Ranges "\u212aok" ranges = ranges.map fun range =>
      (utf16Length ("\u212aok".toList.take range.1), utf16Length ("\u212aok".toList.take range.2)) :=
  ⟨by decide, occurrences_greedy "k" "\u212aok" (by decide)⟩

end AbyssBackend.Search
