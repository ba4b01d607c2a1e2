import AbyssBackend.Search.Occurrences

namespace AbyssBackend.Search

open Occurrences Text

section Naive

variable [CaseMapping]

def naiveFold (text : String) : List Char :=
  text.toList.map fun c => match CaseMapping.toLowercase c with
    | [folded] => folded
    | _ => c

/-- Where the needle is, sliding over the haystack and past what is found. -/
def naiveStarts (haystack needle : List Char) : ℕ → ℕ → List ℕ
  | 0, _ => []
  | fuel + 1, start =>
    if needle.length ≤ (haystack.drop start).length then
      if (haystack.drop start).take needle.length = needle then
        start :: naiveStarts haystack needle fuel (start + needle.length)
      else naiveStarts haystack needle fuel (start + 1)
    else []

/-- Non-overlapping occurrences of the trimmed query as ranges of UTF-16 code units. -/
def naiveRanges (text query : String) : List (ℕ × ℕ) :=
  let needle := naiveFold (trim query)
  let utf16 := fun finish => ((text.toList.take finish).map lenUtf16).sum
  (naiveStarts (naiveFold text) needle (text.toList.length + 1) 0).map fun start =>
    (utf16 start, utf16 (start + needle.length))

def naiveHolds (text query : String) : Bool := naiveFold (trim query) <:+: naiveFold text

theorem fold_naive (text : String) : (fold text).toList = naiveFold text := by
  rw [fold_toList]
  exact List.map_congr_left fun c _ => foldChar_eq c

theorem naiveFold_length (text : String) : (naiveFold text).length = text.toList.length := List.length_map ..

omit [CaseMapping] in
theorem naiveStarts_eq {haystack needle : List Char} (hneedle : needle ≠ []) {fuel start : ℕ}
    (hfuel : haystack.length < fuel + start) :
    naiveStarts haystack needle fuel start = starts (fun _ => 1) needle 0 start (haystack.drop start) := by
  have hpos := List.length_pos_of_ne_nil hneedle
  induction fuel generalizing start with
  | zero => rw [naiveStarts, List.drop_eq_nil_of_le (by omega), starts]
  | succ fuel ih =>
    unfold naiveStarts
    split
    · next hlength =>
      rw [starts_drop hneedle (by rw [List.length_drop] at hlength; omega)]
      by_cases hstarts : needle <+: haystack.drop start
      · rw [if_pos (List.prefix_iff_eq_take.mp hstarts).symm, if_pos hstarts, ih (by omega)]
      · rw [if_neg fun htake => hstarts (List.prefix_iff_eq_take.mpr htake.symm), if_neg hstarts, ih (by omega)]
    · next hlength =>
      refine (List.eq_nil_iff_forall_not_mem.mpr fun i hi => ?_).symm
      have hbounds := starts_bounds hneedle i hi
      omega

section Query

variable {query : String} (hquery : trim query ≠ "")

include hquery

theorem naiveFold_ne_nil : naiveFold (trim query) ≠ [] := fold_naive _ ▸ fold_ne_nil hquery

omit hquery in
theorem pattern_folded : (Pattern.new query).folded.toList = naiveFold query := fold_naive _

theorem occurrences_eq (text : String) :
    (Pattern.new (trim query)).occurrences text =
      (naiveStarts (naiveFold text) (naiveFold (trim query)) (text.toList.length + 1) 0).map
        fun start => (start, start + (naiveFold (trim query)).length) := by
  have hlength := naiveFold_length text
  rw [occurrences_starts hquery, fold_naive, fold_naive, naiveStarts_eq (naiveFold_ne_nil hquery) (by omega),
    List.drop_zero]

theorem utf16Ranges_eq (text : String) :
    utf16Ranges text ((Pattern.new (trim query)).occurrences text) = naiveRanges text query := by
  rw [occurrences_utf16 hquery, occurrences_eq hquery, List.map_map, naiveRanges]
  rfl

theorem occurrences_eq_nil (text : String) :
    (Pattern.new (trim query)).occurrences text = [] ↔ naiveHolds text query = false := by
  rw [occurrences_eq hquery, List.map_eq_nil_iff, naiveStarts_eq (naiveFold_ne_nil hquery), List.drop_zero,
    starts_eq_nil (naiveFold_ne_nil hquery), naiveHolds, decide_eq_false_iff_not]
  rw [naiveFold_length]
  omega

omit hquery in
theorem isMatch_eq (text : String) : (Pattern.new (trim query)).isMatch text = naiveHolds text query := by
  simp only [Pattern.isMatch, naiveHolds, fold_naive, pattern_folded]

end Query

end Naive

end AbyssBackend.Search
