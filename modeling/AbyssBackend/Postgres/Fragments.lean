import AbyssBackend.Library.Markers
import AbyssBackend.Search.Query

namespace AbyssBackend.Postgres

open Markers Search

def highlightStart : List Char := "[[[ABYSS_SEARCH_HIGHLIGHT_START]]]".toList

def highlightEnd : List Char := "[[[ABYSS_SEARCH_HIGHLIGHT_END]]]".toList

def pushFragmentSegment (segments : List SearchFragmentSegment) (text : List Char) (highlighted : Bool) :
    List SearchFragmentSegment :=
  if text = [] then segments else segments ++ [⟨String.ofList text, highlighted⟩]

/-- The segments with those of the remainder; `none` is where an `expect` fails. -/
def parseFrom (segments : List SearchFragmentSegment) (remainder : List Char) : Option (List SearchFragmentSegment) :=
  match find highlightStart remainder with
  | none => some (pushFragmentSegment segments remainder false)
  | some start =>
    let tagged := remainder.drop start
    let segments := pushFragmentSegment segments (remainder.take start) false
    match _hstart : stripPrefix highlightStart tagged with
    | none => none
    | some highlighted =>
      match find highlightEnd highlighted with
      | none => some (pushFragmentSegment (pushFragmentSegment segments tagged false) [] false)
      | some finish =>
        match _hfinish : stripPrefix highlightEnd (highlighted.drop finish) with
        | none => none
        | some rest => parseFrom (pushFragmentSegment segments (highlighted.take finish) true) rest
termination_by remainder.length
decreasing_by
  have hafter := congrArg List.length (stripPrefix_eq_some _hfinish)
  have hbefore := congrArg List.length (stripPrefix_eq_some _hstart)
  have hmarker : 0 < highlightStart.length := by decide
  simp only [tagged, List.length_drop, List.length_append] at hafter hbefore
  omega

def parseFragment (fragment : String) : Option SearchFragment := (parseFrom [] fragment.toList).map SearchFragment.mk

/-- A text as pairs of markers divide it: what is before and in each pair, and the rest. -/
def marked (pairs : List (List Char × List Char)) (tail : List Char) : List Char :=
  (pairs.flatMap fun pair => pair.1 ++ (highlightStart ++ (pair.2 ++ highlightEnd))) ++ tail

/-- The text without the markers of its pairs. -/
def unmarked (pairs : List (List Char × List Char)) (tail : List Char) : List Char :=
  (pairs.flatMap fun pair => pair.1 ++ pair.2) ++ tail

/-- The pairs that are recognised: each is the first one there is, and no pair is left. -/
structure Recognised (pairs : List (List Char × List Char)) (tail : List Char) : Prop where
  before : ∀ pair ∈ pairs, ¬ highlightStart <:+: pair.1
  inside : ∀ pair ∈ pairs, ¬ highlightEnd <:+: pair.2
  tail : ¬ ∃ before inside after, tail = before ++ (highlightStart ++ (inside ++ (highlightEnd ++ after)))

/-- Segments that show a text as its recognised pairs divide it. -/
structure Shows (text : List Char) (segments : List SearchFragmentSegment) : Prop where
  nonempty : ∀ segment ∈ segments, segment.text ≠ ""
  divided : ∃ pairs tail, Recognised pairs tail ∧ text = marked pairs tail ∧
    segments.flatMap (fun segment => segment.text.toList) = unmarked pairs tail ∧
    (segments.filter SearchFragmentSegment.highlighted).map (fun segment => segment.text.toList) =
      (pairs.map Prod.snd).filter (· ≠ [])

/-- The string that segments are written as. -/
def render (segments : List SearchFragmentSegment) : List Char :=
  segments.flatMap fun segment =>
    if segment.highlighted then highlightStart ++ (segment.text.toList ++ highlightEnd) else segment.text.toList

/-- Segments that their string tells apart. -/
structure WellMarked (segments : List SearchFragmentSegment) : Prop where
  nonempty : ∀ segment ∈ segments, segment.text ≠ ""
  apart : segments.IsChain fun first second => first.highlighted = true ∨ second.highlighted = true
  plain : ∀ segment ∈ segments, segment.highlighted = false → ¬ highlightStart <:+: segment.text.toList
  highlighted : ∀ segment ∈ segments, segment.highlighted = true → ¬ highlightEnd <:+: segment.text.toList

section Parse

variable {segments rest' : List SearchFragmentSegment} {plain inside rest : List Char}

theorem highlightStart_separate : Separate highlightStart highlightStart := separate_of_forall (by decide)

theorem highlightEnd_separate : Separate highlightEnd highlightEnd := separate_of_forall (by decide)

theorem highlightStart_ne_nil : highlightStart ≠ [] := by decide

theorem highlightEnd_ne_nil : highlightEnd ≠ [] := by decide

theorem parseFrom_pair (hplain : ¬ highlightStart <:+: plain) (hinside : ¬ highlightEnd <:+: inside) :
    parseFrom segments (plain ++ (highlightStart ++ (inside ++ (highlightEnd ++ rest)))) =
      parseFrom (pushFragmentSegment (pushFragmentSegment segments plain false) inside true) rest := by
  have hfind : find highlightStart (plain ++ (highlightStart ++ (inside ++ (highlightEnd ++ rest)))) =
      some plain.length := find_append highlightStart_ne_nil highlightStart_separate hplain _
  have hfinish : find highlightEnd (inside ++ (highlightEnd ++ rest)) = some inside.length :=
    find_append highlightEnd_ne_nil highlightEnd_separate hinside rest
  rw [parseFrom, hfind]
  simp only [List.drop_left, List.take_left]
  split
  · next hnone =>
    rw [List.drop_left, stripPrefix_append] at hnone
    cases hnone
  · next highlighted hsome =>
    rw [List.drop_left, stripPrefix_append] at hsome
    cases hsome
    rw [hfinish]
    simp only [List.take_left]
    split
    · next hnone =>
      rw [List.drop_left, stripPrefix_append] at hnone
      cases hnone
    · next after hsome =>
      rw [List.drop_left, stripPrefix_append] at hsome
      cases hsome
      rfl

theorem push_eq (segments : List SearchFragmentSegment) (text : List Char) (highlighted : Bool) : ∃ pieces,
    pushFragmentSegment segments text highlighted = segments ++ pieces ∧
      (∀ piece ∈ pieces, piece.text ≠ "" ∧ piece.highlighted = highlighted) ∧
      pieces.flatMap (fun piece => piece.text.toList) = text ∧
      pieces.map (fun piece => piece.text.toList) = [text].filter (· ≠ []) := by
  by_cases htext : text = []
  · refine ⟨[], ?_, by simp, by simp [htext], by simp [htext]⟩
    rw [pushFragmentSegment, if_pos htext, List.append_nil]
  · refine ⟨[⟨String.ofList text, highlighted⟩], by rw [pushFragmentSegment, if_neg htext], ?_, by simp,
      by simp [htext]⟩
    intro piece hpiece
    rw [List.mem_singleton.mp hpiece]
    exact ⟨by simpa using htext, rfl⟩

theorem parseFrom_tail (h : Recognised [] rest) : ∃ pieces, parseFrom segments rest = some (segments ++ pieces) ∧
    (∀ piece ∈ pieces, piece.text ≠ "" ∧ piece.highlighted = false) ∧
    pieces.flatMap (fun piece => piece.text.toList) = rest := by
  cases hfind : find highlightStart rest with
  | none =>
    obtain ⟨pieces, hpush, hpieces, htext, -⟩ := push_eq segments rest false
    refine ⟨pieces, ?_, hpieces, htext⟩
    rw [parseFrom, hfind, hpush]
  | some start =>
    -- a start marker that nothing closes stays in the text
    obtain ⟨before, after, rfl, rfl, -⟩ := find_split highlightStart_ne_nil hfind
    have hunclosed : find highlightEnd after = none := by
      rw [find_eq_none highlightEnd_ne_nil]
      rintro ⟨inside, last, hsplit⟩
      rw [← hsplit, List.append_assoc] at h
      exact h.tail ⟨before, inside, last, rfl⟩
    obtain ⟨first, hfirst, hplain, hbefore, -⟩ := push_eq segments before false
    obtain ⟨second, hsecond, htagged, hafter, -⟩ := push_eq (segments ++ first) (highlightStart ++ after) false
    refine ⟨first ++ second, ?_, ?_, ?_⟩
    · rw [parseFrom, hfind]
      simp only [List.drop_left, List.take_left]
      split
      · next hnone =>
        rw [List.drop_left, stripPrefix_append] at hnone
        cases hnone
      · next highlighted hsome =>
        rw [List.drop_left, stripPrefix_append] at hsome
        cases hsome
        rw [hunclosed, hfirst, hsecond, pushFragmentSegment, if_pos rfl, List.append_assoc]
    · intro piece hpiece
      obtain hpiece | hpiece := List.mem_append.mp hpiece
      · exact hplain piece hpiece
      · exact htagged piece hpiece
    · rw [List.flatMap_append, hbefore, hafter]

theorem marked_cons (pair : List Char × List Char) (pairs : List (List Char × List Char)) (tail : List Char) :
    marked (pair :: pairs) tail =
      pair.1 ++ (highlightStart ++ (pair.2 ++ (highlightEnd ++ marked pairs tail))) := by
  simp [marked]

theorem Recognised.of_cons {pair : List Char × List Char} {pairs : List (List Char × List Char)} {tail : List Char}
    (h : Recognised (pair :: pairs) tail) : Recognised pairs tail :=
  ⟨fun other hother => h.before other (List.mem_cons_of_mem _ hother),
    fun other hother => h.inside other (List.mem_cons_of_mem _ hother), h.tail⟩

theorem end_after_first {start : ℕ} {text before after front back : List Char}
    (htext : text = before ++ (highlightStart ++ (inside ++ (highlightEnd ++ after)))) (hstart : start ≤ before.length)
    (hfront : text = front ++ (highlightStart ++ back)) (hlength : front.length = start) : highlightEnd <:+: back := by
  have hback : back = text.drop (start + highlightStart.length) := by
    rw [hfront, ← hlength, ← List.append_assoc, ← List.length_append, List.drop_left]
  have hsplit : text = (before ++ (highlightStart ++ inside)) ++ (highlightEnd ++ after) := by
    rw [htext]
    simp only [List.append_assoc]
  rw [hback, hsplit, List.drop_append_of_le_length]
  · exact List.infix_append' _ _ _
  · simp only [List.length_append]
    omega

/-- Whatever a text is, the loop takes its pairs one by one. -/
theorem exists_recognised (text : List Char) : ∃ pairs tail, Recognised pairs tail ∧ text = marked pairs tail := by
  induction hlength : text.length using Nat.strong_induction_on generalizing text with
  | h length ih =>
    by_cases htail : ∃ before inside after, text = before ++ (highlightStart ++ (inside ++ (highlightEnd ++ after)))
    · -- the first start marker and the first end marker after it are the pair of this turn
      obtain ⟨before, inside, after, htext⟩ := htail
      have hplace : highlightStart <+: text.drop before.length := by
        rw [htext, List.drop_left]
        exact List.prefix_append _ _
      obtain ⟨start, hstart, hfind⟩ := find_le hplace
      obtain ⟨front, back, hfront, hlengthFront, hbefore⟩ := find_split highlightStart_ne_nil hfind
      have hend := end_after_first htext hstart hfront hlengthFront
      obtain ⟨finish, hfinish⟩ : ∃ finish, find highlightEnd back = some finish := by
        apply Option.ne_none_iff_exists'.mp
        intro hnone
        exact (find_eq_none highlightEnd_ne_nil).mp hnone hend
      obtain ⟨first, rest, rfl, -, hinside⟩ := find_split highlightEnd_ne_nil hfinish
      have hshorter : rest.length < length := by
        have hmarker : 0 < highlightStart.length := by decide
        rw [← hlength, hfront]
        simp only [List.length_append]
        omega
      obtain ⟨pairs, tail, hpairs, rfl⟩ := ih rest.length hshorter rest rfl
      refine ⟨(front, first) :: pairs, tail, ⟨?_, ?_, hpairs.tail⟩, ?_⟩
      · exact List.forall_mem_cons.mpr ⟨hbefore, hpairs.before⟩
      · exact List.forall_mem_cons.mpr ⟨hinside, hpairs.inside⟩
      · rw [hfront, marked_cons]
    · exact ⟨[], text, ⟨by simp, by simp, htail⟩, rfl⟩

/-- The pairs of a text, one after the other, and what is left. -/
theorem parseFrom_marked {pairs : List (List Char × List Char)} {tail : List Char} (h : Recognised pairs tail)
    (segments : List SearchFragmentSegment) : ∃ pieces,
      parseFrom segments (marked pairs tail) = some (segments ++ pieces) ∧
      (∀ piece ∈ pieces, piece.text ≠ "") ∧
      pieces.flatMap (fun piece => piece.text.toList) = unmarked pairs tail ∧
      (pieces.filter SearchFragmentSegment.highlighted).map (fun piece => piece.text.toList) =
        (pairs.map Prod.snd).filter (· ≠ []) := by
  induction pairs generalizing segments with
  | nil =>
    obtain ⟨pieces, hparse, hpieces, htext⟩ := @parseFrom_tail segments tail h
    refine ⟨pieces, hparse, fun piece hpiece => (hpieces piece hpiece).1, htext, ?_⟩
    rw [List.filter_eq_nil_iff.mpr fun piece hpiece => by simp [(hpieces piece hpiece).2]]
    rfl
  | cons pair pairs ih =>
    obtain ⟨first, hfirst, hplain, hbefore, -⟩ := push_eq segments pair.1 false
    obtain ⟨second, hsecond, hmatched, hinside, hshown⟩ := push_eq (segments ++ first) pair.2 true
    obtain ⟨pieces, hparse, hpieces, htext, hhighlighted⟩ := ih h.of_cons (segments ++ first ++ second)
    have hnone : first.filter SearchFragmentSegment.highlighted = [] :=
      List.filter_eq_nil_iff.mpr fun piece hpiece => by simp [(hplain piece hpiece).2]
    have hall : second.filter SearchFragmentSegment.highlighted = second :=
      List.filter_eq_self.mpr fun piece hpiece => (hmatched piece hpiece).2
    refine ⟨first ++ second ++ pieces, ?_, ?_, ?_, ?_⟩
    · rw [marked_cons, parseFrom_pair (h.before pair List.mem_cons_self) (h.inside pair List.mem_cons_self), hfirst,
        hsecond, hparse]
      simp only [List.append_assoc]
    · intro piece hpiece
      simp only [List.mem_append] at hpiece
      obtain (hpiece | hpiece) | hpiece := hpiece
      · exact (hplain piece hpiece).1
      · exact (hmatched piece hpiece).1
      · exact hpieces piece hpiece
    · rw [List.flatMap_append, List.flatMap_append, hbefore, hinside, htext]
      simp [unmarked]
    · rw [List.filter_append, List.filter_append, hnone, hall, List.nil_append, List.map_append, hshown, hhighlighted,
        List.map_cons, ← List.filter_append]
      rfl

theorem parseFragment_shows (fragment : String) :
    ∃ segments, parseFragment fragment = some ⟨segments⟩ ∧ Shows fragment.toList segments := by
  obtain ⟨pairs, tail, hpairs, htext⟩ := exists_recognised fragment.toList
  obtain ⟨segments, hparse, hnonempty, hsegments, hhighlighted⟩ := parseFrom_marked hpairs []
  refine ⟨segments, ?_, hnonempty, pairs, tail, hpairs, htext, hsegments, hhighlighted⟩
  rw [parseFragment, htext, hparse]
  rfl

theorem WellMarked.of_cons {segment : SearchFragmentSegment} (h : WellMarked (segment :: segments)) :
    WellMarked segments :=
  ⟨fun other hother => h.nonempty other (List.mem_cons_of_mem _ hother), h.apart.of_cons,
    fun other hother => h.plain other (List.mem_cons_of_mem _ hother),
    fun other hother => h.highlighted other (List.mem_cons_of_mem _ hother)⟩

theorem push_segment (segments : List SearchFragmentSegment) {segment : SearchFragmentSegment}
    (h : segment.text ≠ "") :
    pushFragmentSegment segments segment.text.toList segment.highlighted = segments ++ [segment] := by
  rw [pushFragmentSegment, if_neg (by simpa using h), String.ofList_toList]

theorem parseFrom_plain (h : ¬ highlightStart <:+: plain) :
    parseFrom segments plain = some (pushFragmentSegment segments plain false) := by
  rw [parseFrom, (find_eq_none highlightStart_ne_nil).mpr h]

theorem parseFrom_highlighted {segment : SearchFragmentSegment} (h : WellMarked (segment :: rest'))
    (hsegment : segment.highlighted = true) (hplain : ¬ highlightStart <:+: plain)
    (hrest : ∀ before, parseFrom before (render rest') = some (before ++ rest')) :
    parseFrom segments (plain ++ render (segment :: rest')) =
      some (pushFragmentSegment segments plain false ++ segment :: rest') := by
  have hrender : render (segment :: rest') =
      highlightStart ++ (segment.text.toList ++ (highlightEnd ++ render rest')) := by
    simp [render, hsegment]
  have hpush := push_segment (pushFragmentSegment segments plain false) (h.nonempty segment List.mem_cons_self)
  rw [hsegment] at hpush
  rw [hrender, parseFrom_pair hplain (h.highlighted segment List.mem_cons_self hsegment), hpush, hrest,
    List.append_assoc]
  rfl

theorem parseFrom_render (h : WellMarked segments) (before : List SearchFragmentSegment) :
    parseFrom before (render segments) = some (before ++ segments) := by
  induction hlength : segments.length using Nat.strong_induction_on generalizing segments before with
  | h length ih =>
    cases segments with
    | nil =>
      rw [List.append_nil]
      exact parseFrom_plain (by decide)
    | cons segment rest =>
      cases hsegment : segment.highlighted with
      | true =>
        have hrest : ∀ before, parseFrom before (render rest) = some (before ++ rest) := fun before =>
          ih rest.length (by rw [← hlength]; exact Nat.lt_succ_self _) h.of_cons before rfl
        have hparse := @parseFrom_highlighted before rest [] segment h hsegment (by decide) hrest
        rw [List.nil_append] at hparse
        exact hparse
      | false =>
        have hplain := h.plain segment List.mem_cons_self hsegment
        have hpush := push_segment before (h.nonempty segment List.mem_cons_self)
        rw [hsegment] at hpush
        cases rest with
        | nil =>
          have hrender : render [segment] = segment.text.toList := by simp [render, hsegment]
          rw [hrender, parseFrom_plain hplain, hpush]
        | cons next rest =>
          have hnext : next.highlighted = true := by
            obtain hfirst | hnext := h.apart.rel
            · rw [hsegment] at hfirst
              cases hfirst
            · exact hnext
          have hshorter : rest.length < length := by
            simp only [List.length_cons] at hlength
            omega
          have hrest : ∀ before, parseFrom before (render rest) = some (before ++ rest) := fun before =>
            ih rest.length hshorter h.of_cons.of_cons before rfl
          have hrender : render (segment :: next :: rest) = segment.text.toList ++ render (next :: rest) := by
            simp [render, hsegment]
          rw [hrender, parseFrom_highlighted h.of_cons hnext hplain hrest, hpush, List.append_assoc]
          rfl

/-- Parsing undoes highlighting, and takes nothing but the markers of pairs from any string. -/
theorem parseFragment_correct :
    (∀ segments, WellMarked segments → parseFragment (String.ofList (render segments)) = some ⟨segments⟩) ∧
    ∀ fragment, ∃ segments, parseFragment fragment = some ⟨segments⟩ ∧ Shows fragment.toList segments := by
  refine ⟨fun segments h => ?_, parseFragment_shows⟩
  rw [parseFragment, String.toList_ofList, parseFrom_render h]
  rfl

theorem parseFragment_correct_around :
    parseFragment (String.ofList (render [⟨"the [[[", false⟩, ⟨"cut", true⟩, ⟨"]]] text", false⟩])) =
      some ⟨[⟨"the [[[", false⟩, ⟨"cut", true⟩, ⟨"]]] text", false⟩]⟩ := by
  apply parseFragment_correct.1
  exact ⟨by decide, by decide, by decide, by decide⟩

end Parse

end AbyssBackend.Postgres
