import AbyssBackend.Library.Slices
import AbyssBackend.Search.Fragment
import AbyssBackend.Search.Occurrences

namespace AbyssBackend.Search

open Occurrences Slices Text

/-- What a window must be: as wide as a fragment, or as what it is for, where the text is that long. -/
structure Around (first : ℕ × ℕ) (characters : ℕ) (window : ℕ × ℕ) : Prop where
  start_le : window.1 ≤ first.1
  le_finish : first.2 ≤ window.2
  finish_le : window.2 ≤ characters
  width : window.2 - window.1 = min characters (max fragmentCharacters (first.2 - first.1))

theorem window_around {first : ℕ × ℕ} {characters : ℕ} (hfirst : first.1 < first.2) (hle : first.2 ≤ characters) :
    Around first characters (window first characters) := by
  constructor <;> simp only [window] <;> omega

def segment (part : List Char × Bool) : SearchFragmentSegment := ⟨String.ofList part.1, part.2⟩

def shown (segment : SearchFragmentSegment) : List Char × Bool := (segment.text.toList, segment.highlighted)

theorem pushSegment_eq (segments : List SearchFragmentSegment) (text : List Char) (highlighted : Bool) :
    pushSegment segments text highlighted = segments ++ (part text highlighted).map segment := by
  cases text <;> simp [pushSegment, part, segment]

theorem highlights_foldlM (text : List Char) {start finish : ℕ} {visible : List (ℕ × ℕ)}
    (h : Apart start visible finish) (segments : List SearchFragmentSegment) :
    ∃ marked last, (visible.map fun range =>
        (extent Char.utf8Size text range.1, extent Char.utf8Size text range.2)).foldlM
      (fun reached range => (byteSlice text reached.2 range.1).bind fun before =>
        (byteSlice text range.1 range.2).bind fun marked =>
          some (pushSegment (pushSegment reached.1 before false) marked true, range.2))
      (segments, extent Char.utf8Size text start) = some marked ∧
      byteSlice text marked.2 (extent Char.utf8Size text finish) = some last ∧
      pushSegment marked.1 last false = segments ++ (parts text start visible finish).map segment := by
  induction visible generalizing start segments with
  | nil => exact ⟨_, _, rfl, byteSlice_extent h, pushSegment_eq _ _ _⟩
  | cons range visible ih =>
    obtain ⟨hstart, hrange, hrest⟩ := h
    obtain ⟨marked, last, hfold, hlast, hpush⟩ := ih hrest (pushSegment (pushSegment segments
      (slice text start range.1) false) (slice text range.1 range.2) true)
    refine ⟨marked, last, ?_, hlast, ?_⟩
    · rw [List.map_cons, List.foldlM_cons, byteSlice_extent hstart, Option.bind_some, byteSlice_extent hrange.le]
      exact hfold
    · rw [hpush, pushSegment_eq, pushSegment_eq, parts]
      simp

section Ellipses

variable {segments : List SearchFragmentSegment}

theorem cutBefore_text (segments : List SearchFragmentSegment) :
    ((cutBefore segments).map shown).flatMap Prod.fst = ellipsis.toList ++ (segments.map shown).flatMap Prod.fst := by
  cases segments with
  | nil => simp [cutBefore, plain, shown]
  | cons segment rest =>
    rw [cutBefore]
    split <;> simp [plain, shown]

theorem cutBefore_marks (i : ℕ) (segments : List SearchFragmentSegment) :
    marks i ((cutBefore segments).map shown) = marks (i + 1) (segments.map shown) := by
  have hellipsis : ellipsis.toList.length = 1 := by decide
  cases segments with
  | nil => simp [cutBefore, plain, shown, marks]
  | cons segment rest =>
    rw [cutBefore]
    split
    · next h => simp [plain, shown, marks, h, hellipsis]
    · next h => simp [shown, marks, h, hellipsis, Nat.add_assoc]

theorem cutBefore_ne_empty (h : ∀ segment ∈ segments, segment.text ≠ "") :
    ∀ segment ∈ cutBefore segments, segment.text ≠ "" := by
  have hellipsis : ellipsis ≠ "" := by decide
  cases segments with
  | nil => simpa [cutBefore, plain] using hellipsis
  | cons segment rest =>
    obtain ⟨hfirst, hrest⟩ := List.forall_mem_cons.mp h
    rw [cutBefore]
    split
    · simpa [plain, hellipsis, hfirst] using hrest
    · simpa [hellipsis] using hrest

theorem cutAfter_concat (segments : List SearchFragmentSegment) (last : SearchFragmentSegment) :
    cutAfter (segments ++ [last]) = if last.highlighted then segments ++ [last, plain ellipsis]
      else segments ++ [{ last with text := last.text ++ ellipsis }] := by
  simp [cutAfter]

theorem cutAfter_text (segments : List SearchFragmentSegment) :
    ((cutAfter segments).map shown).flatMap Prod.fst = (segments.map shown).flatMap Prod.fst ++ ellipsis.toList := by
  rcases List.eq_nil_or_concat' segments with rfl | ⟨front, last, rfl⟩
  · simp [cutAfter, plain, shown]
  · rw [cutAfter_concat]
    split <;> simp [plain, shown]

theorem cutAfter_marks (i : ℕ) (segments : List SearchFragmentSegment) :
    marks i ((cutAfter segments).map shown) = marks i (segments.map shown) := by
  rcases List.eq_nil_or_concat' segments with rfl | ⟨front, last, rfl⟩
  · simp [cutAfter, plain, shown, marks]
  · rw [cutAfter_concat]
    split
    · next h => simp [marks_append, plain, shown, marks, h]
    · next h => simp [marks_append, shown, marks, h]

theorem cutAfter_ne_empty (h : ∀ segment ∈ segments, segment.text ≠ "") :
    ∀ segment ∈ cutAfter segments, segment.text ≠ "" := by
  have hellipsis : ellipsis ≠ "" := by decide
  rcases List.eq_nil_or_concat' segments with rfl | ⟨front, last, rfl⟩
  · simpa [cutAfter, plain] using hellipsis
  · obtain ⟨hfront, hlast⟩ := List.forall_mem_append.mp h
    rw [cutAfter_concat]
    split
    · exact List.forall_mem_append.mpr ⟨hfront, by simpa [plain, hellipsis] using hlast⟩
    · exact List.forall_mem_append.mpr ⟨hfront, by simp [hellipsis]⟩

end Ellipses

theorem visible_eq {start finish : ℕ} (h : start < finish) {occurrences : List (ℕ × ℕ)}
    (hranges : ∀ range ∈ occurrences, range.1 < range.2) :
    ((occurrences.filter fun occurrence => occurrence.1 < finish && occurrence.2 > start).map fun occurrence =>
      (max occurrence.1 start, min occurrence.2 finish)) = clip start finish occurrences := by
  rw [clip, List.filter_map]
  congr 1
  apply List.filter_congr
  intro range hrange
  have := hranges range hrange
  simp only [Function.comp_apply, gt_iff_lt, ← Bool.decide_and, decide_eq_decide]
  omega

theorem fragment_eq {text : String} {first : ℕ × ℕ} {rest : List (ℕ × ℕ)} {start finish : ℕ}
    (hwindow : window first text.toList.length = (start, finish)) (hlt : start < finish)
    (hfinish : finish ≤ text.toList.length) (hranges : ∀ range ∈ first :: rest, range.1 < range.2)
    (hsorted : (first :: rest).Pairwise fun r s => r.2 ≤ s.1) :
    ∃ segments, fragment text (first :: rest) = some ⟨segments⟩ ∧
      segments =
        let shown := (parts text.toList start (clip start finish (first :: rest)) finish).map segment
        let shown := if start > 0 then cutBefore shown else shown
        if finish < text.toList.length then cutAfter shown else shown := by
  refine ⟨_, ?_, rfl⟩
  have hapart : Apart start (clip start finish (first :: rest)) finish :=
    clip_apart hsorted (fun _ _ => le_max_right _ _) hlt.le
  have hbounds := hapart.bounds
  have hpairwise := List.isChain_iff_pairwise.mp hbounds
  have hwithin : ∀ position ∈
      start :: (clip start finish (first :: rest)).flatMap (fun range => [range.1, range.2]) ++ [finish],
      position ≤ text.toList.length := by
    intro position hposition
    rcases List.mem_append.mp hposition with hposition | hposition
    · exact ((List.pairwise_append.mp hpairwise).2.2 position hposition finish (by simp)).trans hfinish
    · simpa [List.mem_singleton.mp hposition] using hfinish
  have hoffsets := characterOffsets_eq Char.utf8Size hpairwise hwithin
  have hvisible := visible_eq hlt hranges
  obtain ⟨marked, last, hfold, hlast, hpush⟩ := highlights_foldlM text.toList hapart []
  simp only [fragment, List.head?_cons, Option.bind_eq_bind, Option.bind_some, hwindow]
  rw [hvisible, hoffsets]
  simp only [List.cons_append, List.map_cons, List.head?_cons, List.tail_cons, List.map_append, List.map_nil,
    List.getLast?_concat, List.dropLast_concat, Option.bind_some, List.map_flatMap, pairs_flatMap, Option.pure_def]
  rw [hfold, Option.bind_some, hlast, Option.bind_some, hpush, List.nil_append]

/-- A fragment shows the text of its window, with an ellipsis where it is cut, and highlights the
parts of the occurrences that the window holds. An ellipsis before the window stands one character
before its start. -/
theorem fragment_shows (text : String) (occurrences : List (ℕ × ℕ)) (hne : occurrences ≠ [])
    (hranges : ∀ range ∈ occurrences, range.1 < range.2 ∧ range.2 ≤ text.toList.length)
    (hsorted : occurrences.Pairwise fun r s => r.2 ≤ s.1) :
    ∃ shownFragment first start finish, fragment text occurrences = some shownFragment ∧
      occurrences.head? = some first ∧ Around first text.toList.length (start, finish) ∧
      (shownFragment.segments.map shown).flatMap Prod.fst =
        (if 0 < start then ellipsis.toList else []) ++ slice text.toList start finish ++
          (if finish < text.toList.length then ellipsis.toList else []) ∧
      marks (start - 1) (shownFragment.segments.map shown) = clip start finish occurrences ∧
      ∀ segment ∈ shownFragment.segments, segment.text ≠ "" := by
  obtain ⟨first, rest, rfl⟩ := List.exists_cons_of_ne_nil hne
  obtain ⟨hfirst, hle⟩ := hranges first (by simp)
  have haround := window_around hfirst hle
  generalize hwindow : window first text.toList.length = shownWindow at haround
  obtain ⟨start, finish⟩ := shownWindow
  have hlt : start < finish := by
    have := haround.start_le
    have := haround.le_finish
    dsimp only at *
    omega
  have hapart : Apart start (clip start finish (first :: rest)) finish :=
    clip_apart hsorted (fun _ _ => le_max_right _ _) hlt.le
  obtain ⟨segments, hfragment, hsegments⟩ :=
    fragment_eq hwindow hlt haround.finish_le (fun range hrange => (hranges range hrange).1) hsorted
  refine ⟨⟨segments⟩, first, start, finish, hfragment, rfl, haround, ?_⟩
  generalize hcuts : (parts text.toList start (clip start finish (first :: rest)) finish).map segment = cuts at hsegments
  have hshown : cuts.map shown = parts text.toList start (clip start finish (first :: rest)) finish := by
    rw [← hcuts, List.map_map]
    simp [Function.comp_def, segment, shown]
  have htext := parts_concat text.toList hapart
  have hmarks := parts_marks hapart haround.finish_le
  have hnonempty : ∀ segment ∈ cuts, segment.text ≠ "" := by
    rw [← hcuts]
    intro shownSegment hmem
    obtain ⟨part, hpart, rfl⟩ := List.mem_map.mp hmem
    have := parts_ne_nil _ _ _ _ part hpart
    simpa [segment] using this
  rw [← hshown] at htext hmarks
  -- the segments with the text before the window cut off
  obtain ⟨before, hbefore⟩ : ∃ before, before = if start > 0 then cutBefore cuts else cuts := ⟨_, rfl⟩
  have hcutBefore : (before.map shown).flatMap Prod.fst =
      (if 0 < start then ellipsis.toList else []) ++ slice text.toList start finish ∧
      marks (start - 1) (before.map shown) = clip start finish (first :: rest) ∧
      ∀ segment ∈ before, segment.text ≠ "" := by
    rw [hbefore]
    by_cases hstart : 0 < start
    · have hstart' : start - 1 + 1 = start := by omega
      rw [if_pos hstart, if_pos hstart, cutBefore_text, cutBefore_marks, hstart', htext, hmarks]
      exact ⟨rfl, rfl, cutBefore_ne_empty hnonempty⟩
    · obtain rfl : start = 0 := by omega
      simpa [htext, hmarks] using hnonempty
  obtain ⟨hbeforeText, hbeforeMarks, hbeforeNonempty⟩ := hcutBefore
  dsimp only at hsegments ⊢
  rw [hsegments, ← hbefore]
  split
  · rw [cutAfter_text, cutAfter_marks, hbeforeText]
    exact ⟨rfl, hbeforeMarks, cutAfter_ne_empty hbeforeNonempty⟩
  · rw [List.append_nil]
    exact ⟨hbeforeText, hbeforeMarks, hbeforeNonempty⟩

/-- Two matches far from both ends of their text. -/
def haystack : List Char :=
  List.replicate 130 'a' ++ "needle".toList ++ List.replicate 40 'b' ++ "Needle".toList ++ List.replicate 200 'c'

theorem haystack_length : (String.ofList haystack).toList.length = 382 := by
  rw [String.toList_ofList]
  decide +kernel

theorem haystack_highlights : (fragment (String.ofList haystack) [(130, 136), (176, 182)]).map
    (fun shownFragment => shownFragment.segments.map SearchFragmentSegment.highlighted) =
      some [false, true, false, true, false] := by
  simp only [fragment, characterOffsets, String.toList_ofList]
  decide +kernel

theorem fragment_shows_needle :
    let text := String.ofList haystack
    window (130, 136) text.toList.length = (13, 253) ∧
    (fragment text [(130, 136), (176, 182)]).map
        (fun shownFragment => shownFragment.segments.map SearchFragmentSegment.highlighted) =
      some [false, true, false, true, false] ∧
    ∃ shownFragment first start finish, fragment text [(130, 136), (176, 182)] = some shownFragment ∧
      [(130, 136), (176, 182)].head? = some first ∧ Around first text.toList.length (start, finish) ∧
      (shownFragment.segments.map shown).flatMap Prod.fst =
        (if 0 < start then ellipsis.toList else []) ++ slice text.toList start finish ++
          (if finish < text.toList.length then ellipsis.toList else []) ∧
      marks (start - 1) (shownFragment.segments.map shown) = clip start finish [(130, 136), (176, 182)] ∧
      ∀ segment ∈ shownFragment.segments, segment.text ≠ "" := by
  have hranges : ∀ range ∈ [(130, 136), (176, 182)],
      range.1 < range.2 ∧ range.2 ≤ (String.ofList haystack).toList.length := by
    rw [haystack_length]
    decide
  refine ⟨?_, haystack_highlights, ?_⟩
  · rw [haystack_length]
    rfl
  · exact fragment_shows (String.ofList haystack) [(130, 136), (176, 182)] (by decide) hranges (by decide)

end AbyssBackend.Search
