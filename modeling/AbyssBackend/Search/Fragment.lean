import AbyssBackend.Search.Pattern
import AbyssBackend.Search.Query

namespace AbyssBackend.Search

open Text

def fragmentCharacters : ℕ := 240

def ellipsis : String := "…"

def window (occurrence : ℕ × ℕ) (characters : ℕ) : ℕ × ℕ :=
  let length := occurrence.2 - occurrence.1
  let width := max fragmentCharacters length
  let start := occurrence.1 - (width - length) / 2
  let finish := min characters (start + width)
  (min (finish - width) start, finish)

def plain (text : String) : SearchFragmentSegment := ⟨text, false⟩

def pushSegment (segments : List SearchFragmentSegment) (text : List Char) (highlighted : Bool) :
    List SearchFragmentSegment :=
  if text.isEmpty then segments else segments ++ [⟨String.ofList text, highlighted⟩]

def cutBefore : List SearchFragmentSegment → List SearchFragmentSegment
  | segment :: rest =>
    if segment.highlighted then plain ellipsis :: segment :: rest
    else { segment with text := ellipsis ++ segment.text } :: rest
  | [] => [plain ellipsis]

def cutAfter (segments : List SearchFragmentSegment) : List SearchFragmentSegment :=
  match segments.getLast? with
  | some segment =>
    if segment.highlighted then segments ++ [plain ellipsis]
    else segments.dropLast ++ [{ segment with text := segment.text ++ ellipsis }]
  | none => [plain ellipsis]

def fragment (text : String) (occurrences : List (ℕ × ℕ)) : Option SearchFragment := do
  let first ← occurrences.head?
  let characters := text.toList.length
  let window := window first characters
  let visible := (occurrences.filter fun occurrence => occurrence.1 < window.2 && occurrence.2 > window.1).map
    fun occurrence => (max occurrence.1 window.1, min occurrence.2 window.2)
  let boundaries := window.1 :: visible.flatMap (fun range => [range.1, range.2]) ++ [window.2]
  let bytes := characterOffsets text boundaries Char.utf8Size
  let windowStart ← bytes.head?
  let windowEnd ← bytes.tail.getLast?
  let (segments, plainStart) ← (pairs bytes.tail.dropLast).foldlM (fun (segments, plainStart) (start, finish) => do
    let before ← byteSlice text.toList plainStart start
    let marked ← byteSlice text.toList start finish
    return (pushSegment (pushSegment segments before false) marked true, finish)) ([], windowStart)
  let segments := pushSegment segments (← byteSlice text.toList plainStart windowEnd) false
  let segments := if window.1 > 0 then cutBefore segments else segments
  let segments := if window.2 < characters then cutAfter segments else segments
  return ⟨segments⟩

end AbyssBackend.Search
