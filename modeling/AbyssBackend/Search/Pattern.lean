import AbyssBackend.Library.Occurrences
import AbyssBackend.Search.Fold

namespace AbyssBackend.Search

open Occurrences Text

def trigramCharacters : ℕ := 3

def windows {α : Type} (size : ℕ) : List α → List (List α)
  | [] => []
  | x :: xs => if size ≤ (x :: xs).length then (x :: xs).take size :: windows size xs else []

def quoted (term : List Char) : String :=
  String.ofList ('"' :: (term.flatMap fun c => if c = '"' then ['"', '"'] else [c]) ++ ['"'])

def matchExpression (terms : List (List Char)) : String := String.intercalate " AND " (terms.map quoted)

def matchIndices (text needle : String) : List ℕ := starts Char.utf8Size needle.toList 0 0 text.toList

structure Pattern where
  folded : String
  characters : ℕ

namespace Pattern

section Code

variable [CaseMapping]

def new (query : String) : Pattern where
  folded := fold query
  characters := (fold query).toList.length

def trigrams (pattern : Pattern) : List (List Char) :=
  ((windows trigramCharacters pattern.folded.toList).filter fun trigram => !trigram.contains '\x00').eraseDups

/-- An FTS5 expression that every text holding the query matches; none when there is no trigram. -/
def trigramExpression (pattern : Pattern) : Option String :=
  if pattern.trigrams.isEmpty then none else some (matchExpression pattern.trigrams)

def isMatch (pattern : Pattern) (text : String) : Bool := pattern.folded.toList <:+: (fold text).toList

/-- Character ranges from the byte offsets of the occurrences, those before them scanned. -/
def scan (folded : List Char) (characters : ℕ) : ℕ → ℕ → List ℕ → List (ℕ × ℕ)
  | _, _, [] => []
  | scannedBytes, scannedCharacters, start :: rest =>
    let scannedCharacters := scannedCharacters + ((byteSlice folded scannedBytes start).map List.length).getD 0
    (scannedCharacters, scannedCharacters + characters) :: scan folded characters start scannedCharacters rest

def occurrences (pattern : Pattern) (text : String) : List (ℕ × ℕ) :=
  scan (fold text).toList pattern.characters 0 0 (matchIndices (fold text) pattern.folded)

end Code

end Pattern

def walk (width : Char → ℕ) (target : ℕ) : List Char → ℕ → ℕ → List Char × ℕ × ℕ
  | [], position, offset => ([], position, offset)
  | c :: cs, position, offset =>
    if position < target then walk width target cs (position + 1) (offset + width c) else (c :: cs, position, offset)

def offsetsFrom (width : Char → ℕ) : List Char → ℕ → ℕ → List ℕ → List ℕ
  | _, _, _, [] => []
  | characters, position, offset, target :: rest =>
    let (characters, position, offset) := walk width target characters position offset
    offset :: offsetsFrom width characters position offset rest

def characterOffsets (text : String) (positions : List ℕ) (width : Char → ℕ) : List ℕ :=
  offsetsFrom width text.toList 0 0 positions

def pairs {α : Type} : List α → List (α × α)
  | x :: y :: rest => (x, y) :: pairs rest
  | _ => []

def utf16Ranges (text : String) (ranges : List (ℕ × ℕ)) : List (ℕ × ℕ) :=
  pairs (characterOffsets text (ranges.flatMap fun range => [range.1, range.2]) lenUtf16)

end AbyssBackend.Search
