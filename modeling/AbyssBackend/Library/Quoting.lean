import Mathlib.Data.List.Basic

/-! Match expressions of a full-text index: strings in double quotes, joined by AND. -/

namespace Quoting

def isBlank (c : Char) : Bool := c == ' ' || c == '\t' || c == '\n' || c == '\r'

def isBareword (c : Char) : Bool := c.isAlphanum || c == '_' || c == '\x1a' || 128 ≤ c.toNat

/-- The text of a string after its opening quote, and what follows its closing one. NUL ends the input, so a
string that reaches it is not closed. -/
def readString : List Char → Option (List Char × List Char)
  | '"' :: '"' :: rest => (readString rest).map fun read => ('"' :: read.1, read.2)
  | '"' :: rest => some ([], rest)
  | '\x00' :: _ => none
  | c :: rest => (readString rest).map fun read => (c :: read.1, read.2)
  | [] => none

def readAnd : List Char → Option (List Char)
  | 'A' :: 'N' :: 'D' :: rest => if rest.head?.any isBareword then none else some rest
  | _ => none

def ended : List Char → Bool
  | [] => true
  | c :: _ => c == '\x00'

/-- The strings of an expression; the fuel bounds their number. -/
def parseFrom : ℕ → List Char → Option (List (List Char))
  | 0, _ => none
  | fuel + 1, input =>
    match input.dropWhile isBlank with
    | '"' :: input => do
      let (text, input) ← readString input
      let input := input.dropWhile isBlank
      if ended input then return [text]
      return text :: (← parseFrom fuel (← readAnd input))
    | _ => none

def parse (input : List Char) : Option (List (List Char)) := parseFrom input.length input

def escape (text : List Char) : List Char := text.flatMap fun c => if c = '"' then ['"', '"'] else [c]

def quote (text : List Char) : List Char := '"' :: escape text ++ ['"']

def joinAnd (texts : List (List Char)) : List Char := [' ', 'A', 'N', 'D', ' '].intercalate (texts.map quote)

theorem readString_escape {text rest : List Char} (htext : '\x00' ∉ text) (hrest : rest.head? ≠ some '"') :
    readString (escape text ++ '"' :: rest) = some (text, rest) := by
  induction text with
  | nil =>
    rw [escape, List.flatMap_nil, List.nil_append, readString]
    rintro more rfl
    exact hrest rfl
  | cons c text ih =>
    obtain ⟨hc, hmore⟩ := not_or.mp (List.mem_cons.not.mp htext)
    simp only [escape, List.flatMap_cons, List.append_assoc] at ih ⊢
    by_cases hquote : c = '"'
    · subst hquote
      simp [readString, ih hmore]
    · simp [readString, hquote, Ne.symm hc, ih hmore]

theorem length_le_joinAnd (texts : List (List Char)) : texts.length ≤ (joinAnd texts).length := by
  induction texts with
  | nil => simp
  | cons text texts ih =>
    cases texts with
    | nil => simp [joinAnd, quote]
    | cons next texts =>
      rw [joinAnd, List.map_cons, List.map_cons, List.intercalate_cons_cons, ← List.map_cons, List.length_append,
        List.length_append]
      rw [joinAnd] at ih
      simp only [List.length_cons, List.length_nil] at ih ⊢
      omega

theorem parseFrom_joinAnd {texts : List (List Char)} (h : texts ≠ []) (hnul : ∀ text ∈ texts, '\x00' ∉ text) {fuel : ℕ}
    (hfuel : texts.length ≤ fuel) {blanks : List Char} (hblanks : ∀ c ∈ blanks, isBlank c = true) :
    parseFrom fuel (blanks ++ joinAnd texts) = some texts := by
  induction texts generalizing fuel blanks with
  | nil => exact absurd rfl h
  | cons text texts ih =>
    obtain ⟨fuel, rfl⟩ := Nat.exists_eq_succ_of_ne_zero (n := fuel) (by rintro rfl; simp at hfuel)
    have htext : '\x00' ∉ text := hnul text (by simp)
    have hskip : ∀ input, (blanks ++ '"' :: input).dropWhile isBlank = '"' :: input := by
      intro input
      rw [List.dropWhile_append_of_pos hblanks, List.dropWhile_cons_of_neg (by decide)]
    cases texts with
    | nil =>
      have hjoin : joinAnd [text] = '"' :: (escape text ++ '"' :: []) := by simp [joinAnd, quote]
      have hread : readString (escape text ++ '"' :: []) = some (text, []) := readString_escape htext (by simp)
      rw [hjoin, parseFrom, hskip]
      simp [hread, ended]
    | cons next texts =>
      have hjoin : joinAnd (text :: next :: texts) =
          '"' :: (escape text ++ '"' :: ([' ', 'A', 'N', 'D', ' '] ++ joinAnd (next :: texts))) := by
        simp [joinAnd, quote]
      have hread : readString (escape text ++ '"' :: ([' ', 'A', 'N', 'D', ' '] ++ joinAnd (next :: texts))) =
          some (text, [' ', 'A', 'N', 'D', ' '] ++ joinAnd (next :: texts)) := readString_escape htext (by simp)
      have hblank : ([' ', 'A', 'N', 'D', ' '] ++ joinAnd (next :: texts)).dropWhile isBlank =
          ['A', 'N', 'D', ' '] ++ joinAnd (next :: texts) := by simp [isBlank]
      have hand : readAnd (['A', 'N', 'D', ' '] ++ joinAnd (next :: texts)) =
          some ([' '] ++ joinAnd (next :: texts)) := by
        simp [readAnd, isBareword]
      have hrest : parseFrom fuel ([' '] ++ joinAnd (next :: texts)) = some (next :: texts) :=
        ih (by simp) (fun other hother => hnul other (by simp [hother])) (by simpa using hfuel) (by simp [isBlank])
      rw [hjoin, parseFrom, hskip]
      simp only [hread, hblank, Option.bind_eq_bind, Option.bind_some]
      rw [if_neg (by simp [ended]), hand, Option.bind_some, hrest]
      rfl

/-- Parsing gives back the strings that were joined. -/
theorem parse_joinAnd {texts : List (List Char)} (h : texts ≠ []) (hnul : ∀ text ∈ texts, '\x00' ∉ text) :
    parse (joinAnd texts) = some texts :=
  parseFrom_joinAnd h hnul (length_le_joinAnd texts) (List.forall_mem_nil _)

example : parse "\"a\"\"b\" AND \" OR\"".toList = some [['a', '"', 'b'], [' ', 'O', 'R']] := by decide

end Quoting
