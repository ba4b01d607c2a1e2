import Mathlib.Data.List.Basic

/-! Compact JSON of strings, nulls and arrays. -/

namespace Formats

/-- A way to write values, which reads a value back whatever text follows it. -/
structure Format (α : Type) where
  write : α → List Char
  read : List Char → Option (α × List Char)
  read_write : ∀ value rest, read (write value ++ rest) = some (value, rest)

section Escapes

/-- Characters with an escape of one letter, and the letter. -/
def shorts : List (Char × Char) :=
  [('"', '"'), ('\\', '\\'), ('\x08', 'b'), ('\x0c', 'f'), ('\n', 'n'), ('\x0d', 'r'), ('\t', 't')]

def escape (c : Char) : List Char :=
  match shorts.find? fun short => short.1 == c with
  | some short => ['\\', short.2]
  | none =>
    if c.toNat < 32 then ['\\', 'u', '0', '0', Nat.digitChar (c.toNat / 16), Nat.digitChar (c.toNat % 16)] else [c]

def digitValue (c : Char) : Option ℕ := (List.range 16).find? fun value => Nat.digitChar value == c

def codePoint (digits : List Char) : Option Char := do
  let values ← digits.mapM digitValue
  let code := values.foldl (fun code value => 16 * code + value) 0
  if code.isValidChar then some (Char.ofNat code) else none

/-- The text of a string after its opening quote, and what follows its closing one. -/
def readString : List Char → Option (List Char × List Char)
  | '"' :: rest => some ([], rest)
  | '\\' :: 'u' :: a :: b :: c :: d :: rest => do
    let char ← codePoint [a, b, c, d]
    let (text, rest) ← readString rest
    return (char :: text, rest)
  | '\\' :: letter :: rest => do
    let short ← shorts.find? fun short => short.2 == letter
    let (text, rest) ← readString rest
    return (short.1 :: text, rest)
  | c :: rest => do
    if c.toNat < 32 then none
    let (text, rest) ← readString rest
    return (c :: text, rest)
  | [] => none

theorem shorts_find {c : Char} {short : Char × Char} (h : (shorts.find? fun short => short.1 == c) = some short) :
    short.1 = c ∧ short.2 ≠ 'u' ∧ (shorts.find? fun other => other.2 == short.2) = some short := by
  have hfirst : short.1 = c := by simpa using List.find?_some h
  have hall : ∀ short ∈ shorts, short.2 ≠ 'u' ∧ (shorts.find? fun other => other.2 == short.2) = some short := by
    decide
  exact ⟨hfirst, hall short (List.mem_of_find?_eq_some h)⟩

theorem codePoint_control {c : Char} (h : c.toNat < 32) :
    codePoint ['0', '0', Nat.digitChar (c.toNat / 16), Nat.digitChar (c.toNat % 16)] = some c := by
  have hall : ∀ n : Fin 32, codePoint ['0', '0', Nat.digitChar (n.val / 16), Nat.digitChar (n.val % 16)] =
      some (Char.ofNat n.val) := by decide
  rw [hall ⟨c.toNat, h⟩, Char.ofNat_toNat]

theorem readString_escape (c : Char) (rest : List Char) :
    readString (escape c ++ rest) = (readString rest).map fun read => (c :: read.1, read.2) := by
  unfold escape
  cases hshort : shorts.find? fun short => short.1 == c with
  | some short =>
    obtain ⟨rfl, hletter, hread⟩ := shorts_find hshort
    dsimp only [List.cons_append, List.nil_append]
    rw [readString]
    · rw [hread]
      cases readString rest <;> rfl
    · rintro a b c' d more hu -
      exact hletter hu
  | none =>
    have hplain : c ≠ '"' ∧ c ≠ '\\' := by
      constructor <;> rintro rfl <;> exact absurd hshort (by decide)
    by_cases hcontrol : c.toNat < 32
    · simp only [if_pos hcontrol, List.cons_append, List.nil_append, readString, codePoint_control hcontrol]
      cases readString rest <;> rfl
    · simp only [if_neg hcontrol, List.cons_append, List.nil_append]
      rw [readString]
      · rw [if_neg hcontrol]
        cases readString rest <;> rfl
      · exact hplain.1
      · rintro a b c' d more rfl
        exact absurd rfl hplain.2
      · rintro letter more rfl
        exact absurd rfl hplain.2

theorem readString_flatMap (text rest : List Char) :
    readString (text.flatMap escape ++ '"' :: rest) = some (text, rest) := by
  induction text with
  | nil => rfl
  | cons c text ih => rw [List.flatMap_cons, List.append_assoc, readString_escape, ih, Option.map_some]

def readLiteral : List Char → Option (List Char × List Char)
  | '"' :: rest => readString rest
  | _ => none

end Escapes

namespace Format

variable {α β : Type}

def string : Format (List Char) where
  write text := '"' :: (text.flatMap escape ++ ['"'])
  read := readLiteral
  read_write text rest := by
    rw [List.cons_append, List.append_assoc, List.singleton_append, readLiteral, readString_flatMap]

/-- Values as others of which each has one. -/
def map (format : Format α) (value : α → β) (code : β → α) (h : ∀ x, value (code x) = x) : Format β where
  write x := format.write (code x)
  read input := (format.read input).map fun read => (value read.1, read.2)
  read_write x rest := by rw [format.read_write, Option.map_some, h]

def readNullable (read : List Char → Option (α × List Char)) : List Char → Option (Option α × List Char)
  | 'n' :: 'u' :: 'l' :: 'l' :: rest => some (none, rest)
  | input => (read input).map fun read => (some read.1, read.2)

/-- No value starts with the character. -/
def Avoids (format : Format α) (c : Char) : Prop := ∀ value rest, (format.write value ++ rest).head? ≠ some c

def nullable (format : Format α) (h : format.Avoids 'n') : Format (Option α) where
  write
    | none => ['n', 'u', 'l', 'l']
    | some value => format.write value
  read := readNullable format.read
  read_write value rest := by
    cases value with
    | none => rfl
    | some value =>
      have hread : readNullable format.read (format.write value ++ rest) =
          (format.read (format.write value ++ rest)).map fun read => (some read.1, read.2) := by
        rw [readNullable]
        rintro more heq
        exact h value rest (by rw [heq]; rfl)
      dsimp only
      rw [hread, format.read_write, Option.map_some]

def readPair (first : List Char → Option (α × List Char)) (second : List Char → Option (β × List Char)) :
    List Char → Option ((α × β) × List Char)
  | '[' :: input => do
    let (a, input) ← first input
    match input with
    | ',' :: input =>
      let (b, input) ← second input
      match input with
      | ']' :: rest => return ((a, b), rest)
      | _ => none
    | _ => none
  | _ => none

def pair (first : Format α) (second : Format β) : Format (α × β) where
  write values := '[' :: (first.write values.1 ++ ',' :: (second.write values.2 ++ [']']))
  read := readPair first.read second.read
  read_write values rest := by
    simp [readPair, first.read_write, second.read_write]

section Lists

variable (format : Format α)

def writeRest : List α → List Char
  | [] => [']']
  | value :: values => ',' :: (format.write value ++ writeRest values)

def writeList : List α → List Char
  | [] => ['[', ']']
  | value :: values => '[' :: (format.write value ++ format.writeRest values)

/-- The items up to the closing bracket; the fuel bounds their number. -/
def readItems : ℕ → List Char → Option (List α × List Char)
  | 0, _ => none
  | fuel + 1, input => do
    let (value, input) ← format.read input
    match input with
    | ']' :: rest => return ([value], rest)
    | ',' :: input =>
      let (values, rest) ← readItems fuel input
      return (value :: values, rest)
    | _ => none

def readList : List Char → Option (List α × List Char)
  | '[' :: ']' :: rest => some ([], rest)
  | '[' :: input => format.readItems input.length input
  | _ => none

variable {format}

theorem readItems_writeRest (value : α) (values : List α) (rest : List Char) {fuel : ℕ} (hfuel : values.length < fuel) :
    format.readItems fuel (format.write value ++ (format.writeRest values ++ rest)) = some (value :: values, rest) := by
  induction values generalizing value fuel with
  | nil =>
    obtain ⟨fuel, rfl⟩ := Nat.exists_eq_succ_of_ne_zero (Nat.ne_zero_of_lt hfuel)
    simp [readItems, writeRest, format.read_write]
  | cons next values ih =>
    obtain ⟨fuel, rfl⟩ := Nat.exists_eq_succ_of_ne_zero (Nat.ne_zero_of_lt hfuel)
    rw [readItems, format.read_write]
    simp only [writeRest, List.cons_append, List.append_assoc, Option.bind_eq_bind, Option.bind_some]
    rw [ih next (Nat.lt_of_succ_lt_succ hfuel)]
    rfl

theorem length_lt_writeRest (values : List α) : values.length < (format.writeRest values).length := by
  induction values with
  | nil => simp [writeRest]
  | cons value values ih =>
    simp only [writeRest, List.length_cons, List.length_append]
    omega

variable (format) in
def list (h : format.Avoids ']') : Format (List α) where
  write := format.writeList
  read := format.readList
  read_write values rest := by
    cases values with
    | nil => rfl
    | cons value values =>
      have hread : format.readList ('[' :: (format.write value ++ (format.writeRest values ++ rest))) =
          format.readItems (format.write value ++ (format.writeRest values ++ rest)).length
            (format.write value ++ (format.writeRest values ++ rest)) := by
        rw [readList]
        rintro more heq
        exact h value _ (by rw [heq]; rfl)
      rw [writeList, List.cons_append, List.append_assoc, hread]
      apply readItems_writeRest
      have hlength := @length_lt_writeRest _ format values
      simp only [List.length_append]
      omega

end Lists

end Format

end Formats
