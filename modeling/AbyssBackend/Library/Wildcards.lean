import AbyssBackend.Library.Positions
import Mathlib.Data.List.Infix

/-! Patterns of texts with wildcards and an escape character, as SQL's LIKE has them. -/

namespace Wildcards

open Positions

variable {α : Type}

/-- The characters that do not stand for themselves in a pattern. -/
structure Signs (α : Type) where
  many : α
  one : α
  escape : α
  one_ne_many : one ≠ many
  escape_ne_many : escape ≠ many
  escape_ne_one : escape ≠ one

inductive Piece (α : Type)
  | many
  | one
  | literal (c : α)
deriving DecidableEq

/-- What the pieces of a pattern match: any text, any character, and this character. -/
inductive Matches : List (Piece α) → List α → Prop
  | nil : Matches [] []
  | skip {pieces : List (Piece α)} {text : List α} (h : Matches pieces text) : Matches (.many :: pieces) text
  | take {pieces : List (Piece α)} {text : List α} (c : α) (h : Matches (.many :: pieces) text) :
      Matches (.many :: pieces) (c :: text)
  | one {pieces : List (Piece α)} {text : List α} (c : α) (h : Matches pieces text) :
      Matches (.one :: pieces) (c :: text)
  | literal {pieces : List (Piece α)} {text : List α} (c : α) (h : Matches pieces text) :
      Matches (.literal c :: pieces) (c :: text)

section Matching

variable {pieces : List (Piece α)} {text word : List α}

@[simp] theorem matches_nil : Matches [] text ↔ text = [] := by
  constructor
  · rintro ⟨⟩
    rfl
  · rintro rfl
    exact .nil

theorem matches_one : Matches (.one :: pieces) text ↔ ∃ c rest, text = c :: rest ∧ Matches pieces rest := by
  constructor
  · rintro ⟨⟩
    exact ⟨_, _, rfl, ‹_›⟩
  · rintro ⟨c, rest, rfl, h⟩
    exact .one c h

theorem matches_literal {c : α} :
    Matches (.literal c :: pieces) text ↔ ∃ rest, text = c :: rest ∧ Matches pieces rest := by
  constructor
  · rintro ⟨⟩
    exact ⟨_, rfl, ‹_›⟩
  · rintro ⟨rest, rfl, h⟩
    exact .literal c h

theorem matches_many : Matches (.many :: pieces) text ↔ ∃ rest, rest <:+ text ∧ Matches pieces rest := by
  constructor
  · intro h
    generalize hwhole : Piece.many :: pieces = whole at h
    induction h with
    | nil => cases hwhole
    | skip h =>
      cases hwhole
      exact ⟨_, List.suffix_rfl, h⟩
    | take c h ih =>
      obtain ⟨rest, hsuffix, hrest⟩ := ih hwhole
      exact ⟨rest, hsuffix.trans (List.suffix_cons c _), hrest⟩
    | one c h => cases hwhole
    | literal c h => cases hwhole
  · rintro ⟨rest, ⟨front, rfl⟩, h⟩
    induction front with
    | nil => exact .skip h
    | cons c front ih => exact .take c ih

theorem matches_literals :
    Matches (word.map .literal ++ pieces) text ↔ ∃ rest, text = word ++ rest ∧ Matches pieces rest := by
  induction word generalizing text with
  | nil => simp
  | cons c word ih =>
    rw [List.map_cons, List.cons_append, matches_literal]
    constructor
    · rintro ⟨tail, rfl, h⟩
      obtain ⟨rest, rfl, hrest⟩ := ih.mp h
      exact ⟨rest, rfl, hrest⟩
    · rintro ⟨rest, rfl, h⟩
      exact ⟨word ++ rest, rfl, ih.mpr ⟨rest, rfl, h⟩⟩

/-- A word between two wildcards is matched where it occurs. -/
theorem matches_around : Matches (.many :: (word.map .literal ++ [.many])) text ↔ word <:+: text := by
  have hall : ∀ rest : List α, Matches [.many] rest := fun rest => matches_many.mpr ⟨[], List.nil_suffix, .nil⟩
  rw [matches_many]
  constructor
  · rintro ⟨middle, hsuffix, h⟩
    obtain ⟨rest, rfl, -⟩ := matches_literals.mp h
    exact (List.prefix_append word rest).isInfix.trans hsuffix.isInfix
  · rintro ⟨front, rest, rfl⟩
    exact ⟨word ++ rest, ⟨front, (List.append_assoc front word rest).symm⟩, matches_literals.mpr ⟨rest, rfl, hall rest⟩⟩

end Matching

section Reading

variable [DecidableEq α]

/-- The matcher: where anything may come next, each rest of the text is tried. -/
def run : List (Piece α) → List α → Bool
  | [], text => text.isEmpty
  | .many :: pieces, text => text.tails.any (run pieces)
  | .one :: _, [] => false
  | .one :: pieces, _ :: text => run pieces text
  | .literal _ :: _, [] => false
  | .literal c :: pieces, d :: text => c = d && run pieces text

theorem run_iff {pieces : List (Piece α)} {text : List α} : run pieces text = true ↔ Matches pieces text := by
  induction pieces generalizing text with
  | nil => simp [run]
  | cons piece pieces ih =>
    cases piece with
    | many =>
      rw [run, List.any_eq_true, matches_many]
      simp only [List.mem_tails, ih]
    | one =>
      rw [matches_one]
      cases text with
      | nil => simp [run]
      | cons c text => simp [run, ih]
    | literal c =>
      rw [matches_literal]
      cases text with
      | nil => simp [run]
      | cons d text =>
        rw [run, Bool.and_eq_true, decide_eq_true_iff, ih]
        constructor
        · rintro ⟨rfl, h⟩
          exact ⟨text, rfl, h⟩
        · rintro ⟨rest, ⟨⟩, h⟩
          exact ⟨rfl, h⟩

variable (signs : Signs α)

def Signs.IsSign (c : α) : Prop := c = signs.many ∨ c = signs.one ∨ c = signs.escape

omit [DecidableEq α] in
theorem Signs.isSign_many : signs.IsSign signs.many := .inl rfl

omit [DecidableEq α] in
theorem Signs.isSign_escape : signs.IsSign signs.escape := .inr (.inr rfl)

instance (c : α) : Decidable (signs.IsSign c) := inferInstanceAs (Decidable (_ ∨ _ ∨ _))

/-- A character that is not escaped. -/
def Signs.piece (c : α) : Piece α :=
  if c = signs.many then .many else if c = signs.one then .one else .literal c

/-- The pieces of a pattern; `none` is where nothing follows an escape character. -/
def pieces : List α → Option (List (Piece α))
  | [] => some []
  | [c] => if c = signs.escape then none else some [signs.piece c]
  | c :: d :: pattern =>
    if c = signs.escape then (pieces pattern).map (.literal d :: ·)
    else (pieces (d :: pattern)).map (signs.piece c :: ·)

/-- Whether a text matches a pattern; `none` is for patterns that are invalid. -/
def like (text pattern : List α) : Option Bool := (pieces signs pattern).map fun pieces => run pieces text

def escape (word : List α) : List α := word.flatMap fun c => if signs.IsSign c then [signs.escape, c] else [c]

variable {signs} {c : α} {word rest pattern : List α}

theorem pieces_cons (h : c ≠ signs.escape) :
    pieces signs (c :: pattern) = (pieces signs pattern).map (signs.piece c :: ·) := by
  cases pattern with
  | nil => simp [pieces, h]
  | cons d pattern => rw [pieces, if_neg h]

theorem pieces_escaped (c : α) (pattern : List α) :
    pieces signs (signs.escape :: c :: pattern) = (pieces signs pattern).map (.literal c :: ·) := by
  rw [pieces, if_pos rfl]

theorem escape_cons_sign (h : signs.IsSign c) : escape signs (c :: word) = signs.escape :: c :: escape signs word := by
  rw [escape, List.flatMap_cons, if_pos h]
  rfl

theorem escape_cons_plain (h : ¬ signs.IsSign c) : escape signs (c :: word) = c :: escape signs word := by
  rw [escape, List.flatMap_cons, if_neg h]
  rfl

theorem pieces_escape (word rest : List α) :
    pieces signs (escape signs word ++ rest) = (pieces signs rest).map (word.map .literal ++ ·) := by
  induction word with
  | nil => simp [escape]
  | cons c word ih =>
    by_cases hsign : signs.IsSign c
    · rw [escape_cons_sign hsign, List.cons_append, List.cons_append, pieces_escaped, ih, Option.map_map]
      rfl
    · have hescape : c ≠ signs.escape := fun heq => hsign (.inr (.inr heq))
      have hliteral : signs.piece c = .literal c := by
        rw [Signs.piece, if_neg fun heq => hsign (.inl heq), if_neg fun heq => hsign (.inr (.inl heq))]
      rw [escape_cons_plain hsign, List.cons_append, pieces_cons hescape, hliteral, ih, Option.map_map]
      rfl

theorem pieces_around (signs : Signs α) (word : List α) :
    pieces signs (signs.many :: (escape signs word ++ [signs.many])) =
      some (.many :: (word.map .literal ++ [.many])) := by
  have hmany : signs.piece signs.many = .many := if_pos rfl
  have hlast : pieces signs [signs.many] = some [.many] := by rw [pieces, if_neg signs.escape_ne_many.symm, hmany]
  rw [pieces_cons signs.escape_ne_many.symm, pieces_escape, hlast, hmany]
  rfl

/-- An escaped word between two wildcards is a valid pattern, of the texts that have the word in them. -/
theorem like_around (signs : Signs α) (word text : List α) :
    like signs text (signs.many :: (escape signs word ++ [signs.many])) = some (decide (word <:+: text)) := by
  rw [like, pieces_around, Option.map_some]
  congr 1
  rw [Bool.eq_iff_iff, run_iff, matches_around, decide_eq_true_iff]

end Reading

section Folding

variable [DecidableEq α] {signs : Signs α} {fold : List α → List α} {word text : List α}

/-- A folding of texts that neither changes nor makes signs, and folds what is around them on its own. -/
structure Folding (signs : Signs α) (fold : List α → List α) : Prop where
  nil : fold [] = []
  around : ∀ front c back, signs.IsSign c → fold (front ++ c :: back) = fold front ++ c :: fold back
  plain : ∀ text, (∀ c ∈ text, ¬ signs.IsSign c) → ∀ c ∈ fold text, ¬ signs.IsSign c

theorem escape_append (front back : List α) :
    escape signs (front ++ back) = escape signs front ++ escape signs back := List.flatMap_append

theorem escape_plain (h : ∀ c ∈ text, ¬ signs.IsSign c) : escape signs text = text := by
  induction text with
  | nil => rfl
  | cons c text ih =>
    rw [List.forall_mem_cons] at h
    rw [escape_cons_plain h.1, ih h.2]

namespace Folding

omit [DecidableEq α] in
theorem cons (h : Folding signs fold) {c : α} (hc : signs.IsSign c) (text : List α) :
    fold (c :: text) = c :: fold text := by
  have haround := h.around [] c text hc
  rw [h.nil] at haround
  exact haround

theorem escape (h : Folding signs fold) (word : List α) :
    fold (Wildcards.escape signs word) = Wildcards.escape signs (fold word) := by
  induction hlength : word.length using Nat.strong_induction_on generalizing word with
  | h length ih =>
    by_cases hsign : ∃ c ∈ word, signs.IsSign c
    · -- up to its first sign the word is plain, and folding does not look past it
      obtain ⟨front, c, back, rfl, hc, hfront⟩ := exists_first hsign
      have hshorter : back.length < length := by
        rw [← hlength, List.length_append, List.length_cons]
        omega
      have hback := ih back.length hshorter back rfl
      rw [escape_append, escape_cons_sign hc, escape_plain hfront, h.around _ _ _ signs.isSign_escape, h.cons hc, hback,
        h.around _ _ _ hc, escape_append, escape_cons_sign hc, escape_plain (h.plain front hfront)]
    · have hplain : ∀ c ∈ word, ¬ signs.IsSign c := fun c hc hsigned => hsign ⟨c, hc, hsigned⟩
      rw [escape_plain hplain, escape_plain (h.plain word hplain)]

/-- An escaped word between two wildcards is folded to the folded word's pattern. -/
theorem like_around (h : Folding signs fold) (word text : List α) :
    like signs (fold text) (fold (signs.many :: (Wildcards.escape signs word ++ [signs.many]))) =
      some (decide (fold word <:+: fold text)) := by
  have hfold : fold (signs.many :: (Wildcards.escape signs word ++ [signs.many])) =
      signs.many :: (Wildcards.escape signs (fold word) ++ [signs.many]) := by
    rw [h.cons signs.isSign_many, h.around _ _ _ signs.isSign_many, h.nil, h.escape]
  rw [hfold, Wildcards.like_around]

omit [DecidableEq α] in
theorem of_chars {f : α → List α} (hsign : ∀ c, signs.IsSign c → f c = [c])
    (hplain : ∀ c, ¬ signs.IsSign c → ∀ d ∈ f c, ¬ signs.IsSign d) : Folding signs (List.flatMap f) := by
  refine ⟨rfl, fun front c back hc => ?_, fun text htext d hd => ?_⟩
  · rw [List.flatMap_append, List.flatMap_cons, hsign c hc]
    rfl
  · obtain ⟨c, hc, hd⟩ := List.mem_flatMap.mp hd
    exact hplain c (htext c hc) d hd

end Folding

end Folding

end Wildcards
