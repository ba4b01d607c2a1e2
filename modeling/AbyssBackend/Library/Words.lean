import Mathlib.Data.List.TakeWhile

/-! The words of a text, between the blanks. -/

namespace Words

variable {α : Type} (blank : α → Bool)

def emit : List α → List (List α)
  | [] => []
  | word => [word]

/-- The words of a text after the front of a word. -/
def wordsFrom : List α → List α → List (List α)
  | current, [] => emit current
  | current, c :: text => if blank c then emit current ++ wordsFrom [] text else wordsFrom (current ++ [c]) text

def words (text : List α) : List (List α) := wordsFrom blank [] text

/-- A text that is one word. -/
structure Word (word : List α) : Prop where
  nonempty : word ≠ []
  solid : ∀ c ∈ word, blank c = false

variable {blank} {current text word front rest : List α}

theorem emit_word (h : word ≠ []) : emit word = [word] := by
  cases word with
  | nil => exact absurd rfl h
  | cons => rfl

theorem wordsFrom_solid (h : ∀ c ∈ word, blank c = false) :
    wordsFrom blank current (word ++ text) = wordsFrom blank (current ++ word) text := by
  induction word generalizing current with
  | nil => simp
  | cons c word ih =>
    obtain ⟨hc, hword⟩ := List.forall_mem_cons.mp h
    rw [List.cons_append, wordsFrom, hc, if_neg Bool.false_ne_true, ih hword, List.append_assoc]
    rfl

theorem words_blank (h : ∀ c ∈ front, blank c = true) : words blank (front ++ text) = words blank text := by
  induction front with
  | nil => rfl
  | cons c front ih =>
    obtain ⟨hc, hfront⟩ := List.forall_mem_cons.mp h
    rw [List.cons_append, words, wordsFrom, hc, if_pos rfl]
    exact ih hfront

theorem words_cons (hfront : ∀ c ∈ front, blank c = true) (hword : Word blank word)
    (hrest : ∀ c ∈ rest.head?, blank c = true) :
    words blank (front ++ word ++ rest) = word :: words blank rest := by
  rw [List.append_assoc, words_blank hfront, words, wordsFrom_solid hword.solid, List.nil_append]
  cases rest with
  | nil => exact emit_word hword.nonempty
  | cons c rest =>
    have hc : blank c = true := hrest c rfl
    rw [wordsFrom, hc, if_pos rfl, emit_word hword.nonempty, words, wordsFrom, hc, if_pos rfl]
    rfl

theorem words_all_blank (h : ∀ c ∈ text, blank c = true) : words blank text = [] := by
  have hnil : words blank (text ++ []) = words blank [] := words_blank h
  rwa [List.append_nil] at hnil

theorem exists_word (h : ¬ ∀ c ∈ text, blank c = true) : ∃ front word rest, text = front ++ word ++ rest ∧
    (∀ c ∈ front, blank c = true) ∧ Word blank word ∧ ∀ c ∈ rest.head?, blank c = true := by
  let later := text.dropWhile blank
  refine ⟨text.takeWhile blank, later.takeWhile fun c => !blank c, later.dropWhile fun c => !blank c, ?_, ?_, ⟨?_, ?_⟩,
    ?_⟩
  · rw [List.append_assoc, List.takeWhile_append_dropWhile, List.takeWhile_append_dropWhile]
  · exact fun c hc => List.mem_takeWhile_imp hc
  · intro hnil
    apply h
    have hlater : later = [] := by
      cases hcase : later with
      | nil => rfl
      | cons c others =>
        have hc : blank c = false := by
          have hhead := List.head?_dropWhile_not blank text
          rw [show text.dropWhile blank = c :: others from hcase] at hhead
          simpa using hhead
        rw [hcase, List.takeWhile_cons, hc] at hnil
        cases hnil
    exact List.dropWhile_eq_nil_iff.mp hlater
  · intro c hc
    have hsolid := List.mem_takeWhile_imp hc
    simpa using hsolid
  · intro c hc
    have hhead := List.head?_dropWhile_not (fun c => !blank c) later
    rw [Option.mem_def.mp hc] at hhead
    simpa using hhead

theorem words_eq_nil : words blank text = [] ↔ ∀ c ∈ text, blank c = true := by
  constructor
  · intro h
    by_contra hnot
    obtain ⟨front, word, rest, rfl, hfront, hword, hrest⟩ := exists_word hnot
    rw [words_cons hfront hword hrest] at h
    cases h
  · exact words_all_blank

theorem words_eq_cons {others : List (List α)} : words blank text = word :: others ↔ ∃ front rest,
    text = front ++ word ++ rest ∧ (∀ c ∈ front, blank c = true) ∧ Word blank word ∧
      (∀ c ∈ rest.head?, blank c = true) ∧ words blank rest = others := by
  constructor
  · intro h
    have hnot : ¬ ∀ c ∈ text, blank c = true := fun hall => by
      rw [words_all_blank hall] at h
      cases h
    obtain ⟨front, first, rest, rfl, hfront, hfirst, hrest⟩ := exists_word hnot
    rw [words_cons hfront hfirst hrest] at h
    cases h
    exact ⟨front, rest, rfl, hfront, hfirst, hrest, rfl⟩
  · rintro ⟨front, rest, rfl, hfront, hword, hrest, rfl⟩
    exact words_cons hfront hword hrest

/-- Two words: they are apart, and all else is blank. -/
theorem words_eq_pair {first second : List α} : words blank text = [first, second] ↔ ∃ front gap back,
    text = front ++ first ++ gap ++ second ++ back ∧ (∀ c ∈ front, blank c = true) ∧ (∀ c ∈ gap, blank c = true) ∧
      (∀ c ∈ back, blank c = true) ∧ gap ≠ [] ∧ Word blank first ∧ Word blank second := by
  constructor
  · intro h
    obtain ⟨front, rest, rfl, hfront, hfirst, hrest, h⟩ := words_eq_cons.mp h
    obtain ⟨gap, back, rfl, hgap, hsecond, -, h⟩ := words_eq_cons.mp h
    refine ⟨front, gap, back, by simp, hfront, hgap, words_eq_nil.mp h, ?_, hfirst, hsecond⟩
    rintro rfl
    cases hcase : second with
    | nil => exact hsecond.nonempty hcase
    | cons c others =>
      have hblank := hrest c (by simp [hcase])
      rw [hsecond.solid c (by simp [hcase])] at hblank
      cases hblank
  · rintro ⟨front, gap, back, rfl, hfront, hgap, hback, hne, hfirst, hsecond⟩
    have htext : front ++ first ++ gap ++ second ++ back = front ++ first ++ (gap ++ second ++ back) := by simp
    rw [htext, words_cons hfront hfirst, words_cons hgap hsecond, words_all_blank hback]
    · exact fun c hc => hback c (List.mem_of_mem_head? hc)
    · intro c hc
      cases hcase : gap with
      | nil => exact absurd hcase hne
      | cons d others =>
        rw [hcase] at hc hgap
        have hd : d = c := Option.some.inj hc
        exact hd ▸ hgap d List.mem_cons_self

end Words
