import AbyssBackend.Library.Positions
import AbyssBackend.Library.Quoting
import AbyssBackend.Search.Pattern

namespace AbyssBackend.Search

open Positions Quoting

section Windows

variable {α : Type} {size : ℕ} {xs : List α}

theorem windows_inside {window : List α} (h : window ∈ windows size xs) : window <:+: xs ∧ window.length = size := by
  induction xs with
  | nil => exact absurd h List.not_mem_nil
  | cons x xs ih =>
    rw [windows] at h
    split at h
    · next hsize =>
      obtain rfl | hlater := List.mem_cons.mp h
      · exact ⟨(List.take_prefix _ _).isInfix, List.length_take_of_le hsize⟩
      · obtain ⟨hinside, hlength⟩ := ih hlater
        exact ⟨List.infix_cons hinside, hlength⟩
    · exact absurd h List.not_mem_nil

theorem mem_windows (hsize : 0 < size) {window : List α} :
    window ∈ windows size xs ↔ window.length = size ∧ window <:+: xs := by
  refine ⟨fun h => (windows_inside h).symm, ?_⟩
  rintro ⟨hlength, hinside⟩
  induction xs with
  | nil => simp [List.infix_nil.mp hinside, hsize.ne] at hlength
  | cons x xs ih =>
    have hle : size ≤ (x :: xs).length := hlength ▸ hinside.length_le
    rw [windows, if_pos hle]
    rcases List.infix_cons_iff.mp hinside with hprefix | hlater
    · exact List.mem_cons.mpr (Or.inl (hlength ▸ List.prefix_iff_eq_take.mp hprefix))
    · exact List.mem_cons_of_mem _ (ih hlater)

theorem windows_split {front back : List (List α)} {window : List α} (h : windows size xs = front ++ window :: back) :
    window <+: xs.drop front.length ∧ ∀ j < front.length, (xs.drop j).take size ∈ front := by
  induction front generalizing xs with
  | nil =>
    cases xs with
    | nil => cases h
    | cons x xs =>
      rw [windows] at h
      split at h
      · obtain ⟨rfl, -⟩ := List.cons.inj h
        exact ⟨List.take_prefix _ _, by simp⟩
      · cases h
  | cons first front ih =>
    cases xs with
    | nil => cases h
    | cons x xs =>
      rw [windows] at h
      split at h
      · obtain ⟨rfl, hrest⟩ := List.cons.inj (List.cons_append ▸ h)
        obtain ⟨hwindow, hbefore⟩ := ih hrest
        refine ⟨by simpa using hwindow, fun j hj => ?_⟩
        cases j with
        | zero => simp
        | succ j => exact List.mem_cons_of_mem _ (hbefore j (by simpa using hj))
      · cases h

/-- One text is found before any place where another one is. -/
def FoundBefore (xs first second : List α) : Prop := ∃ i, first <+: xs.drop i ∧ ∀ j ≤ i, ¬ second <+: xs.drop j

theorem windows_foundBefore {first second : List α} (h : ComesFirst (windows size xs) first second)
    (hlength : second.length = size) : FoundBefore xs first second := by
  obtain ⟨front, back, hsplit, hfront, hne⟩ := h
  obtain ⟨hfirst, hbefore⟩ := windows_split hsplit
  have hinside : first ∈ windows size xs := by
    rw [hsplit]
    simp
  have hfirstLength : first.length = size := (windows_inside hinside).2
  refine ⟨front.length, hfirst, fun j hj hsecond => ?_⟩
  have htake : second = (xs.drop j).take size := hlength ▸ List.prefix_iff_eq_take.mp hsecond
  rcases Nat.lt_or_eq_of_le hj with hlt | rfl
  · exact hfront (htake ▸ hbefore j hlt)
  · exact hne (htake.trans (hfirstLength ▸ List.prefix_iff_eq_take.mp hfirst).symm)

end Windows

def IsTrigram (folded trigram : List Char) : Prop :=
  trigram.length = trigramCharacters ∧ trigram <:+: folded ∧ '\x00' ∉ trigram

theorem mem_trigrams {pattern : Pattern} {trigram : List Char} :
    trigram ∈ pattern.trigrams ↔ IsTrigram pattern.folded.toList trigram := by
  rw [Pattern.trigrams, List.mem_eraseDups, List.mem_filter, mem_windows (by decide), IsTrigram, and_assoc]
  simp

theorem trigrams_foundBefore (pattern : Pattern) : pattern.trigrams.Pairwise (FoundBefore pattern.folded.toList) := by
  refine (eraseDups_comesFirst _).imp_of_mem fun {first second} hfirst hsecond h => ?_
  obtain ⟨hwindow, hnul⟩ := List.mem_filter.mp (List.mem_eraseDups.mp hsecond)
  exact windows_foundBefore (h.of_filter hnul) (windows_inside hwindow).2

theorem matchExpression_toList (terms : List (List Char)) : (matchExpression terms).toList = joinAnd terms := by
  have hquoted : ∀ term, (quoted term).toList = quote term := fun term => String.toList_ofList
  rw [matchExpression, String.toList_intercalate, List.map_map, joinAnd]
  simp only [Function.comp_def, hquoted]
  rfl

theorem trigramExpression_none (pattern : Pattern) :
    pattern.trigramExpression = none ↔ ∀ trigram, ¬ IsTrigram pattern.folded.toList trigram := by
  rw [Pattern.trigramExpression]
  split
  · next hempty =>
    refine iff_of_true rfl fun trigram h => ?_
    have hmem := mem_trigrams.mpr h
    rw [List.isEmpty_iff.mp hempty] at hmem
    exact List.not_mem_nil hmem
  · next hne =>
    obtain ⟨trigram, htrigram⟩ := List.exists_mem_of_ne_nil _ (mt List.isEmpty_iff.mpr hne)
    exact iff_of_false (Option.some_ne_none _) fun h => h trigram (mem_trigrams.mp htrigram)

theorem trigramExpression_some {pattern : Pattern} {expression : String}
    (h : pattern.trigramExpression = some expression) :
    parse expression.toList = some pattern.trigrams := by
  rw [Pattern.trigramExpression] at h
  split at h
  · exact absurd h.symm (Option.some_ne_none _)
  · next hne =>
    rw [← Option.some.inj h, matchExpression_toList]
    exact parse_joinAnd (mt List.isEmpty_iff.mpr hne) fun trigram htrigram => (mem_trigrams.mp htrigram).2.2

variable [CaseMapping]

theorem trigrams_inside {pattern : Pattern} {text : String} (h : pattern.isMatch text = true) :
    ∀ trigram ∈ pattern.trigrams,
      trigram.length = trigramCharacters ∧ '\x00' ∉ trigram ∧ trigram <:+: (fold text).toList := by
  intro trigram htrigram
  obtain ⟨hwindow, hnul⟩ := List.mem_filter.mp (List.mem_eraseDups.mp htrigram)
  obtain ⟨hinside, hlength⟩ := windows_inside hwindow
  exact ⟨hlength, by simpa using hnul, hinside.trans (of_decide_eq_true h)⟩

/-- The expression parses to the trigrams of the folded query, each where it is first found. -/
theorem trigramExpression_parses (query : String) :
    ((Pattern.new query).trigramExpression = none ↔ ∀ trigram, ¬ IsTrigram (fold query).toList trigram) ∧
    ∀ expression, (Pattern.new query).trigramExpression = some expression →
      ∃ terms, parse expression.toList = some terms ∧ terms.Nodup ∧
        (∀ term, term ∈ terms ↔ IsTrigram (fold query).toList term) ∧
        terms.Pairwise (FoundBefore (fold query).toList) ∧
        ∀ text, (Pattern.new query).isMatch text = true → ∀ term ∈ terms, term <:+: (fold text).toList := by
  set pattern := Pattern.new query
  set folded := (fold query).toList
  have hfound : pattern.trigrams.Pairwise (FoundBefore folded) := trigrams_foundBefore pattern
  refine ⟨trigramExpression_none pattern, fun expression hexpression => ⟨pattern.trigrams,
    trigramExpression_some hexpression, ?_, fun _ => mem_trigrams, hfound, fun text h term hterm =>
      (trigrams_inside h term hterm).2.2⟩⟩
  refine hfound.imp fun {first second} hbefore heq => ?_
  obtain ⟨i, hfirst, hsecond⟩ := hbefore
  exact hsecond i le_rfl (heq ▸ hfirst)

end AbyssBackend.Search
