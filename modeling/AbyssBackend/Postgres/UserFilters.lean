import AbyssBackend.Library.Wildcards
import AbyssBackend.Postgres.SummaryFilters

namespace AbyssBackend.Postgres

open Attempts Storage Text Wildcards

def likeSigns : Signs Char where
  many := '%'
  one := '_'
  escape := '\\'
  one_ne_many := by decide
  escape_ne_many := by decide
  escape_ne_one := by decide

/-- `candidate LIKE pattern ESCAPE '\'`; `none` is the error for an invalid pattern. -/
def like (candidate pattern : String) : Option Bool := Wildcards.like likeSigns candidate.toList pattern.toList

/-- `candidate ILIKE pattern ESCAPE '\'`, which compares the lowercase forms of the database's locale. -/
def ilike (lower : List Char → List Char) (candidate pattern : String) : Option Bool :=
  Wildcards.like likeSigns (lower candidate.toList) (lower pattern.toList)

/-- The condition of the summary's query on the user of an event, by the parameters that are bound for it. -/
def SummarySqlFilters.passesUser (lower : List Char → List Char) (filters : SummarySqlFilters) (userId : Uuid)
    (owner : OwnerRecord) : Option Bool :=
  let userFilterPattern := filters.userFilterPattern.getD ""
  let hasUserFilter := userFilterPattern != ""
  if !hasUserFilter then some true
  else match filters.userFilterId with
    | some userFilterId => some (userId == userFilterId)
    | none => do
      let email ← ilike lower owner.email userFilterPattern
      let name ← ilike lower (owner.name.getD "") userFilterPattern
      return email || name

section Patterns

variable {lower : List Char → List Char}

theorem escapeLikePattern_toList (value : String) :
    (escapeLikePattern value).toList = escape likeSigns value.toList := by
  rw [escapeLikePattern, String.toList_ofList, escape]
  congr 1
  funext c
  have hsign : ['\\', '%', '_'].contains c = true ↔ likeSigns.IsSign c := by
    rw [List.contains_iff_mem]
    simp only [List.mem_cons, List.not_mem_nil, or_false, Signs.IsSign, likeSigns]
    tauto
  simp only [hsign]
  rfl

theorem pattern_toList (value : String) : ("%" ++ escapeLikePattern value ++ "%").toList =
    likeSigns.many :: (escape likeSigns value.toList ++ [likeSigns.many]) := by
  rw [String.toList_append, String.toList_append, escapeLikePattern_toList]
  rfl

theorem pattern_ne (value : String) : ("%" ++ escapeLikePattern value ++ "%") ≠ "" := by
  intro hempty
  have hlist := congrArg String.toList hempty
  rw [pattern_toList] at hlist
  cases hlist

theorem ilike_pattern (h : Folding likeSigns lower) (value candidate : String) :
    ilike lower candidate ("%" ++ escapeLikePattern value ++ "%") =
      some (decide (lower value.toList <:+: lower candidate.toList)) := by
  rw [ilike, pattern_toList, h.like_around]

theorem toLower_not_sign {c : Char} (hc : ¬ likeSigns.IsSign c) : ¬ likeSigns.IsSign c.toLower := by
  by_cases hupper : c.val ≥ 'A'.val ∧ c.val ≤ 'Z'.val
  · have hlower : c.toLower.val = c.val + ('a'.val - 'A'.val) := congrArg Char.val (dif_pos hupper)
    obtain ⟨hlow, hhigh⟩ := hupper
    have hshift : ∀ sign : Char, sign.val < 'a'.val → c.toLower ≠ sign := by
      intro sign hsign heq
      rw [ge_iff_le, UInt32.le_iff_toNat_le] at hlow
      rw [UInt32.le_iff_toNat_le] at hhigh
      rw [← heq, hlower, UInt32.lt_iff_toNat_lt, UInt32.toNat_add] at hsign
      have hA : 'A'.val.toNat = 65 := rfl
      have hZ : 'Z'.val.toNat = 90 := rfl
      have ha : 'a'.val.toNat = 97 := rfl
      have hd : ('a'.val - 'A'.val).toNat = 32 := rfl
      omega
    rintro (h | h | h)
    · exact hshift '%' (by decide) h
    · exact hshift '_' (by decide) h
    · exact hshift '\\' (by decide) h
  · have hlower : c.toLower = c := dif_neg hupper
    rw [hlower]
    exact hc

/-- The lowercase form in the C locale. -/
def asciiLower (text : List Char) : List Char := text.flatMap fun c => [c.toLower]

theorem asciiLower_folding : Folding likeSigns asciiLower := by
  apply Folding.of_chars
  · rintro c (rfl | rfl | rfl)
    all_goals decide
  · intro c hc d hd
    rw [List.mem_singleton.mp hd]
    exact toLower_not_sign hc

end Patterns

/-- The pattern of a value matches exactly the texts that have the value in them. -/
theorem escapeLikePattern_literal (value candidate : String) :
    like candidate ("%" ++ escapeLikePattern value ++ "%") = some (decide (value.toList <:+: candidate.toList)) ∧
      ∀ lower, Folding likeSigns lower → ilike lower candidate ("%" ++ escapeLikePattern value ++ "%") =
        some (decide (lower value.toList <:+: lower candidate.toList)) := by
  refine ⟨?_, fun lower h => ?_⟩
  · rw [like, pattern_toList, like_around]
  · exact ilike_pattern h value candidate

theorem escapeLikePattern_literal_alice :
    "%" ++ escapeLikePattern "e_B%" ++ "%" = "%e\\_B\\%%" ∧
      ilike asciiLower "Alice_B%" ("%" ++ escapeLikePattern "e_B%" ++ "%") = some true ∧
      ilike asciiLower "AliceXBob" ("%" ++ escapeLikePattern "e_B%" ++ "%") = some false := by
  refine ⟨by decide, ?_, ?_⟩
  · rw [(escapeLikePattern_literal "e_B%" "Alice_B%").2 asciiLower asciiLower_folding]
    decide
  · rw [(escapeLikePattern_literal "e_B%" "AliceXBob").2 asciiLower asciiLower_folding]
    decide

section Users

variable [UserTexts] {lower : List Char → List Char} {query : SummaryQuery} {userId : Uuid} {owner : OwnerRecord}
  {defaultLimit : ℤ} {filters : SummarySqlFilters}

theorem fromEventFilters_user
    (h : SummarySqlFilters.fromEventFilters (.ofSummary query userId defaultLimit) = .ok filters) :
    filters.userFilterId = (query.userFilter.bind nonEmpty).bind (fun value => UserTexts.parseUuid (trim value)) ∧
      filters.userFilterPattern =
        (query.userFilter.bind nonEmpty).map fun value => "%" ++ escapeLikePattern (trim value) ++ "%" := by
  unfold SummarySqlFilters.fromEventFilters at h
  obtain ⟨eventType, -, h⟩ := bind_eq_ok.mp h
  cases h
  constructor
  · exact Option.bind_map
  · exact Option.map_map ..

/-- Where both backends fold texts alike, the query passes the users that SQLite reads the filter for. -/
theorem passesUser_eq (hfolding : Folding likeSigns lower)
    (hlower : ∀ text, (UserTexts.toLowercase text).toList = lower text.toList)
    (h : SummarySqlFilters.fromEventFilters (.ofSummary query userId defaultLimit) = .ok filters) :
    filters.passesUser lower userId owner = some (ownerMatchesFilter userId owner query.userFilter) := by
  obtain ⟨hid, hpattern⟩ := fromEventFilters_user h
  rw [SummarySqlFilters.passesUser, ownerMatchesFilter, hid, hpattern]
  cases query.userFilter.bind nonEmpty with
  | none => rfl
  | some value =>
    simp only [Option.map_some, Option.getD_some, Option.bind_some, bne_iff_ne.mpr (pattern_ne (trim value)),
      Bool.not_true, Bool.false_eq_true, if_false]
    cases UserTexts.parseUuid (trim value) with
    | some userFilterId => exact congrArg some BEq.comm
    | none => simp only [ilike_pattern hfolding, hlower, Option.bind_eq_bind, Option.bind_some, Option.pure_def]

end Users

end AbyssBackend.Postgres
