import AbyssBackend.Library.Attempts
import AbyssBackend.Library.Numerals
import AbyssBackend.Usage.Windows

namespace AbyssBackend

open Attempts Numerals Ranges Streams Text

/-- How a text is quoted in a message, which the program takes from a library. -/
class DebugText where
  debug : String → String

structure PreviewQuery where
  entries : Option String
  textPreview : Option ℕ

/-- Rust's `str::parse` of a `usize`. -/
def parseUsize : List Char → Option ℕ
  | [] => none
  | ['+'] => none
  | '+' :: digits => readDigits SessionStructure.usizeMax 0 digits
  | digits => readDigits SessionStructure.usizeMax 0 digits

def splitOnce (separator : Char) : List Char → Option (List Char × List Char)
  | [] => none
  | c :: rest =>
    if c = separator then some ([], rest) else (splitOnce separator rest).map fun parts => (c :: parts.1, parts.2)

section Parse

variable [DebugText]

def invalidRun (run : String) : AppError := .validation s!"invalid entries run: {DebugText.debug run}"

def runIndex (run : String) (text : List Char) : Except AppError ℕ :=
  match parseUsize text with
  | some value => .ok value
  | none => .error (invalidRun run)

def runBounds (run : String) (text : List Char) : Except AppError (ℕ × ℕ) :=
  match splitOnce '-' text with
  | some (start, finish) => do
    let start ← runIndex run start
    let finish ← runIndex run finish
    return (start, finish)
  | none => do
    let place ← runIndex run text
    return (place, place)

def parseRun (run : String) : Except AppError Run :=
  match run.toList with
  | '-' :: count => do
    let count ← runIndex run count
    return .last count
  | text => do
    let bounds ← runBounds run text
    if bounds.1 > bounds.2 then .error (invalidRun run) else return .span bounds.1 bounds.2

def parseRuns (entries : String) : Except AppError (List Run) :=
  ((entries.toList.splitOn ',').map fun part => trim (String.ofList part)).mapM parseRun

def Window.parse (query : PreviewQuery) : Except AppError Window := do
  let runs ← query.entries.mapM parseRuns
  return ⟨runs, query.textPreview⟩

end Parse

/-- The indexes that the parser reads: a numeral, perhaps after one plus sign. -/
inductive SignedNumeral : List Char → ℕ → Prop
  | plain {digits : List Char} {n : ℕ} (h : Numeral SessionStructure.usizeMax digits n) : SignedNumeral digits n
  | plus {digits : List Char} {n : ℕ} (h : Numeral SessionStructure.usizeMax digits n) : SignedNumeral ('+' :: digits) n

/-- How a run is written over some way to write indexes. -/
inductive RunText (index : List Char → ℕ → Prop) : List Char → Run → Prop
  | span {start finish : List Char} {a b : ℕ} (hstart : index start a) (hfinish : index finish b) (h : a ≤ b) :
    RunText index (start ++ '-' :: finish) (.span a b)
  | last {count : List Char} {n : ℕ} (h : index count n) : RunText index ('-' :: count) (.last n)
  | one {place : List Char} {a : ℕ} (h : index place a) : RunText index place (.span a a)

/-- Runs between commas, each perhaps with white space around it. -/
def RunList (index : List Char → ℕ → Prop) (text : String) (runs : List Run) : Prop :=
  ∃ parts : List (List Char), parts ≠ [] ∧ (∀ part ∈ parts, ',' ∉ part) ∧ text.toList = [','].intercalate parts ∧
    List.Forall₂ (fun part run => RunText index (trim (String.ofList part)).toList run) parts runs

section Numeral

variable {text digits : List Char} {n : ℕ}

theorem SignedNumeral.nonempty (h : SignedNumeral text n) : text ≠ [] := by
  cases h with
  | plain h => exact h.nonempty
  | plus _ => exact List.cons_ne_nil _ _

theorem SignedNumeral.not_dash (h : SignedNumeral text n) : '-' ∉ text := by
  cases h with
  | plain h => exact h.not_mem (by decide)
  | plus h =>
    apply List.not_mem_cons_of_ne_of_not_mem (by decide)
    exact h.not_mem (by decide)

theorem parseUsize_eq_some : parseUsize text = some n ↔ SignedNumeral text n := by
  have hplus : ∀ {digits : List Char}, ¬ Numeral SessionStructure.usizeMax ('+' :: digits) n :=
    fun h => absurd (h.decimal '+' List.mem_cons_self) (by decide)
  unfold parseUsize
  split
  · constructor
    · intro h
      cases h
    · rintro (h | _)
      exact absurd rfl h.nonempty
  · constructor
    · intro h
      cases h
    · rintro (h | h)
      · exact absurd h hplus
      · exact absurd rfl h.nonempty
  · next digits hdigits =>
    rw [numeral_iff fun hnil => hdigits (by rw [hnil])]
    constructor
    · exact .plus
    · rintro (h | h)
      · exact absurd h hplus
      · exact h
  · next hnil _ hplain =>
    rw [numeral_iff hnil]
    constructor
    · exact .plain
    · rintro (h | h)
      · exact h
      · exact absurd rfl (hplain _)

theorem splitOnce_of_not_mem {separator : Char} (h : separator ∉ text) : splitOnce separator text = none := by
  induction text with
  | nil => rfl
  | cons c text ih =>
    rw [splitOnce, if_neg fun hsame => h (by simp [hsame]), ih fun hmem => h (List.mem_cons_of_mem _ hmem)]
    rfl

theorem splitOnce_append {separator : Char} {front back : List Char} (h : separator ∉ front) :
    splitOnce separator (front ++ separator :: back) = some (front, back) := by
  induction front with
  | nil => rw [List.nil_append, splitOnce, if_pos rfl]
  | cons c front ih =>
    rw [List.cons_append, splitOnce, if_neg fun hsame => h (by simp [hsame]),
      ih fun hmem => h (List.mem_cons_of_mem _ hmem)]
    rfl

theorem splitOnce_eq_some {separator : Char} {front back : List Char}
    (h : splitOnce separator text = some (front, back)) : text = front ++ separator :: back := by
  induction text generalizing front with
  | nil => cases h
  | cons c text ih =>
    rw [splitOnce] at h
    split at h
    · next hsame =>
      cases h
      rw [hsame, List.nil_append]
    · obtain ⟨⟨first, rest⟩, hparts, hsplit⟩ := Option.map_eq_some_iff.mp h
      cases hsplit
      rw [ih hparts, List.cons_append]

end Numeral

section Grammar

variable [DebugText] {run : String} {text : List Char} {n : ℕ}

theorem runIndex_eq_ok : runIndex run text = .ok n ↔ SignedNumeral text n := by
  rw [← parseUsize_eq_some, runIndex]
  cases parseUsize text <;> simp

theorem runBounds_eq_ok {bounds : ℕ × ℕ} : runBounds run text = .ok bounds ↔
    (∃ start finish, text = start ++ '-' :: finish ∧ SignedNumeral start bounds.1 ∧ SignedNumeral finish bounds.2) ∨
      SignedNumeral text bounds.1 ∧ bounds.2 = bounds.1 := by
  constructor
  · intro h
    unfold runBounds at h
    split at h
    · next start finish hsplit =>
      obtain ⟨a, ha, hlast⟩ := bind_eq_ok.mp h
      obtain ⟨b, hb, hpair⟩ := bind_eq_ok.mp hlast
      cases hpair
      exact Or.inl ⟨start, finish, splitOnce_eq_some hsplit, runIndex_eq_ok.mp ha, runIndex_eq_ok.mp hb⟩
    · obtain ⟨a, ha, hpair⟩ := bind_eq_ok.mp h
      cases hpair
      exact Or.inr ⟨runIndex_eq_ok.mp ha, rfl⟩
  · rintro (⟨start, finish, rfl, hstart, hfinish⟩ | ⟨hplace, hsame⟩)
    · rw [runBounds, splitOnce_append hstart.not_dash]
      apply bind_eq_ok.mpr
      refine ⟨bounds.1, runIndex_eq_ok.mpr hstart, ?_⟩
      exact bind_eq_ok.mpr ⟨bounds.2, runIndex_eq_ok.mpr hfinish, rfl⟩
    · rw [runBounds, splitOnce_of_not_mem hplace.not_dash]
      apply bind_eq_ok.mpr
      refine ⟨bounds.1, runIndex_eq_ok.mpr hplace, congrArg Except.ok ?_⟩
      exact Prod.ext rfl hsame.symm

theorem parseRun_of_not_dash (h : ∀ count, run.toList ≠ '-' :: count) {parsed : Run} : parseRun run = .ok parsed ↔
    ∃ bounds, runBounds run run.toList = .ok bounds ∧ bounds.1 ≤ bounds.2 ∧ parsed = .span bounds.1 bounds.2 := by
  unfold parseRun
  split
  · next count htext => exact absurd htext (h count)
  · rw [bind_eq_ok]
    apply exists_congr
    intro bounds
    apply and_congr_right
    intro _
    by_cases hle : bounds.1 ≤ bounds.2
    · rw [if_neg (by omega), and_iff_right hle]
      constructor
      · intro hparsed
        cases hparsed
        rfl
      · rintro rfl
        rfl
    · rw [if_pos (by omega)]
      constructor
      · intro hparsed
        cases hparsed
      · exact fun hparsed => absurd hparsed.1 hle

theorem parseRun_eq_ok {parsed : Run} : parseRun run = .ok parsed ↔ RunText SignedNumeral run.toList parsed := by
  by_cases hdash : ∃ count, run.toList = '-' :: count
  · obtain ⟨count, htext⟩ := hdash
    rw [htext]
    constructor
    · intro h
      unfold parseRun at h
      rw [htext] at h
      obtain ⟨n, hn, hparsed⟩ := bind_eq_ok.mp h
      cases hparsed
      exact .last (runIndex_eq_ok.mp hn)
    · intro h
      generalize hrun : '-' :: count = text at h
      cases h with
      | @span start _ _ _ hstart =>
        cases start with
        | nil => exact absurd rfl hstart.nonempty
        | cons c start =>
          cases hrun
          exact absurd List.mem_cons_self hstart.not_dash
      | last h =>
        cases hrun
        unfold parseRun
        rw [htext]
        exact bind_eq_ok.mpr ⟨_, runIndex_eq_ok.mpr h, rfl⟩
      | one h =>
        cases hrun
        exact absurd List.mem_cons_self h.not_dash
  · have hne : ∀ count, run.toList ≠ '-' :: count := fun count htext => hdash ⟨count, htext⟩
    rw [parseRun_of_not_dash hne]
    constructor
    · rintro ⟨⟨a, b⟩, hbounds, hle, rfl⟩
      obtain ⟨start, finish, htext, hstart, hfinish⟩ | ⟨hplace, hsame⟩ := runBounds_eq_ok.mp hbounds
      · rw [htext]
        exact .span hstart hfinish hle
      · cases hsame
        exact .one hplace
    · intro h
      generalize htext : run.toList = text at h
      cases h with
      | @span _ _ a b hstart hfinish hle =>
        exact ⟨(a, b), runBounds_eq_ok.mpr (Or.inl ⟨_, _, rfl, hstart, hfinish⟩), hle, rfl⟩
      | last h => exact absurd htext (hne _)
      | @one _ a h => exact ⟨(a, a), runBounds_eq_ok.mpr (Or.inr ⟨h, rfl⟩), Nat.le_refl _, rfl⟩

theorem invalidRun_of_error {e : AppError} (h : parseRun run = .error e) : e = invalidRun run := by
  have hindex : ∀ {text}, runIndex run text = .error e → e = invalidRun run := by
    intro text h
    unfold runIndex at h
    split at h <;> cases h
    rfl
  have hbounds : ∀ {text}, runBounds run text = .error e → e = invalidRun run := by
    intro text h
    unfold runBounds at h
    split at h
    · obtain hfirst | ⟨_, -, h⟩ := bind_eq_error.mp h
      · exact hindex hfirst
      · obtain hlast | ⟨_, -, h⟩ := bind_eq_error.mp h
        · exact hindex hlast
        · cases h
    · obtain hplace | ⟨_, -, h⟩ := bind_eq_error.mp h
      · exact hindex hplace
      · cases h
  unfold parseRun at h
  split at h
  · obtain hcount | ⟨_, -, h⟩ := bind_eq_error.mp h
    · exact hindex hcount
    · cases h
  · obtain herror | ⟨bounds, -, h⟩ := bind_eq_error.mp h
    · exact hbounds herror
    · split at h <;> cases h
      rfl

end Grammar

section RunList

variable {index : List Char → ℕ → Prop} {text : String} {runs : List Run}

theorem not_mem_of_mem_splitOn {separator : Char} {text part : List Char} (h : part ∈ text.splitOn separator) :
    separator ∉ part := by
  induction text generalizing part with
  | nil =>
    rw [List.splitOn_nil, List.mem_singleton] at h
    rw [h]
    exact List.not_mem_nil
  | cons c text ih =>
    obtain ⟨first, rest, hparts⟩ := List.exists_cons_of_ne_nil (List.splitOn_ne_nil separator text)
    rw [List.splitOn_cons_eq_if_modifyHead, hparts] at h
    rw [hparts] at ih
    by_cases hsame : c = separator
    · rw [if_pos (by simpa using hsame)] at h
      obtain rfl | h := List.mem_cons.mp h
      · exact List.not_mem_nil
      · exact ih h
    · rw [if_neg (by simpa using hsame), List.modifyHead_cons] at h
      obtain rfl | h := List.mem_cons.mp h
      · exact List.not_mem_cons_of_ne_of_not_mem (Ne.symm hsame) (ih List.mem_cons_self)
      · exact ih (List.mem_cons_of_mem _ h)

theorem runList_iff : RunList index text runs ↔
    List.Forall₂ (fun part run => RunText index (trim (String.ofList part)).toList run) (text.toList.splitOn ',') runs := by
  constructor
  · rintro ⟨parts, hne, hcommas, htext, hruns⟩
    rw [htext, List.splitOn_intercalate ',' hcommas hne]
    exact hruns
  · intro hruns
    refine ⟨text.toList.splitOn ',', List.splitOn_ne_nil _ _, ?_, (List.intercalate_splitOn ',').symm, hruns⟩
    exact fun part hpart => not_mem_of_mem_splitOn hpart

end RunList

section Window

variable [DebugText]

theorem parseRuns_eq_ok {entries : String} {runs : List Run} :
    parseRuns entries = .ok runs ↔ RunList SignedNumeral entries runs := by
  rw [runList_iff, parseRuns, mapM_eq_ok, List.forall₂_map_left_iff]
  simp only [parseRun_eq_ok]

theorem Window.parse_some (entries : String) (textPreview : Option ℕ) : Window.parse ⟨some entries, textPreview⟩ =
    parseRuns entries >>= fun runs => .ok ⟨some runs, textPreview⟩ := by
  unfold Window.parse
  rw [Option.mapM_some, bind_map_left]
  rfl

theorem Window.parse_eq_ok {query : PreviewQuery} {window : Window} : Window.parse query = .ok window ↔
    window.textPreview = query.textPreview ∧ Option.Rel (RunList SignedNumeral) query.entries window.runs := by
  obtain ⟨entries, textPreview⟩ := query
  obtain ⟨runs, preview⟩ := window
  cases entries with
  | none =>
    constructor
    · intro h
      cases h
      exact ⟨rfl, .none⟩
    · rintro ⟨rfl, ⟨⟩⟩
      rfl
  | some entries =>
    rw [parse_some, bind_eq_ok]
    constructor
    · rintro ⟨read, hread, hwindow⟩
      cases hwindow
      exact ⟨rfl, .some (parseRuns_eq_ok.mp hread)⟩
    · rintro ⟨rfl, hruns⟩
      cases hruns with
      | some hruns => exact ⟨_, parseRuns_eq_ok.mpr hruns, rfl⟩

/-- The entries parameter is read as its grammar says, its indexes perhaps after a plus sign, and refused otherwise. -/
theorem Window.parse_grammar (query : PreviewQuery) :
    (∀ window, Window.parse query = .ok window ↔
      window.textPreview = query.textPreview ∧ Option.Rel (RunList SignedNumeral) query.entries window.runs) ∧
    (∀ e, Window.parse query = .error e → ∃ message, e = .validation message) ∧
    ∀ window, Window.parse query = .ok window → ∀ total ≤ SessionStructure.usizeMax, ∀ i,
      Holds (window.ranges total) i ↔ i < total ∧ window.Asks total i := by
  refine ⟨fun window => parse_eq_ok, fun e h => ?_, fun window _ total htotal => ?_⟩
  · obtain ⟨entries, textPreview⟩ := query
    cases entries with
    | none => cases h
    | some entries =>
      rw [parse_some] at h
      obtain hruns | ⟨_, -, h⟩ := bind_eq_error.mp h
      · obtain ⟨run, -, hrun⟩ := mapM_error hruns
        exact ⟨_, invalidRun_of_error hrun⟩
      · cases h
  · exact (window.ranges_selects htotal).holds

end Window

/-- A plus sign before an index is no digit, but is taken. -/
theorem Window.parse_plus : @Window.parse ⟨String.quote⟩ ⟨some "+1", none⟩ = .ok ⟨some [.span 1 1], none⟩ ∧
    ¬ ∃ runs, RunList (Numeral SessionStructure.usizeMax) "+1" runs := by
  refine ⟨by decide, ?_⟩
  rintro ⟨runs, hruns⟩
  rw [runList_iff] at hruns
  have hparts : "+1".toList.splitOn ',' = [['+', '1']] := by decide
  rw [hparts] at hruns
  have htrim : (trim (String.ofList ['+', '1'])).toList = ['+', '1'] := by decide
  cases hruns with
  | cons hrun =>
    rw [htrim] at hrun
    generalize hplus : ['+', '1'] = text at hrun
    cases hrun with
    | span hstart =>
      have hdash := congrArg ('-' ∈ ·) hplus
      simp at hdash
    | last => cases hplus
    | one hplace =>
      cases hplus
      exact absurd (hplace.decimal '+' List.mem_cons_self) (by decide)

end AbyssBackend
