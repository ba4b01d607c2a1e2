import AbyssBackend.Streams.Fixtures

namespace AbyssBackend.Streams

open Conversation Positions Text

/-- The run that reaches back from the last model-side entry, what is before it and what is after it. -/
structure LastRun (entries before run after : List Entry) : Prop where
  split : entries = before ++ run ++ after
  last : ∃ entry ∈ run.getLast?, isModelSide entry = true
  inside : ∀ entry ∈ run, isModelSide entry = true ∨ entry.role = "tool_result"
  starts : ∀ entry ∈ before.getLast?, isModelSide entry = false ∧ entry.role ≠ "tool_result"
  ends : ∀ entry ∈ after, isModelSide entry = false

/-- An entry that no run goes through. -/
def breaksRun (entry : Entry) : Bool := !isModelSide entry && entry.role != "tool_result"

section Run

variable {entries before run after : List Entry} {entry : Entry}

theorem breaksRun_iff : breaksRun entry = true ↔ isModelSide entry = false ∧ entry.role ≠ "tool_result" := by
  simp [breaksRun]

theorem breaksRun_eq_false : breaksRun entry = false ↔ isModelSide entry = true ∨ entry.role = "tool_result" := by
  rw [← Bool.not_eq_true, breaksRun_iff, not_and_or, Bool.not_eq_false, not_not]

/-- The run that reaches back from an entry, through what is before it. -/
theorem exists_start (front : List Entry) : ∃ before inside, front = before ++ inside ∧
    (∀ entry ∈ before.getLast?, isModelSide entry = false ∧ entry.role ≠ "tool_result") ∧
    ∀ entry ∈ inside, isModelSide entry = true ∨ entry.role = "tool_result" := by
  cases hstart : rposition breaksRun front with
  | none =>
    have hinside := rposition_eq_none.mp hstart
    exact ⟨[], front, rfl, by simp, fun entry hentry => breaksRun_eq_false.mp (hinside entry hentry)⟩
  | some other =>
    obtain ⟨before, first, inside, rfl, -, hfirst, hinside⟩ := rposition_split hstart
    refine ⟨before ++ [first], inside, by simp, ?_, fun entry hentry => breaksRun_eq_false.mp (hinside entry hentry)⟩
    intro entry hentry
    rw [List.getLast?_concat, Option.mem_some_iff] at hentry
    rw [← hentry]
    exact breaksRun_iff.mp hfirst

theorem exists_lastRun (h : ∃ entry ∈ entries, isModelSide entry = true) :
    ∃ before run after, LastRun entries before run after := by
  obtain ⟨front, final, after, rfl, hfinal, hafter⟩ := exists_last h
  obtain ⟨before, inside, rfl, hstarts, hinside⟩ := exists_start front
  refine ⟨before, inside ++ [final], after, by simp, ⟨final, by simp, hfinal⟩, fun entry hentry => ?_, hstarts, hafter⟩
  obtain hentry | hentry := List.mem_append.mp hentry
  · exact hinside entry hentry
  · rw [List.mem_singleton.mp hentry]
    exact .inl hfinal

theorem runStart_eq_getD (entries : List Entry) (last : ℕ) :
    runStart entries last = ((rposition breaksRun (entries.take last)).map (· + 1)).getD 0 := by
  have hbreaks : rposition (fun entry => !isModelSide entry && entry.role != "tool_result") (entries.take last) =
      rposition breaksRun (entries.take last) := rfl
  rw [runStart, hbreaks]
  cases rposition breaksRun (entries.take last) with
  | none => rfl
  | some other => rfl

theorem LastRun.runStart_eq (h : LastRun entries before run after) {middle : List Entry} {final : Entry}
    (hrun : run = middle ++ [final]) : runStart entries (before ++ middle).length = before.length := by
  have htake : entries.take (before ++ middle).length = before ++ middle := by
    rw [h.split, hrun, ← List.append_assoc before, List.append_assoc, List.take_left]
  have hinside : ∀ entry ∈ middle, breaksRun entry = false :=
    fun entry hentry => breaksRun_eq_false.mpr (h.inside entry (by simp [hrun, hentry]))
  rw [runStart_eq_getD, htake, rposition_append_none before hinside]
  rcases List.eq_nil_or_concat before with rfl | ⟨front, first, rfl⟩
  · rfl
  · have hfirst : rposition breaksRun (front ++ [first]) = some front.length :=
      rposition_append_cons front (breaksRun_iff.mpr (h.starts first (by simp))) (by simp)
    rw [List.concat_eq_append, hfirst, List.length_append]
    rfl

/-- What the backward scans for the last run find. -/
theorem LastRun.scanned (h : LastRun entries before run after) : ∃ last, rposition isModelSide entries = some last ∧
    last + 1 = (before ++ run).length ∧ runStart entries last = before.length ∧
    (entries.take (last + 1)).drop before.length = run := by
  obtain ⟨final, hlast, hfinal⟩ := h.last
  obtain ⟨middle, hrun⟩ := List.getLast?_eq_some_iff.mp hlast
  have hlength : (before ++ middle).length + 1 = (before ++ run).length := by
    rw [hrun]
    simp only [List.length_append, List.length_singleton]
    omega
  refine ⟨(before ++ middle).length, ?_, hlength, h.runStart_eq hrun, ?_⟩
  · have hsplit : entries = (before ++ middle) ++ final :: after := by simp [h.split, hrun]
    rw [hsplit]
    exact rposition_append_cons _ hfinal h.ends
  · rw [hlength, h.split, List.take_left, List.drop_left]

end Run

section Facts

variable [Sha256]

@[simp] theorem identitiesOf_append (front back : List Entry) :
    identitiesOf (front ++ back) = identitiesOf front ++ identitiesOf back :=
  List.flatMap_append

theorem getLast?_identitiesOf_concat (front : List Entry) {held : Entry} (h : identities held ≠ []) :
    (identitiesOf (front ++ [held])).getLast? = (identities held).getLast? := by
  obtain ⟨identity, hidentity⟩ := Option.isSome_iff_exists.mp (List.getLast?_isSome.mpr h)
  have hheld : identitiesOf [held] = identities held := List.flatMap_singleton ..
  rw [identitiesOf_append, hheld, List.getLast?_append, hidentity]
  rfl

/-- The last entry of the last run that has an identity, what is before it and what is after it. -/
structure HeldEntry (entries front : List Entry) (held : Entry) (back : List Entry) : Prop where
  identified : identities held ≠ []
  place : ∃ before inside rest after, LastRun entries before (inside ++ held :: rest) after ∧
    front = before ++ inside ∧ back = rest ++ after ∧ ∀ entry ∈ rest, identities entry = []

/-- What a request's facts say of its held entry. -/
structure HeldFacts (facts : RequestFacts) (front : List Entry) (held : Entry) (back : List Entry) : Prop where
  last : facts.lastIdentity = (identitiesOf (front ++ [held])).getLast?
  previous : facts.previousIdentity =
    ((identitiesOf (front ++ [held])).filter fun identity => some identity != facts.lastIdentity).getLast?
  trailing : facts.trailing = (back.filter isModelSide).map Entry.role
  unidentified : ∀ entry ∈ back, isModelSide entry = true → identities entry = []

/-- What a request's facts say of its entries. -/
structure EntryFacts (facts : RequestFacts) (entries : List Entry) : Prop where
  newPart : ∃ newFrom : ℕ, facts.newFrom = newFrom ∧ (∀ entry ∈ entries.drop newFrom, isModelSide entry = false) ∧
    ((0 < newFrom ∧ ∃ entry ∈ entries[newFrom - 1]?, isModelSide entry = true) ∨
      (newFrom = 0 ∧ ∀ entry ∈ entries, isModelSide entry = false))
  held : ∀ front held back, HeldEntry entries front held back → HeldFacts facts front held back
  unheld : (¬ ∃ front held back, HeldEntry entries front held back) →
    facts.lastIdentity = none ∧ facts.previousIdentity = none ∧ facts.trailing = []
  identified : facts.lastIdentity.isSome ↔
    ∃ before run after, LastRun entries before run after ∧ ∃ entry ∈ run, identities entry ≠ []
  resultIds : facts.resultIds ≠ [] → facts.newFrom = 0
  startsTurn : facts.startsTurn = true → ∃ label, facts.label = some label

section Held

variable {entries before run after front back : List Entry} {held : Entry}

theorem LastRun.exists_held (h : LastRun entries before run after) (hrun : ∃ entry ∈ run, identities entry ≠ []) :
    ∃ front held back, HeldEntry entries front held back := by
  have hsome : ∃ entry ∈ run, (!(identities entry).isEmpty) = true := by simpa using hrun
  obtain ⟨inside, held, rest, rfl, hheld, hrest⟩ := exists_last hsome
  refine ⟨before ++ inside, held, rest ++ after, ?_, before, inside, rest, after, h, rfl, rfl, ?_⟩
  · simpa using hheld
  · simpa using hrest

/-- What the scans for the held entry find: its identities, those up to it, and what trails it. -/
theorem LastRun.ofEntries_held {inside rest : List Entry} (h : LastRun entries before (inside ++ held :: rest) after)
    (hidentified : identities held ≠ []) (hrest : ∀ entry ∈ rest, identities entry = []) :
    (RequestFacts.ofEntries entries).lastIdentity = (identities held).getLast? ∧
      (∀ last ∈ (identities held).getLast?, (RequestFacts.ofEntries entries).previousIdentity =
        (identitiesOf (before ++ inside ++ [held])).reverse.find? fun identity => identity != last) ∧
      (RequestFacts.ofEntries entries).trailing = (rest.filter isModelSide).map Entry.role := by
  obtain ⟨last, hlast, -, hstart, hslice⟩ := h.scanned
  have hheld : rposition (fun entry => !(identities entry).isEmpty) (inside ++ held :: rest) = some inside.length := by
    apply rposition_append_cons
    · simpa using hidentified
    · simpa using hrest
  have hget : (inside ++ held :: rest)[inside.length]? = some held := by simp
  refine ⟨?_, fun identity hidentity => ?_, ?_⟩
  · obtain ⟨identity, hidentity⟩ := Option.isSome_iff_exists.mp (List.getLast?_isSome.mpr hidentified)
    simp only [RequestFacts.ofEntries, hlast, hstart, hslice, hheld, Option.bind_some, hget, hidentity]
  · have htake : entries.take (before.length + inside.length + 1) = before ++ inside ++ [held] := by
      have hsplit : entries = (before ++ inside ++ [held]) ++ (rest ++ after) := by simp [h.split]
      have hcount : before.length + inside.length + 1 = (before ++ inside ++ [held]).length := by
        simp only [List.length_append, List.length_singleton]
      rw [hsplit, hcount, List.take_left]
    have hreverse : (before ++ inside ++ [held]).reverse.flatMap (fun entry => (identities entry).reverse) =
        (identitiesOf (before ++ inside ++ [held])).reverse := by
      simp [identitiesOf, List.reverse_flatMap, Function.comp_def]
    simp only [RequestFacts.ofEntries, hlast, hstart, hslice, hheld, Option.bind_some, hget,
      Option.mem_def.mp hidentity, htake, hreverse]
  · have hdrop : (inside ++ held :: rest).drop (inside.length + 1) = rest := by
      rw [List.drop_length_add_append]
      rfl
    simp only [RequestFacts.ofEntries, hlast, hstart, hslice, hheld, hdrop]

theorem HeldEntry.facts (h : HeldEntry entries front held back) :
    HeldFacts (RequestFacts.ofEntries entries) front held back := by
  obtain ⟨hidentified, before, inside, rest, after, hrun, rfl, rfl, hrest⟩ := h
  obtain ⟨hlast, hprevious, htrailing⟩ := hrun.ofEntries_held hidentified hrest
  constructor
  · rw [hlast, getLast?_identitiesOf_concat _ hidentified]
  · obtain ⟨identity, hidentity⟩ := Option.isSome_iff_exists.mp (List.getLast?_isSome.mpr hidentified)
    have hother : (fun other : String => some other != some identity) = fun other => other != identity := by
      funext other
      simp [bne]
    rw [hprevious identity hidentity, hlast, hidentity, hother, ← List.head?_filter, List.filter_reverse,
      List.head?_reverse]
  · have hafter : after.filter isModelSide = [] := by simpa using hrun.ends
    rw [htrailing, List.filter_append, hafter, List.append_nil]
  · intro entry hentry hside
    obtain hentry | hentry := List.mem_append.mp hentry
    · exact hrest entry hentry
    · rw [hrun.ends entry hentry] at hside
      cases hside

theorem ofEntries_unheld (h : ¬ ∃ front held back, HeldEntry entries front held back) :
    (RequestFacts.ofEntries entries).lastIdentity = none ∧ (RequestFacts.ofEntries entries).previousIdentity = none ∧
      (RequestFacts.ofEntries entries).trailing = [] := by
  by_cases hsome : ∃ entry ∈ entries, isModelSide entry = true
  · obtain ⟨before, run, after, hrun⟩ := exists_lastRun hsome
    obtain ⟨last, hlast, -, hstart, hslice⟩ := hrun.scanned
    have hnone : rposition (fun entry => !(identities entry).isEmpty) run = none := by
      rw [rposition_eq_none]
      intro entry hentry
      by_contra hidentified
      exact h (hrun.exists_held ⟨entry, hentry, by simpa using hidentified⟩)
    simp only [RequestFacts.ofEntries, hlast, hstart, hslice, hnone]
    exact ⟨rfl, rfl, trivial⟩
  · have hlast : rposition isModelSide entries = none := rposition_eq_none.mpr (by simpa using hsome)
    simp only [RequestFacts.ofEntries, hlast]
    exact ⟨trivial, trivial, trivial⟩

theorem ofEntries_identified : (RequestFacts.ofEntries entries).lastIdentity.isSome ↔
    ∃ before run after, LastRun entries before run after ∧ ∃ entry ∈ run, identities entry ≠ [] := by
  constructor
  · intro hsome
    by_contra hnone
    have hunheld : ¬ ∃ front held back, HeldEntry entries front held back := by
      rintro ⟨front, held, back, hidentified, before, inside, rest, after, hrun, -⟩
      exact hnone ⟨before, inside ++ held :: rest, after, hrun, held, by simp, hidentified⟩
    rw [(ofEntries_unheld hunheld).1] at hsome
    cases hsome
  · rintro ⟨before, run, after, hrun, hidentified⟩
    obtain ⟨front, held, back, hheld⟩ := hrun.exists_held hidentified
    rw [hheld.facts.last, List.getLast?_isSome, identitiesOf_append]
    intro hempty
    apply hheld.identified
    have hlast := (List.append_eq_nil_iff.mp hempty).2
    rwa [identitiesOf, List.flatMap_singleton] at hlast

end Held

section NewPart

variable {entries : List Entry}

omit [Sha256] in
theorem toI32_of_le {value : ℕ} (h : value ≤ i32Max) : toI32 value = value := by
  rw [toI32]
  omega

omit [Sha256] in
theorem exists_label {newFrom : ℕ} (h : startsTurn (entries.drop newFrom) = true) :
    ∃ label, Label.of entries newFrom = some label := by
  rw [startsTurn, Bool.and_eq_true, List.any_eq_true] at h
  obtain ⟨offset, hoffset⟩ : ∃ offset,
      rposition (fun entry => entry.role == "user" && entry.text != "") (entries.drop newFrom) = some offset := by
    rw [← Option.ne_none_iff_exists', Ne, rposition_eq_none]
    intro hnone
    obtain ⟨entry, hentry, hwords⟩ := h.1
    rw [hnone entry hentry] at hwords
    cases hwords
  obtain ⟨entry, hentry, -⟩ := rposition_eq_some.mp hoffset
  rw [List.getElem?_drop] at hentry
  simp only [Label.of, hoffset, Option.bind_eq_bind, Option.bind_some, hentry]
  exact ⟨_, rfl⟩

theorem ofEntries_newPart (entries : List Entry) : ∃ newFrom ≤ entries.length,
    (RequestFacts.ofEntries entries).newFrom = toI32 newFrom ∧
    (RequestFacts.ofEntries entries).startsTurn = startsTurn (entries.drop newFrom) ∧
    (RequestFacts.ofEntries entries).label = Label.of entries newFrom ∧
    ((RequestFacts.ofEntries entries).resultIds ≠ [] → newFrom = 0) ∧
    (∀ entry ∈ entries.drop newFrom, isModelSide entry = false) ∧
    ((0 < newFrom ∧ ∃ entry ∈ entries[newFrom - 1]?, isModelSide entry = true) ∨
      (newFrom = 0 ∧ ∀ entry ∈ entries, isModelSide entry = false)) := by
  cases hlast : rposition isModelSide entries with
  | none =>
    have hnone := rposition_eq_none.mp hlast
    simp only [RequestFacts.ofEntries, hlast]
    exact ⟨0, Nat.zero_le _, rfl, rfl, rfl, fun _ => rfl, hnone, .inr ⟨rfl, hnone⟩⟩
  | some last =>
    obtain ⟨front, final, back, rfl, hlength, hfinal, hback⟩ := rposition_split hlast
    have hdrop : (front ++ final :: back).drop (last + 1) = back := by
      rw [← hlength, List.drop_length_add_append]
      rfl
    simp only [RequestFacts.ofEntries, hlast]
    refine ⟨last + 1, ?_, rfl, rfl, rfl, fun hne => absurd rfl hne, ?_, .inl ⟨Nat.succ_pos last, final, ?_, hfinal⟩⟩
    · rw [← hlength, List.length_append, List.length_cons]
      omega
    · rw [hdrop]
      exact hback
    · rw [Nat.add_sub_cancel, ← hlength]
      simp

end NewPart

/-- The facts of a request with a complete conversation are about its new part and its held entry. -/
theorem RequestFacts.read_entryFacts {conversation : Option Value} {complete : Conversation}
    (h : Conversation.read conversation = some complete) (hlength : complete.entries.length < 2147483648) :
    EntryFacts (RequestFacts.read conversation) complete.entries := by
  have hentries : conversationEntries conversation = complete.entries := by rw [conversationEntries, h]
  rw [RequestFacts.read, hentries]
  obtain ⟨newFrom, hle, hnewFrom, hstarts, hlabel, hresults, hnew, hsent⟩ := ofEntries_newPart complete.entries
  rw [toI32_of_le (by unfold i32Max; omega)] at hnewFrom
  refine ⟨⟨newFrom, hnewFrom, hnew, hsent⟩, fun front held back hheld => hheld.facts, ofEntries_unheld,
    ofEntries_identified, fun hne => ?_, fun hturn => ?_⟩
  · rw [hnewFrom, hresults hne]
    rfl
  · rw [hlabel]
    exact exists_label (hstarts ▸ hturn)

end Facts

section Resent

open Fixtures

local instance heldDigest : Sha256 := okDigest

/-- A call is held: the blank answer after it has no identity. -/
def blankAnswer : List Entry :=
  [user "go", assistant "ok", user "more", call "a", result "a", assistant " ", user "next"]

theorem read_entryFacts_blankAnswer : RequestFacts.read (some (write blankAnswer)) =
      { newFrom := 6
        lastIdentity := some "a"
        previousIdentity := some "text:assistant:2689367b205c16ce32ed4200942b8b8b1e262dfc70d9bc9fbc77c49699a4f1df"
        trailing := ["assistant"]
        resultIds := []
        startsTurn := true
        label := some ⟨6, "next", 4⟩ } ∧
    EntryFacts (RequestFacts.read (some (write blankAnswer))) blankAnswer :=
  ⟨by decide +kernel, RequestFacts.read_entryFacts (read_write blankAnswer) (by decide)⟩

end Resent

end AbyssBackend.Streams
