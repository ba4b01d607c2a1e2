import AbyssBackend.Library.Erasure
import AbyssBackend.Postgres.Fragments
import AbyssBackend.Storage.Fixtures

namespace AbyssBackend.Postgres

open Conversation Markers Storage Text

def maxContentCharacters : ℕ := 1000000

def maxMetadataFieldCharacters : ℕ := 100000

def maxExtractedValues : ℕ := 64

/-- Searchable values derived from one source usage event. -/
structure SearchProjection where
  content : Option String
  toolNames : List String
  toolContent : List String

def sanitizeSearchText (value : String) : String :=
  String.ofList (erase highlightEnd (erase highlightStart value.toList))

def truncateCharacters (value : String) (maximum : ℕ) : String :=
  if value.toList.length ≤ maximum then value else String.ofList (value.toList.take maximum)

def pushBounded (values : List String) (value : String) : List String :=
  let value := trim (sanitizeSearchText value)
  if value = "" ∨ maxExtractedValues ≤ values.length then values
  else
    let value := truncateCharacters value maxMetadataFieldCharacters
    if value ∈ values then values else values ++ [value]

def searchedEntries (conversation : Option Value) : List Value :=
  ((conversation.bind (Value.get "entries")).bind Value.asArray).getD []

def toolCallName (entry : Value) : Option String :=
  if (entry.get "role").bind Value.asStr = some "tool_call" then (entry.get "name").bind Value.asStr else none

def entryText (entry : Value) : Option String := ((entry.get "text").bind Value.asStr).filter (· ≠ "")

/-- One turn of the loop over the entries, with the tool names and the texts there are. -/
def projectEntry (projected : List String × List String) (entry : Value) : List String × List String :=
  ((toolCallName entry).elim projected.1 (pushBounded projected.1), projected.2 ++ (entryText entry).toList)

def SearchProjection.fromSource (conversation : Option Value) : SearchProjection :=
  let (toolNames, texts) := (searchedEntries conversation).foldl projectEntry ([], [])
  { content := if texts = [] then none else
      some (truncateCharacters (sanitizeSearchText ("\n".intercalate texts)) maxContentCharacters)
    toolNames
    toolContent := [] }

/-- Full-text search document for one immutable usage event. -/
structure SearchDocument where
  eventPk : Uuid
  userId : Uuid
  sessionPk : Uuid
  sessionId : String
  agentName : String
  llmProvider : String
  llmModel : String
  eventType : String
  observedAt : ℤ
  content : Option String
  toolNames : List String
  toolContent : List String

def SearchDocument.fromEvent (event : EventRow) : SearchDocument :=
  let projection := SearchProjection.fromSource event.conversation
  { eventPk := event.id
    userId := event.userId
    sessionPk := event.sessionPk
    sessionId := sanitizeSearchText event.sessionId
    agentName := event.agentName
    llmProvider := event.llmProvider
    llmModel := event.llmModel
    eventType := event.eventType
    observedAt := event.observedAt
    content := projection.content
    toolNames := projection.toolNames
    toolContent := projection.toolContent }

/-- A text that no highlight can be read from. -/
def Clear (text : String) : Prop := ¬ highlightStart <:+: text.toList ∧ ¬ highlightEnd <:+: text.toList

structure SearchDocument.AllClear (document : SearchDocument) : Prop where
  sessionId : Clear document.sessionId
  content : ∀ text, document.content = some text → Clear text
  toolNames : ∀ name ∈ document.toolNames, Clear name

/-- A text in which a marker is torn by markers that are stripped from it. -/
def Forges (text : String) : Prop := Forged highlightStart highlightEnd text.toList

def calledTools (conversation : Option Value) : List String := (searchedEntries conversation).filterMap toolCallName

/-- The text of every entry, in order. -/
def joinedTexts (conversation : Option Value) : String :=
  "\n".intercalate ((searchedEntries conversation).filterMap entryText)

/-- No field of the event forges a marker. -/
structure Honest (event : EventRow) : Prop where
  sessionId : ¬ Forges event.sessionId
  content : ¬ Forges (joinedTexts event.conversation)
  toolNames : ∀ name ∈ calledTools event.conversation, ¬ Forges name

/-- An event of which nothing is cut off. -/
structure Uncut (event : EventRow) : Prop where
  content : (joinedTexts event.conversation).length ≤ maxContentCharacters
  count : (calledTools event.conversation).length ≤ maxExtractedValues
  toolNames : ∀ name ∈ calledTools event.conversation, name.length ≤ maxMetadataFieldCharacters

section Text

variable {text text' name : String} {values names : List String}

theorem highlight_pair : Pair highlightStart highlightEnd where
  first_ne_nil := highlightStart_ne_nil
  second_ne_nil := highlightEnd_ne_nil
  first_separate := highlightStart_separate
  second_separate := highlightEnd_separate
  first_foreign := ⟨separate_of_forall (by decide), by decide, by decide⟩
  second_foreign := ⟨separate_of_forall (by decide), by decide, by decide⟩

theorem sanitizeSearchText_clear (text : String) : Clear (sanitizeSearchText text) ↔ ¬ Forges text := by
  rw [Clear, sanitizeSearchText, String.toList_ofList, Forges]
  exact highlight_pair.clear_iff

theorem Clear.mono (h : Clear text) (hin : text'.toList <:+: text.toList) : Clear text' :=
  ⟨fun hstart => h.1 (hstart.trans hin), fun hend => h.2 (hend.trans hin)⟩

theorem truncateCharacters_starts (text : String) (maximum : ℕ) :
    (truncateCharacters text maximum).toList <+: text.toList := by
  rw [truncateCharacters]
  split
  · exact List.prefix_rfl
  · rw [String.toList_ofList]
    exact List.take_prefix _ _

theorem trim_within (text : String) : (trim text).toList <:+: text.toList := by
  rw [trim, String.toList_ofList]
  have hend := List.rdropWhile_prefix isWhitespace (text.toList.dropWhile isWhitespace)
  exact hend.isInfix.trans (List.dropWhile_suffix _).isInfix

theorem infix_dropWhile {p : Char → Bool} {c : Char} {m text : List Char} (hc : p c = false)
    (h : c :: m <:+: text) : c :: m <:+: text.dropWhile p := by
  induction text with
  | nil => exact h
  | cons d text ih =>
    rw [List.dropWhile_cons]
    split
    · next hd =>
      obtain hpre | hin := List.infix_cons_iff.mp h
      · rw [List.cons_prefix_cons] at hpre
        rw [hpre.1, hd] at hc
        cases hc
      · exact ih hin
    · exact h

theorem infix_rdropWhile {p : Char → Bool} {c : Char} {m text : List Char} (hc : p c = false)
    (h : m ++ [c] <:+: text) : m ++ [c] <:+: text.rdropWhile p := by
  rw [← List.reverse_infix, List.reverse_append] at h ⊢
  rw [List.rdropWhile, List.reverse_reverse]
  exact infix_dropWhile hc h

theorem infix_trim {m : List Char} (hfirst : ∃ c rest, m = c :: rest ∧ isWhitespace c = false)
    (hlast : ∃ rest c, m = rest ++ [c] ∧ isWhitespace c = false) (h : m <:+: text.toList) :
    m <:+: (trim text).toList := by
  rw [trim, String.toList_ofList]
  obtain ⟨c, rest, rfl, hc⟩ := hfirst
  obtain ⟨front, d, hlast, hd⟩ := hlast
  have hdropped := infix_dropWhile hc h
  rw [hlast] at hdropped ⊢
  exact infix_rdropWhile hd hdropped

theorem Clear.of_trim (h : Clear (trim text)) : Clear text := by
  constructor
  · intro hin
    exact h.1 (infix_trim ⟨'[', highlightStart.tail, by decide, by decide⟩
      ⟨highlightStart.dropLast, ']', by decide, by decide⟩ hin)
  · intro hin
    exact h.2 (infix_trim ⟨'[', highlightEnd.tail, by decide, by decide⟩
      ⟨highlightEnd.dropLast, ']', by decide, by decide⟩ hin)

theorem sanitizeSearchText_length (text : String) : (sanitizeSearchText text).length ≤ text.length := by
  rw [← String.length_toList, sanitizeSearchText, String.toList_ofList, ← String.length_toList]
  exact (erase_length _ _).trans (erase_length _ _)

/-- What is pushed is clear where the name forges nothing, and nothing else is there. -/
theorem pushBounded_clear (hvalues : ∀ value ∈ values, Clear value) (hname : ¬ Forges name) :
    ∀ value ∈ pushBounded values name, Clear value := by
  intro value hvalue
  rw [pushBounded] at hvalue
  split at hvalue
  · exact hvalues value hvalue
  · dsimp only at hvalue
    split at hvalue
    · exact hvalues value hvalue
    · obtain hvalue | hvalue := List.mem_append.mp hvalue
      · exact hvalues value hvalue
      · rw [List.mem_singleton.mp hvalue]
        exact ((sanitizeSearchText_clear name).mpr hname).mono
          ((truncateCharacters_starts _ _).isInfix.trans (trim_within _))

theorem pushBounded_keeps (values : List String) (name : String) : values <+: pushBounded values name := by
  rw [pushBounded]
  split
  · exact List.prefix_rfl
  · dsimp only
    split
    · exact List.prefix_rfl
    · exact List.prefix_append values _

theorem pushBounded_length (values : List String) (name : String) :
    (pushBounded values name).length ≤ values.length + 1 := by
  rw [pushBounded]
  split
  · exact Nat.le_succ _
  · dsimp only
    split
    · exact Nat.le_succ _
    · rw [List.length_append, List.length_singleton]

theorem pushBounded_forges (hcount : values.length < maxExtractedValues)
    (hlength : name.length ≤ maxMetadataFieldCharacters) (hname : Forges name) :
    ∃ value ∈ pushBounded values name, ¬ Clear value := by
  have hnot : ¬ Clear (trim (sanitizeSearchText name)) := fun hclear =>
    (sanitizeSearchText_clear name).mp hclear.of_trim hname
  have hfull : truncateCharacters (trim (sanitizeSearchText name)) maxMetadataFieldCharacters =
      trim (sanitizeSearchText name) := by
    rw [truncateCharacters, if_pos]
    have htrim := (trim_within (sanitizeSearchText name)).length_le
    have hsanitized := sanitizeSearchText_length name
    rw [String.length_toList (s := sanitizeSearchText name)] at htrim
    omega
  have hpushed : trim (sanitizeSearchText name) ∈ pushBounded values name := by
    have hnonempty : ¬ (trim (sanitizeSearchText name) = "" ∨ maxExtractedValues ≤ values.length) := by
      rintro (hempty | hfull)
      · rw [hempty] at hnot
        exact hnot ⟨by decide, by decide⟩
      · omega
    rw [pushBounded]
    dsimp only
    rw [if_neg hnonempty, hfull]
    split
    · assumption
    · exact List.mem_append_right _ (List.mem_singleton.mpr rfl)
  exact ⟨_, hpushed, hnot⟩

theorem foldl_pushBounded_keeps (names values : List String) : values <+: names.foldl pushBounded values := by
  induction names generalizing values with
  | nil => exact List.prefix_rfl
  | cons name names ih =>
    rw [List.foldl_cons]
    exact (pushBounded_keeps values name).trans (ih (pushBounded values name))

theorem foldl_pushBounded_clear (hnames : ∀ name ∈ names, ¬ Forges name) (hvalues : ∀ value ∈ values, Clear value) :
    ∀ value ∈ names.foldl pushBounded values, Clear value := by
  induction names generalizing values with
  | nil => exact hvalues
  | cons name names ih =>
    obtain ⟨hname, hnames⟩ := List.forall_mem_cons.mp hnames
    rw [List.foldl_cons]
    exact ih hnames (pushBounded_clear hvalues hname)

theorem foldl_pushBounded_forges (hcount : values.length + names.length ≤ maxExtractedValues)
    (hlength : ∀ name ∈ names, name.length ≤ maxMetadataFieldCharacters) (hname : name ∈ names)
    (hforges : Forges name) :
    ∃ value ∈ names.foldl pushBounded values, ¬ Clear value := by
  induction names generalizing values with
  | nil => cases hname
  | cons first names ih =>
    rw [List.length_cons] at hcount
    obtain ⟨hfirst, hrest⟩ := List.forall_mem_cons.mp hlength
    rw [List.foldl_cons]
    obtain rfl | hname := List.mem_cons.mp hname
    · obtain ⟨value, hvalue, hnot⟩ := @pushBounded_forges name values (by omega) hfirst hforges
      exact ⟨value, (foldl_pushBounded_keeps names _).subset hvalue, hnot⟩
    · have hpushed := pushBounded_length values first
      exact ih (by omega) hrest hname

theorem foldl_projectEntry (entries : List Value) (toolNames texts : List String) :
    entries.foldl projectEntry (toolNames, texts) =
      ((entries.filterMap toolCallName).foldl pushBounded toolNames, texts ++ entries.filterMap entryText) := by
  induction entries generalizing toolNames texts with
  | nil => simp
  | cons entry entries ih =>
    rw [List.foldl_cons, projectEntry, ih, List.filterMap_cons, List.filterMap_cons]
    cases toolCallName entry with
    | none =>
      cases entryText entry with
      | none => simp
      | some text => simp
    | some name =>
      cases entryText entry with
      | none => simp
      | some text => simp

theorem fromSource_eq (conversation : Option Value) : SearchProjection.fromSource conversation =
    { content := if (searchedEntries conversation).filterMap entryText = [] then none else
        some (truncateCharacters (sanitizeSearchText (joinedTexts conversation)) maxContentCharacters)
      toolNames := (calledTools conversation).foldl pushBounded []
      toolContent := [] } := by
  rw [SearchProjection.fromSource, foldl_projectEntry]
  rfl

end Text

section Documents

variable {event : EventRow}

theorem Honest.allClear (h : Honest event) : (SearchDocument.fromEvent event).AllClear := by
  rw [SearchDocument.fromEvent, fromSource_eq]
  refine ⟨(sanitizeSearchText_clear _).mpr h.sessionId, ?_, ?_⟩
  · intro text htext
    dsimp only at htext
    split at htext
    · cases htext
    · rw [← Option.some.inj htext]
      exact ((sanitizeSearchText_clear _).mpr h.content).mono (truncateCharacters_starts _ _).isInfix
  · exact foldl_pushBounded_clear h.toolNames (List.forall_mem_nil _)

theorem Uncut.honest (h : Uncut event) (hclear : (SearchDocument.fromEvent event).AllClear) : Honest event := by
  rw [SearchDocument.fromEvent, fromSource_eq] at hclear
  refine ⟨(sanitizeSearchText_clear _).mp hclear.sessionId, ?_, ?_⟩
  · intro hforges
    have hnot : ¬ Clear (sanitizeSearchText (joinedTexts event.conversation)) := fun hcontent =>
      (sanitizeSearchText_clear _).mp hcontent hforges
    have htexts : (searchedEntries event.conversation).filterMap entryText ≠ [] := by
      intro hempty
      rw [joinedTexts, hempty] at hnot
      exact hnot ⟨by decide, by decide⟩
    have hfull : truncateCharacters (sanitizeSearchText (joinedTexts event.conversation)) maxContentCharacters =
        sanitizeSearchText (joinedTexts event.conversation) := by
      rw [truncateCharacters, if_pos]
      rw [String.length_toList]
      exact (sanitizeSearchText_length _).trans h.content
    apply hnot
    apply hclear.content
    dsimp only
    rw [if_neg htexts, hfull]
  · intro name hname hforges
    obtain ⟨value, hvalue, hnot⟩ := @foldl_pushBounded_forges name [] (calledTools event.conversation)
      (by simpa using h.count) h.toolNames hname hforges
    exact hnot (hclear.toolNames value hvalue)

/-- Stripping leaves a text clear exactly when no marker in it is torn by markers, and so it is for every field of a
document; what is cut off a long field can only take a forged marker away. -/
theorem searchText_clear_iff (text : String) (event : EventRow) :
    (Clear (sanitizeSearchText text) ↔ ¬ Forges text) ∧
      (Honest event → (SearchDocument.fromEvent event).AllClear) ∧
      (Uncut event → ((SearchDocument.fromEvent event).AllClear ↔ Honest event)) :=
  ⟨sanitizeSearchText_clear text, Honest.allClear, fun h => ⟨h.honest, Honest.allClear⟩⟩

/-- A start marker with an end marker in its middle. -/
def tornMarker : String := "[[[ABYSS_SEARCH_[[[ABYSS_SEARCH_HIGHLIGHT_END]]]HIGHLIGHT_START]]]"

def tornSession : EventRow :=
  { Storage.newEvent 1 2 3 (Fixtures.event "e" 1 .request []) ((Fixtures.draws 1).event 0) with
    sessionId := tornMarker
    conversation := some (.object [("entries", .array [.object [("role", .string "tool_call"),
      ("text", .string "ls"), ("name", .string "Bash")]])]) }

theorem sanitize_tornMarker : sanitizeSearchText tornMarker = "[[[ABYSS_SEARCH_HIGHLIGHT_START]]]" := by decide

theorem tornSession_not_clear : ¬ (SearchDocument.fromEvent tornSession).AllClear := by
  intro hclear
  have hsession : Clear (sanitizeSearchText tornMarker) := hclear.sessionId
  rw [sanitize_tornMarker] at hsession
  exact hsession.1 List.infix_rfl

/-- Whole markers in the session id, in a text and in a called tool's name. -/
def markedSession : EventRow :=
  { tornSession with
    sessionId := "s[[[ABYSS_SEARCH_HIGHLIGHT_START]]]t[[[ABYSS_SEARCH_HIGHLIGHT_END]]]"
    conversation := some (.object [("entries", .array [.object [("role", .string "tool_call"),
      ("text", .string "ls [[[ABYSS_SEARCH_HIGHLIGHT_END]]]"),
      ("name", .string "[[[ABYSS_SEARCH_HIGHLIGHT_START]]]Bash")]])]) }

theorem markedSession_uncut : Uncut markedSession := ⟨by decide, by decide, by decide⟩

theorem searchText_clear_iff_tornSession :
    ¬ Honest tornSession ∧ Honest markedSession ∧ (SearchDocument.fromEvent markedSession).AllClear := by
  refine ⟨fun hhonest => ?_, ?_⟩
  · apply tornSession_not_clear
    apply ((searchText_clear_iff tornMarker tornSession).2.2 ?_).mpr hhonest
    exact ⟨by decide, by decide, by decide⟩
  · have hclear : (SearchDocument.fromEvent markedSession).AllClear := by
      refine ⟨⟨by decide, by decide⟩, ?_, ?_⟩
      · rintro text ⟨⟩
        exact ⟨by decide, by decide⟩
      · intro name hname
        rw [List.mem_singleton.mp hname]
        exact ⟨by decide, by decide⟩
    exact ⟨((searchText_clear_iff markedSession.sessionId markedSession).2.2 markedSession_uncut).mp hclear, hclear⟩

theorem tornMarker_forged : ¬ Clear (sanitizeSearchText tornMarker) ∧
    ¬ (SearchDocument.fromEvent tornSession).AllClear := by
  refine ⟨fun hclear => ?_, tornSession_not_clear⟩
  rw [sanitize_tornMarker] at hclear
  exact hclear.1 List.infix_rfl

end Documents

end AbyssBackend.Postgres
