import Mathlib.Data.List.Destutter
import Mathlib.Data.String.Basic
import AbyssBackend.Library.Attempts
import AbyssBackend.Library.Sorting
import AbyssBackend.Search.Pieces
import AbyssBackend.Streams.Structure
import AbyssBackend.Usage.Contract

namespace AbyssBackend.Search

open Attempts Sorting Streams Text

def defaultPageSize : ℕ := 20

def maxPageSize : ℕ := 50

def maxQueryCharacters : ℕ := 256

def maxFilterCharacters : ℕ := 256

def maxResultWindow : ℕ := 10000

def u32Max : ℕ := 4294967295

structure SessionSearchQuery where
  q : String
  fromTime : Option DateTime
  toTime : Option DateTime
  agentName : List String
  llmProvider : List String
  llmModel : List String
  eventType : Option String
  page : Option ℕ
  pageSize : Option ℕ

structure ValidatedSearchQuery where
  text : String
  fromTime : Option DateTime
  toTime : Option DateTime
  agentNames : List String
  llmProviders : List String
  llmModels : List String
  eventType : Option String
  page : ℕ
  pageSize : ℕ
  offset : ℕ

structure InSessionSearchQuery where
  q : String

def normalizedRequired (value field : String) (maximum : ℕ) : Except AppError String :=
  let value := trim value
  if value = "" then .error (.validation s!"{field} must not be empty")
  else if value.toList.length > maximum then
    .error (.validation s!"{field} must not exceed {maximum} characters")
  else .ok value

def normalizedQuery (value : String) : Except AppError String := normalizedRequired value "q" maxQueryCharacters

def normalizedOptional (value : Option String) (field : String) : Except AppError (Option String) :=
  match value with
  | none => .ok none
  | some value => some <$> normalizedRequired value field maxFilterCharacters

def normalizedList (values : List String) (field : String) : Except AppError (List String) := do
  let normalized ← values.mapM fun value => normalizedRequired value field maxFilterCharacters
  return (sortBy id normalized).destutter fun x y => x ≠ y

def refuseIf (refused : Prop) [Decidable refused] (message : String) : Except AppError Unit :=
  if refused then .error (.validation message) else .ok ()

namespace SessionSearchQuery

def validate (query : SessionSearchQuery) : Except AppError ValidatedSearchQuery := do
  let text ← normalizedQuery query.q
  refuseIf (query.fromTime.any fun fromTime => query.toTime.any fun toTime => fromTime ≥ toTime)
    "from must be earlier than to"
  let page := query.page.getD 1
  refuseIf (page = 0) "page must be at least 1"
  let pageSize := query.pageSize.getD defaultPageSize
  refuseIf (pageSize = 0 ∨ pageSize > maxPageSize) s!"page_size must be between 1 and {maxPageSize}"
  let offset := (page - 1) * pageSize
  refuseIf (offset > u32Max ∨ offset + pageSize > u32Max) "search page is too large"
  refuseIf (offset + pageSize > maxResultWindow)
    s!"search results are limited to the first {maxResultWindow} matches"
  let eventType ← normalizedOptional query.eventType "event_type"
  refuseIf (eventType.any fun value => !(["request", "response"].contains value))
    "event_type must be request or response"
  let agentNames ← normalizedList query.agentName "agent_name"
  let llmProviders ← normalizedList query.llmProvider "llm_provider"
  let llmModels ← normalizedList query.llmModel "llm_model"
  return { query with text, agentNames, llmProviders, llmModels, eventType, page, pageSize, offset }

end SessionSearchQuery

def InSessionSearchQuery.validate (query : InSessionSearchQuery) : Except AppError String := normalizedQuery query.q

structure SearchFragmentSegment where
  text : String
  highlighted : Bool
deriving DecidableEq, Repr

structure SearchFragment where
  segments : List SearchFragmentSegment
deriving DecidableEq, Repr

structure SessionSearchMatch where
  eventPk : Uuid
  location : Option EventLocation
  eventType : String
  llmProvider : String
  llmModel : String
  observedAt : DateTime
  new : Bool
  fragments : List SearchFragment
deriving DecidableEq, Repr

structure SessionSearchResult where
  sessionPk : Uuid
  sessionId : String
  title : Option EntryLabel
  agentName : String
  agentVersion : Option String
  hostName : String
  platform : String
  startedAt : DateTime
  endedAt : Option DateTime
  providers : List String
  models : List String
  matchCount : ℕ
  newMatchCount : ℕ
  matches' : List SessionSearchMatch
deriving DecidableEq, Repr

structure SessionSearchResponse where
  query : String
  totalSessions : ℕ
  page : ℕ
  pageSize : ℕ
  hasMore : Bool
  items : List SessionSearchResult
deriving DecidableEq, Repr

structure MatchedText where
  id : ℕ
  ranges : List (ℕ × ℕ)
deriving DecidableEq, Repr

structure InSessionHit where
  eventPk : Uuid
  entryIndex : ℕ
  field : PieceField
  new : Bool
  textId : ℕ
  segment : Option String
deriving DecidableEq, Repr

structure InSessionSearchResponse where
  query : String
  texts : List MatchedText
  hits : List InSessionHit
  truncated : Bool
deriving DecidableEq, Repr

section Rules

theorem normalizedRequired_spec {value field text : String} {maximum : ℕ}
    (h : normalizedRequired value field maximum = .ok text) : text = trim value ∧ trim value ≠ "" := by
  rw [normalizedRequired] at h
  split_ifs at h with hempty hlong
  cases h
  exact ⟨rfl, hempty⟩

theorem mem_destutter_cons {x y : String} {xs : List String} :
    y ∈ List.destutter' (fun x y => x ≠ y) x xs ↔ y = x ∨ y ∈ xs := by
  induction xs generalizing x with
  | nil => simp
  | cons z xs ih =>
    by_cases hz : x = z
    · rw [List.destutter'_cons_neg _ (not_not_intro hz), ih, List.mem_cons, hz, or_self_left]
    · rw [List.destutter'_cons_pos _ hz, List.mem_cons, ih, List.mem_cons]

theorem mem_destutter {y : String} {xs : List String} : y ∈ xs.destutter (fun x y => x ≠ y) ↔ y ∈ xs := by
  cases xs with
  | nil => simp
  | cons x xs => rw [List.destutter_cons', mem_destutter_cons, List.mem_cons]

theorem normalizedList_spec {values texts : List String} {field : String}
    (h : normalizedList values field = .ok texts) (text : String) : text ∈ texts ↔ text ∈ values.map trim := by
  obtain ⟨normalized, hnormalized, h⟩ := bind_eq_ok.mp h
  cases h
  have heq : normalized = values.map trim := by
    have hall := mapM_ok hnormalized
    rw [← List.forall₂_eq_eq_eq]
    exact List.forall₂_map_right_iff.mpr (List.Forall₂.flip (hall.imp fun _ _ hone => (normalizedRequired_spec hone).1))
  rw [mem_destutter, mem_sortBy, heq]

theorem normalizedOptional_spec {value text : Option String} {field : String}
    (h : normalizedOptional value field = .ok text) : text = value.map trim := by
  cases value with
  | none =>
    cases h
    rfl
  | some value =>
    rw [normalizedOptional] at h
    cases hrequired : normalizedRequired value field maxFilterCharacters with
    | error error =>
      rw [hrequired] at h
      cases h
    | ok trimmed =>
      rw [hrequired] at h
      cases h
      rw [(normalizedRequired_spec hrequired).1]
      rfl

structure Asks (query : SessionSearchQuery) (validated : ValidatedSearchQuery) : Prop where
  text : validated.text = trim query.q
  nonempty : trim query.q ≠ ""
  fromTime : validated.fromTime = query.fromTime
  toTime : validated.toTime = query.toTime
  agentNames : ∀ name, name ∈ validated.agentNames ↔ name ∈ query.agentName.map trim
  llmProviders : ∀ name, name ∈ validated.llmProviders ↔ name ∈ query.llmProvider.map trim
  llmModels : ∀ name, name ∈ validated.llmModels ↔ name ∈ query.llmModel.map trim
  eventType : validated.eventType = query.eventType.map trim
  pageSize : validated.pageSize = query.pageSize.getD defaultPageSize
  offset : validated.offset = (query.page.getD 1 - 1) * query.pageSize.getD defaultPageSize

theorem refuseIf_ok {refused : Prop} [Decidable refused] {message : String} {u : Unit}
    (h : refuseIf refused message = .ok u) : ¬ refused := by
  rw [refuseIf] at h
  split at h
  · cases h
  · assumption

theorem SessionSearchQuery.validate_ok {query : SessionSearchQuery} {validated : ValidatedSearchQuery}
    (h : query.validate = .ok validated) : Asks query validated ∧ validated.page ≠ 0 ∧
      validated.offset = (validated.page - 1) * validated.pageSize := by
  obtain ⟨text, htext, h⟩ := bind_eq_ok.mp h
  obtain ⟨-, -, h⟩ := bind_eq_ok.mp h
  obtain ⟨_, hpage, h⟩ := bind_eq_ok.mp h
  obtain ⟨-, -, h⟩ := bind_eq_ok.mp h
  obtain ⟨-, -, h⟩ := bind_eq_ok.mp h
  obtain ⟨-, -, h⟩ := bind_eq_ok.mp h
  obtain ⟨eventType, heventType, h⟩ := bind_eq_ok.mp h
  obtain ⟨-, -, h⟩ := bind_eq_ok.mp h
  obtain ⟨agentNames, hagentNames, h⟩ := bind_eq_ok.mp h
  obtain ⟨llmProviders, hllmProviders, h⟩ := bind_eq_ok.mp h
  obtain ⟨llmModels, hllmModels, h⟩ := bind_eq_ok.mp h
  cases h
  refine ⟨?_, refuseIf_ok hpage, rfl⟩
  exact
    { text := (normalizedRequired_spec htext).1
      nonempty := (normalizedRequired_spec htext).2
      fromTime := rfl
      toTime := rfl
      agentNames := normalizedList_spec hagentNames
      llmProviders := normalizedList_spec hllmProviders
      llmModels := normalizedList_spec hllmModels
      eventType := normalizedOptional_spec heventType
      pageSize := rfl
      offset := rfl }

theorem SessionSearchQuery.validate_spec {query : SessionSearchQuery} {validated : ValidatedSearchQuery}
    (h : query.validate = .ok validated) : Asks query validated := (validate_ok h).1

end Rules

end AbyssBackend.Search
