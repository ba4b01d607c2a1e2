import AbyssBackend.Library.Attempts
import AbyssBackend.Storage.SummaryFilters

namespace AbyssBackend.Postgres

open Attempts Storage Streams Text

structure EventFilters where
  userId : Uuid
  fromTime : Option DateTime
  toTime : Option DateTime
  userFilter : Option String
  agentNames : List String
  sessionIds : List String
  sessionPk : Option Uuid
  llmProviders : List String
  llmModels : List String
  eventType : Option String
  limit : ℤ
  offset : ℤ

/-- The filters `usage_summary` loads its rows with. -/
def EventFilters.ofSummary (query : SummaryQuery) (userId : Uuid) (defaultLimit : ℤ) : EventFilters where
  userId
  fromTime := query.fromTime
  toTime := query.toTime
  userFilter := query.userFilter
  agentNames := query.agentName
  sessionIds := query.sessionId
  sessionPk := none
  llmProviders := query.llmProvider
  llmModels := query.llmModel
  eventType := query.eventType
  limit := normalizeLimit query.limit defaultLimit 100000
  offset := 0

structure SummarySqlFilters where
  userId : Uuid
  fromTime : Option DateTime
  toTime : Option DateTime
  userFilterId : Option Uuid
  userFilterPattern : Option String
  agentNames : List String
  sessionIds : List String
  sessionPk : Option Uuid
  providers : List String
  models : List String
  eventType : Option String

namespace SummarySqlFilters

variable [UserTexts]

def fromEventFilters (filters : EventFilters) : Except AppError SummarySqlFilters := do
  let userFilter := (filters.userFilter.bind nonEmpty).map trim
  let eventType ← filters.eventType.mapM validateEventType
  return {
    userId := filters.userId
    fromTime := filters.fromTime
    toTime := filters.toTime
    userFilterId := userFilter.bind UserTexts.parseUuid
    userFilterPattern := userFilter.map fun value => "%" ++ escapeLikePattern value ++ "%"
    agentNames := exactValuesFilter filters.agentNames
    sessionIds := exactValuesFilter filters.sessionIds
    sessionPk := filters.sessionPk
    providers := exactValuesFilter filters.llmProviders
    models := exactValuesFilter filters.llmModels
    eventType }

omit [UserTexts] in
def shared (filters : SummarySqlFilters) : SummaryFilters where
  agentNames := filters.agentNames
  sessionIds := filters.sessionIds
  providers := filters.providers
  models := filters.models
  eventType := filters.eventType

end SummarySqlFilters

/-- Both accept or both reject, and what both filter by is the same. -/
structure Alike (postgres : Except AppError SummarySqlFilters) (sqlite : Except AppError (Option SummaryFilters)) :
    Prop where
  accepted : (∃ filters, postgres = .ok filters) ↔ ∃ filters, sqlite = .ok filters
  same : ∀ filters other, postgres = .ok filters → sqlite = .ok (some other) → filters.shared = other

section Summary

variable [UserTexts] {query : SummaryQuery} {userId : Uuid} {owner : OwnerRecord} {defaultLimit : ℤ}

theorem fromSummary_ok :
    (∃ filters, SummarySqlFilters.fromEventFilters (.ofSummary query userId defaultLimit) = .ok filters) ↔
      ∀ value ∈ query.eventType, ∃ eventType, validateEventType value = .ok eventType := by
  cases hvalue : query.eventType with
  | none => simp [SummarySqlFilters.fromEventFilters, EventFilters.ofSummary, hvalue, pure, Except.pure, bind, Except.bind]
  | some value =>
    cases hvalid : validateEventType value <;>
      simp [SummarySqlFilters.fromEventFilters, EventFilters.ofSummary, hvalue, hvalid, pure, Except.pure, bind,
        Except.bind]

omit [UserTexts] in
theorem summaryFilters_ok :
    (∃ filters, summaryFilters query = .ok filters) ↔
      ∀ value ∈ query.eventType.bind nonEmpty, ∃ eventType, validateEventType value = .ok eventType := by
  cases hvalue : query.eventType.bind nonEmpty with
  | none => simp [summaryFilters, hvalue, pure, Except.pure, bind, Except.bind]
  | some value =>
    cases hvalid : validateEventType value <;>
      simp [summaryFilters, hvalue, hvalid, pure, Except.pure, bind, Except.bind]

theorem ownedSummaryFilters_ok :
    (∃ filters, ownedSummaryFilters userId owner query = .ok filters) ↔
      (ownerMatchesFilter userId owner query.userFilter = true →
        ∀ value ∈ query.eventType.bind nonEmpty, ∃ eventType, validateEventType value = .ok eventType) := by
  unfold ownedSummaryFilters
  cases ownerMatchesFilter userId owner query.userFilter with
  | false => simp
  | true =>
    rw [← summaryFilters_ok]
    cases summaryFilters query <;> simp [Functor.map, Except.map]

omit [UserTexts] in
/-- What is blank has no event type to read, so reading it first fails. -/
theorem validateEventType_nonEmpty {value eventType : String} (h : validateEventType value = .ok eventType) :
    nonEmpty value = some value := by
  have hvalid := validateEventType_ok.mp ⟨eventType, h⟩
  unfold nonEmpty
  split_ifs with hblank
  · rw [hblank] at hvalid
    revert hvalid
    decide
  · rfl

omit [UserTexts] in
theorem eventType_alike {value eventType : Option String} (h : value.mapM validateEventType = .ok eventType) :
    (value.bind nonEmpty).mapM validateEventType = .ok eventType := by
  cases value with
  | none => exact h
  | some value =>
    cases hvalid : validateEventType value with
    | error error => simp [hvalid, Functor.map, Except.map] at h
    | ok kept => rw [Option.bind_some, validateEventType_nonEmpty hvalid, h]

/-- What PostgreSQL accepts SQLite reads the same. -/
theorem fromSummary_same {filters : SummarySqlFilters} {other : SummaryFilters}
    (hpostgres : SummarySqlFilters.fromEventFilters (.ofSummary query userId defaultLimit) = .ok filters)
    (hsqlite : ownedSummaryFilters userId owner query = .ok (some other)) : filters.shared = other := by
  unfold SummarySqlFilters.fromEventFilters at hpostgres
  obtain ⟨eventType, heventType, hfilters⟩ := bind_eq_ok.mp hpostgres
  cases hfilters
  unfold ownedSummaryFilters at hsqlite
  split_ifs at hsqlite
  · cases hsqlite
  · have heventType : query.eventType.mapM validateEventType = .ok eventType := heventType
    simp only [summaryFilters, eventType_alike heventType] at hsqlite
    cases hsqlite
    rfl

end Summary

/-- A blank event type is absent for SQLite and for every other read, and invalid for PostgreSQL's summary. -/
theorem fromSummary_alike_iff [UserTexts] {query : SummaryQuery} {userId : Uuid} {owner : OwnerRecord}
    {defaultLimit : ℤ} :
    Alike (SummarySqlFilters.fromEventFilters (.ofSummary query userId defaultLimit))
        (ownedSummaryFilters userId owner query) ↔
      ∀ value ∈ query.eventType, trim value ≠ "" ∧
        (toAsciiLowercase (trim value) = "request" ∨ toAsciiLowercase (trim value) = "response" ∨
          ownerMatchesFilter userId owner query.userFilter = true) := by
  have hiff : Alike (SummarySqlFilters.fromEventFilters (.ofSummary query userId defaultLimit))
      (ownedSummaryFilters userId owner query) ↔
        ((∀ value ∈ query.eventType, ∃ eventType, validateEventType value = .ok eventType) ↔
          (ownerMatchesFilter userId owner query.userFilter = true →
            ∀ value ∈ query.eventType.bind nonEmpty, ∃ eventType, validateEventType value = .ok eventType)) := by
    rw [← fromSummary_ok, ← ownedSummaryFilters_ok]
    exact ⟨fun h => h.accepted, fun h => ⟨h, fun _ _ => fromSummary_same⟩⟩
  rw [hiff]
  cases query.eventType with
  | none => simp
  | some value =>
    by_cases hblank : trim value = ""
    · have hvalid : ¬ ∃ eventType, validateEventType value = .ok eventType := by
        rintro ⟨eventType, h⟩
        have hkept := validateEventType_nonEmpty h
        simp [nonEmpty, hblank] at hkept
      simp [nonEmpty, hblank, hvalid]
    · have hkept : nonEmpty value = some value := if_neg hblank
      simp only [Option.mem_def, Option.some.injEq, Option.bind_some, hkept, forall_eq', validateEventType_ok]
      rw [← or_assoc]
      by_cases hvalid : toAsciiLowercase (trim value) = "request" ∨ toAsciiLowercase (trim value) = "response"
      · simp [hvalid, hblank]
      · simp [hvalid, hblank]

section BlankEventType

/-- A reading of user filters that knows neither identifiers nor letters outside ASCII. -/
local instance asciiUsers : UserTexts where
  parseUuid _ := none
  toLowercase := toAsciiLowercase

def blankEventType : SummaryQuery where
  fromTime := none
  toTime := none
  groupBy := none
  tz := none
  fields := none
  userFilter := none
  agentName := []
  sessionId := []
  llmProvider := []
  llmModel := []
  eventType := some " "
  limit := none

theorem blankEventType_apart :
    ¬ Alike (SummarySqlFilters.fromEventFilters (.ofSummary blankEventType 0 100))
      (ownedSummaryFilters 0 ⟨"alice@example.com", none⟩ blankEventType) := by
  intro h
  obtain ⟨filters, hfilters⟩ := h.accepted.mpr ⟨some ⟨[], [], [], [], none⟩, rfl⟩
  have hrejected : (SummarySqlFilters.fromEventFilters (.ofSummary blankEventType 0 100)).toOption.isNone := by decide
  rw [hfilters] at hrejected
  cases hrejected

end BlankEventType

end AbyssBackend.Postgres
