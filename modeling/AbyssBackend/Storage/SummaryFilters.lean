import AbyssBackend.Usage.Summary

namespace AbyssBackend.Storage

open Streams Text

/-- The filters a summary's query asks for; an empty list or no event type filters nothing. -/
structure SummaryFilters where
  agentNames : List String
  sessionIds : List String
  providers : List String
  models : List String
  eventType : Option String
deriving DecidableEq, Repr

variable [UserTexts]

def ownerMatchesFilter (userId : Uuid) (owner : OwnerRecord) (userFilter : Option String) : Bool :=
  match userFilter.bind nonEmpty with
  | none => true
  | some filter =>
    match UserTexts.parseUuid (trim filter) with
    | some filterId => filterId == userId
    | none =>
      let filter := UserTexts.toLowercase (trim filter)
      filter.toList <:+: (UserTexts.toLowercase owner.email).toList ||
        filter.toList <:+: (UserTexts.toLowercase (owner.name.getD "")).toList

omit [UserTexts] in
def summaryFilters (query : SummaryQuery) : Except AppError SummaryFilters := do
  let eventType ← (query.eventType.bind nonEmpty).mapM validateEventType
  return {
    agentNames := exactValuesFilter query.agentName
    sessionIds := exactValuesFilter query.sessionId
    providers := exactValuesFilter query.llmProvider
    models := exactValuesFilter query.llmModel
    eventType }

/-- The filters of a summary, or nothing where the user filter leaves the owner out. -/
def ownedSummaryFilters (userId : Uuid) (owner : OwnerRecord) (query : SummaryQuery) :
    Except AppError (Option SummaryFilters) :=
  if !ownerMatchesFilter userId owner query.userFilter then .ok none else some <$> summaryFilters query

end AbyssBackend.Storage
