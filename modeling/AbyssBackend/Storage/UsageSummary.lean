import AbyssBackend.Library.Buckets
import AbyssBackend.Storage.DayOffsets
import AbyssBackend.Storage.SessionList
import AbyssBackend.Storage.SummaryFilters
import AbyssBackend.Streams.TurnViews
import AbyssBackend.Usage.UsageSummary
import Mathlib.Data.List.Lex

namespace AbyssBackend.Storage

open Buckets Sorting Streams

/-- The columns that a summary groups by; those of a dimension that is not asked for are null. -/
structure SummaryGroup where
  day : Option String
  hostName : Option String
  platform : Option String
  osVersion : Option String
  agentName : Option String
  llmProvider : Option String
  llmModel : Option String
  eventType : Option String
deriving Repr

/-- Null comes first. -/
def SummaryGroup.columns (group : SummaryGroup) : List (WithBot String) :=
  [group.day, group.hostName, group.platform, group.osVersion, group.agentName, group.llmProvider, group.llmModel,
    group.eventType]

theorem SummaryGroup.columns_injective : Function.Injective SummaryGroup.columns := by
  rintro ⟨⟩ ⟨⟩ h
  cases h
  rfl

instance : LinearOrder SummaryGroup := LinearOrder.lift' SummaryGroup.columns SummaryGroup.columns_injective

/-- A row of the summary query's inner select: one session's events in a group. -/
structure SessionAggregate where
  group : SummaryGroup
  sessionPk : Uuid
  eventPks : List Uuid
  requests : ℤ
  responses : ℤ
  tokens : TokenCounts
deriving DecidableEq, Repr

structure SummaryAggregateRow where
  group : SummaryGroup
  sessions : ℤ
  sessionEvents : List (Uuid × List Uuid)
  requests : ℤ
  responses : ℤ
  tokens : TokenCounts
deriving DecidableEq, Repr

def eventTokens (event : EventRow) : TokenCounts := (headerEvent event).tokens

/-- Six sums, any of which can overflow. -/
def sumTokens (counts : List TokenCounts) : Except AppError TokenCounts := do
  let input ← sqliteSum (counts.map TokenCounts.input)
  let output ← sqliteSum (counts.map TokenCounts.output)
  let cacheRead ← sqliteSum (counts.map TokenCounts.cacheRead)
  let cacheWrite ← sqliteSum (counts.map TokenCounts.cacheWrite)
  let reasoning ← sqliteSum (counts.map TokenCounts.reasoning)
  let total ← sqliteSum (counts.map TokenCounts.total)
  return { input, output, cacheRead, cacheWrite, reasoning, total }

def summaryFrom (query : SummaryQuery) : ℤ := (query.fromTime.map timestampToMicros).getD i64Min

def summaryTo (query : SummaryQuery) : ℤ := (query.toTime.map timestampToMicros).getD i64Max

def countType (eventType : String) (events : List EventRow) : ℤ :=
  (events.filter fun event => event.eventType == eventType).length

def sessionAggregate (group : SummaryGroup) (sessionPk : Uuid) (events : List EventRow) :
    Except AppError SessionAggregate := do
  let tokens ← sumTokens (events.map eventTokens)
  return {
    group
    sessionPk
    eventPks := events.map EventRow.id
    requests := countType "request" events
    responses := countType "response" events
    tokens }

def summaryAggregate (group : SummaryGroup) (sessions : List SessionAggregate) :
    Except AppError SummaryAggregateRow := do
  let tokens ← sumTokens (sessions.map SessionAggregate.tokens)
  return {
    group
    sessions := sessions.length
    sessionEvents := sessions.map fun session => (session.sessionPk, session.eventPks)
    requests := (sessions.map SessionAggregate.requests).sum
    responses := (sessions.map SessionAggregate.responses).sum
    tokens }

def SummaryAggregateRow.order (row : SummaryAggregateRow) : ℤᵒᵈ ×ₗ WithBot String ×ₗ WithBot String :=
  toLex (OrderDual.toDual row.tokens.total, toLex (row.group.agentName, row.group.day))

def SummaryAggregateRow.summaryRow (row : SummaryAggregateRow) (turns : ℕ) (user : Option (Uuid × OwnerRecord)) :
    SummaryRow where
  day := row.group.day
  userId := user.map Prod.fst
  userName := user.bind fun (_, owner) => owner.name
  userEmail := user.map fun (_, owner) => owner.email
  hostName := row.group.hostName
  platform := row.group.platform
  osVersion := row.group.osVersion
  agentName := row.group.agentName
  llmProvider := row.group.llmProvider
  llmModel := row.group.llmModel
  eventType := row.group.eventType
  sessions := row.sessions.toNat
  turns
  requests := row.requests
  responses := row.responses
  tokens := row.tokens

/-- What `app_users` holds of an owner; a missing one is an error of the database. -/
def loadOwner (owners : Uuid → Option OwnerRecord) (userId : Uuid) : Except AppError OwnerRecord :=
  match owners userId with
  | some owner => .ok owner
  | none => .error (.database .notFound)

section Reads

variable (store : Store)

/-- The owner's events that the filters of a summary leave. -/
def summaryEvents (userId : Uuid) (query : SummaryQuery) (filters : SummaryFilters) : List EventRow :=
  store.events.filter fun event => event.userId == userId &&
    summaryFrom query ≤ event.observedAt && event.observedAt < summaryTo query &&
    (filters.agentNames.isEmpty || filters.agentNames.contains event.agentName) &&
    (filters.sessionIds.isEmpty || filters.sessionIds.contains event.sessionId) &&
    (filters.providers.isEmpty || filters.providers.contains event.llmProvider) &&
    (filters.models.isEmpty || filters.models.contains event.llmModel) &&
    filters.eventType.all fun eventType => event.eventType == eventType

def summaryGroup (dimensions : SummaryDimensions) (offsets : List (ℤ × ℤ)) (event : EventRow)
    (device : Option DeviceRow) : SummaryGroup where
  day := if dimensions.day then summaryDay offsets event.observedAt else none
  hostName := if dimensions.device then device.map DeviceRow.hostName else none
  platform := if dimensions.device then device.map DeviceRow.platform else none
  osVersion := if dimensions.device then device.bind DeviceRow.osVersion else none
  agentName := if dimensions.agent then some event.agentName else none
  llmProvider := if dimensions.provider then some event.llmProvider else none
  llmModel := if dimensions.model then some event.llmModel else none
  eventType := if dimensions.eventType then some event.eventType else none

/-- Each event with the group it is in. -/
def groupedEvents (dimensions : SummaryDimensions) (offsets : List (ℤ × ℤ)) (events : List EventRow) :
    List (SummaryGroup × EventRow) :=
  events.flatMap fun event =>
    (Rows.leftJoin (fun device => dimensions.device && device.id == event.deviceContextId) store.devices).map
      fun device => (summaryGroup dimensions offsets event device, event)

/-- The rows of the inner select, by group and session. -/
def bySession (rows : List (SummaryGroup × EventRow)) : Except AppError (List SessionAggregate) :=
  (buckets (fun row => (toLex (row.1, row.2.sessionPk) : SummaryGroup ×ₗ ℕ)) rows).mapM fun (key, rows) =>
    sessionAggregate (ofLex key).1 (ofLex key).2 (rows.map Prod.snd)

/-- The summary query's rows, the largest totals first. -/
def summaryAggregates (dimensions : SummaryDimensions) (offsets : List (ℤ × ℤ)) (events : List EventRow) :
    Except AppError (List SummaryAggregateRow) := do
  let sessions ← bySession (groupedEvents store dimensions offsets events)
  let groups ← (buckets SessionAggregate.group sessions).mapM fun (group, sessions) => summaryAggregate group sessions
  return sortBy SummaryAggregateRow.order groups

variable [TimeZones] [UserTexts]

omit [UserTexts] in
def dayOffsets (userId : Uuid) (zone : TimeZones.Tz) (fromTime toTime : ℤ) : List (ℤ × ℤ) :=
  if zone = TimeZones.utc then dayOffsetsJson zone none
  else
    let times := (store.events.filter fun event => event.userId == userId && fromTime ≤ event.observedAt &&
      event.observedAt < toTime).map EventRow.observedAt
    dayOffsetsJson zone (times.min?.bind fun first => times.max?.map fun last => (first, last))

def usageSummary (owners : Uuid → Option OwnerRecord) (userId : Uuid) (query : SummaryQuery) (defaultLimit : ℤ) :
    Except AppError SummaryResponse := do
  let groupBy := parseGroupBy query.groupBy
  let dimensions := SummaryDimensions.fromGroupBy groupBy
  let zone ← parseTimeZone query.tz
  let owner ← loadOwner owners userId
  match ← ownedSummaryFilters userId owner query with
  | none => return emptySummary query groupBy
  | some filters =>
    let limit := normalizeLimit query.limit defaultLimit 100000
    let offsets := if dimensions.day then dayOffsets store userId zone (summaryFrom query) (summaryTo query) else []
    let aggregates ← summaryAggregates store dimensions offsets (summaryEvents store userId query filters)
    let rows := aggregates.take limit.toNat
    let turns ← SessionStructure.summaryTurns (rows.map SummaryAggregateRow.sessionEvents) (sessionStructure store userId)
    return {
      fromTime := query.fromTime
      toTime := query.toTime
      groupBy
      rows := (rows.zip turns).map fun (row, turns) =>
        row.summaryRow turns (if dimensions.user then some (userId, owner) else none)
      nextPageToken := none }

end Reads

end AbyssBackend.Storage
