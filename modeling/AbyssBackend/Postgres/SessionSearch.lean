import AbyssBackend.Postgres.Reads
import AbyssBackend.Postgres.SearchText
import AbyssBackend.Search.Ranking
import AbyssBackend.Storage.Events

namespace AbyssBackend.Postgres

open Search Sorting Storage Streams

inductive KeywordField
  | agentName
  | llmProvider
  | llmModel
  | eventType
deriving DecidableEq, Repr

/-- A filter of a search request, on a field of the documents. -/
inductive SearchFilter
  | userId (userId : Uuid)
  | observedAt (gte lt : Option DateTime)
  | term (field : KeywordField) (value : String)
  | terms (field : KeywordField) (values : List String)

structure SearchRequest where
  offset : ℕ
  size : ℕ
  filters : List SearchFilter
  text : String

def pushTermFilter (filters : List SearchFilter) (field : KeywordField) (value : Option String) : List SearchFilter :=
  match value with
  | none => filters
  | some value => filters ++ [.term field value]

/-- Matches any of `values`; an empty list adds no filter. -/
def pushTermsFilter (filters : List SearchFilter) (field : KeywordField) (values : List String) : List SearchFilter :=
  if values.isEmpty then filters else filters ++ [.terms field values]

def searchRequest (userId : Uuid) (query : ValidatedSearchQuery) : SearchRequest :=
  let filters := [.userId userId]
  let filters := if query.fromTime.isSome || query.toTime.isSome then filters ++ [.observedAt query.fromTime query.toTime]
    else filters
  let filters := pushTermsFilter filters .agentName query.agentNames
  let filters := pushTermsFilter filters .llmProvider query.llmProviders
  let filters := pushTermsFilter filters .llmModel query.llmModels
  let filters := pushTermFilter filters .eventType query.eventType
  { offset := query.offset
    size := query.pageSize
    filters
    text := query.text }

structure RawMatchedHit where
  eventPk : Uuid
  eventType : String
  llmProvider : String
  llmModel : String
  observedAt : DateTime
  highlight : Tables.Table String (List String)

structure RawInnerHits where
  total : ℕ
  hits : List RawMatchedHit

/-- One collapsed hit; its inner hits are those under the name `matches`. -/
structure RawOuterHit where
  sessionPk : Uuid
  innerHits : Option RawInnerHits

structure RawSearchResponse where
  sessionCount : Option ℕ
  hits : List RawOuterHit

structure MatchedEventHit where
  eventPk : Uuid
  eventType : String
  llmProvider : String
  llmModel : String
  observedAt : DateTime
  fragments : List String

structure SessionMatches where
  sessionPk : Uuid
  matchCount : ℕ
  events : List MatchedEventHit

structure SearchMatchPage where
  totalSessions : ℕ
  sessions : List SessionMatches

def orderedFragments (highlights : Tables.Table String (List String)) : List String :=
  (["content", "tool_names", "tool_content"].flatMap fun field => (highlights field).getD []).take 2

def RawMatchedHit.event (hit : RawMatchedHit) : MatchedEventHit where
  eventPk := hit.eventPk
  eventType := hit.eventType
  llmProvider := hit.llmProvider
  llmModel := hit.llmModel
  observedAt := hit.observedAt
  fragments := orderedFragments hit.highlight

def RawOuterHit.matches' (hit : RawOuterHit) : Except String SessionMatches :=
  match hit.innerHits with
  | none => .error "invalid Elasticsearch response: collapsed search hit omitted matches inner_hits"
  | some inner => .ok ⟨hit.sessionPk, inner.total, inner.hits.map RawMatchedHit.event⟩

def SearchMatchPage.tryFrom (response : RawSearchResponse) : Except String SearchMatchPage := do
  let sessions ← response.hits.mapM RawOuterHit.matches'
  return ⟨response.sessionCount.getD 0, sessions⟩

inductive SearchError
  | app (error : AppError)
  | unavailable (message : String)

/-- Elasticsearch matches paired with the validated query that produced them. -/
structure SearchExecution where
  query : ValidatedSearchQuery
  page : SearchMatchPage

/-- Runs one search, by what Elasticsearch replies to it. -/
def search (userId : Uuid) (query : SessionSearchQuery) (reply : SearchRequest → Except String RawSearchResponse) :
    Except SearchError SearchExecution :=
  match query.validate with
  | .error error => .error (.app error)
  | .ok query =>
    match (reply (searchRequest userId query)).bind SearchMatchPage.tryFrom with
    | .error _ => .error (.unavailable "session search is temporarily unavailable")
    | .ok page => .ok ⟨query, page⟩

def SearchExecution.sessionIds (execution : SearchExecution) : List Uuid :=
  execution.page.sessions.map SessionMatches.sessionPk

structure SearchSessionDetails where
  session : SessionRow
  device : DeviceRow
  title : Option EntryLabel

def sessionDetails (tables : Tables) (userId : Uuid) (sessionIds : List Uuid) : Tables.Table Uuid SearchSessionDetails :=
  let rows := (tables.sessions.filter fun session => session.userId == userId && sessionIds.contains session.id).flatMap
    fun session => (tables.devices.filter fun device => device.id == session.deviceContextId).map fun device =>
      (session, device)
  Tables.ofPairs (rows.map fun (session, device) => (session.id, ⟨session, device, title tables session.id⟩))

def MatchedEventHit.match' (event : MatchedEventHit) : SessionSearchMatch where
  eventPk := event.eventPk
  location := none
  eventType := event.eventType
  llmProvider := event.llmProvider
  llmModel := event.llmModel
  observedAt := event.observedAt
  new := true
  -- every fragment can be parsed
  fragments := event.fragments.filterMap parseFragment

def SessionMatches.result (found : SessionMatches) (details : SearchSessionDetails) : SessionSearchResult where
  sessionPk := details.session.id
  sessionId := details.session.sessionId
  title := details.title
  agentName := details.session.agentName
  agentVersion := details.session.agentVersion
  hostName := details.device.hostName
  platform := details.device.platform
  startedAt := timestampFromMicros details.session.startedAt
  endedAt := details.session.endedAt.map timestampFromMicros
  providers := sortedDistinct (found.events.map MatchedEventHit.llmProvider)
  models := sortedDistinct (found.events.map MatchedEventHit.llmModel)
  matchCount := found.matchCount
  newMatchCount := found.matchCount
  matches' := found.events.map MatchedEventHit.match'

/-- The results of the sessions whose details there are; each session's details are taken once. -/
def hydrateSessions : List SessionMatches → Tables.Table Uuid SearchSessionDetails → List SessionSearchResult
  | [], _ => []
  | found :: rest, details =>
    match details found.sessionPk with
    | none => hydrateSessions rest details
    | some session => found.result session :: hydrateSessions rest (Function.update details found.sessionPk none)

def SearchExecution.hydrate (execution : SearchExecution) (details : Tables.Table Uuid SearchSessionDetails) :
    SessionSearchResponse where
  query := execution.query.text
  totalSessions := execution.page.totalSessions
  page := execution.query.page
  pageSize := execution.query.pageSize
  hasMore := execution.query.page * execution.query.pageSize < execution.page.totalSessions
  items := hydrateSessions execution.page.sessions details

def sessionSearch (tables : Tables) (userId : Uuid) (query : SessionSearchQuery)
    (reply : SearchRequest → Except String RawSearchResponse) : Except SearchError SessionSearchResponse := do
  let execution ← search userId query reply
  let details := sessionDetails tables userId execution.sessionIds
  match locateSearchMatches (execution.hydrate details) (sessionStructure tables userId) with
  | .error error => throw (.app error)
  | .ok response => return response

end AbyssBackend.Postgres
