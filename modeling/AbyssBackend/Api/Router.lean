import AbyssBackend.Api.Routes
import AbyssBackend.Storage.Comparison
import AbyssBackend.Storage.Events
import AbyssBackend.Storage.Ingest
import AbyssBackend.Storage.UsageSummary

namespace AbyssBackend.Api

open Search Storage Streams Text

/-- Limits, labels and the token of a process, and what `app_users` holds, which no request changes. -/
structure AppState where
  environment : String
  maxIngestBatchSize : ℕ
  summaryScanLimit : ℤ
  defaultPageSize : ℤ
  identity : IdentityConfig
  owners : Uuid → Option OwnerRecord

/-- A request as a handler takes it up, or why none does. -/
structure Request where
  headers : HeaderMap
  endpoint : Except Rejection Endpoint

def HttpRequest.received [Extractors] (request : HttpRequest) : Request := ⟨request.headers, router request⟩

section Handlers

variable [Sha256] [Base64] [CaseMapping] [TrigramIndex] [Iteration] [UserTexts] [TimeZones] [DebugText]
  (state : AppState) (headers : HeaderMap) (store : Store)

omit [Base64] [CaseMapping] [TrigramIndex] [Iteration] [UserTexts] [TimeZones] [DebugText] in
/-- Every handler but the public ones first authenticates. -/
def authenticated (respond : Uuid → Except AppError Body) : Except RequestError Body := do
  let userId ← state.identity.authenticate headers
  (respond userId).mapError .app

def SegmentQuery.validate (query : SegmentQuery) : Except AppError Window :=
  Window.parse ⟨query.entries, query.textPreview⟩

def root : Body := .root ⟨"abyss-backend", state.environment, "ok"⟩

def health : Body := .status ⟨"abyss-backend", "ok"⟩

def ready : Body := .status ⟨"abyss-backend", "ok"⟩

def ingestEvents (request : IngestEventsRequest) (draws : Draws) : Except RequestError Body × Store :=
  match state.identity.authenticate headers with
  | .error error => (.error error, store)
  | .ok userId =>
    match Storage.ingestEvents request userId state.maxIngestBatchSize draws store with
    | .error error => (.error (.app error), store)
    | .ok (response, after) => (.ok (.ingested response), after)

def rawEvents (query : RawEventsQuery) : Except RequestError Body :=
  authenticated state headers fun userId => do
    let response ← SqliteFtsBackend.rawEvents store userId query state.defaultPageSize
    if !query.includesContent then return .rawEventList (.fromEvents response)
    return .rawEvents response

def usageEvent (eventPk : Uuid) : Except RequestError Body :=
  authenticated state headers fun userId => Body.usageEvent <$> SqliteFtsBackend.usageEvent store userId eventPk

def eventLocation (eventPk : Uuid) : Except RequestError Body :=
  authenticated state headers fun userId => Body.eventLocation <$> Storage.eventLocation store userId eventPk

def imageAttachment (attachmentId : Uuid) : Except RequestError Body :=
  authenticated state headers fun userId => do
    let attachment ← Storage.imageAttachment store userId attachmentId
    let response ← imageResponse attachment
    return .image response

def usageSummary (query : SummaryQuery) : Except RequestError Body :=
  authenticated state headers fun userId => do
    let fields := query.fields.getD .full
    let response ← Storage.usageSummary store state.owners userId query state.summaryScanLimit
    if fields = .tokenUsage then return .tokenUsageSummary (.fromSummary response)
    return .usageSummary response

def usageComparison (query : ComparisonQuery) : Except RequestError Body :=
  authenticated state headers fun userId => Body.usageComparison <$> compare store userId query

def sessionSearch (query : SessionSearchQuery) : Except RequestError Body :=
  authenticated state headers fun userId => Body.sessionSearch <$> SqliteFtsBackend.sessionSearch store userId query

def listSessions (query : SessionListQuery) : Except RequestError Body :=
  authenticated state headers fun userId => do
    let query ← query.validate
    Body.listSessions <$> Storage.listSessions store userId query

def sessionHeader (sessionPk : Uuid) : Except RequestError Body :=
  authenticated state headers fun userId => Body.sessionHeader <$> Storage.sessionHeader store userId sessionPk

def sessionStreams (sessionPk : Uuid) : Except RequestError Body :=
  authenticated state headers fun userId => Body.sessionStreams <$> Storage.sessionStreams store userId sessionPk

def sessionTurns (sessionPk : Uuid) : Except RequestError Body :=
  authenticated state headers fun userId => Body.sessionTurns <$> Storage.sessionTurns store userId sessionPk

def sessionSegment (sessionPk : Uuid) (head : String) (query : SegmentQuery) : Except RequestError Body :=
  authenticated state headers fun userId => do
    let window ← query.validate
    Body.sessionSegment <$> Storage.sessionSegment store userId sessionPk head window

def searchInSession (sessionPk : Uuid) (query : InSessionSearchQuery) : Except RequestError Body :=
  authenticated state headers fun userId =>
    Body.searchInSession <$> Storage.searchInSession userId sessionPk query store

def eventConversation (eventPk : Uuid) (query : PreviewQuery) : Except RequestError Body :=
  authenticated state headers fun userId => do
    let window ← Window.parse query
    Body.eventConversation <$> Storage.eventConversation store userId eventPk window

/-- The handler of an endpoint. -/
def handle (endpoint : Endpoint) (draws : Draws) : Except RequestError Body × Store :=
  match endpoint with
  | .root => (.ok (root state), store)
  | .health => (.ok health, store)
  | .ready => (.ok ready, store)
  | .ingestEvents events => ingestEvents state headers store events draws
  | .rawEvents query => (rawEvents state headers store query, store)
  | .usageEvent eventPk => (usageEvent state headers store eventPk, store)
  | .eventLocation eventPk => (eventLocation state headers store eventPk, store)
  | .imageAttachment attachmentId => (imageAttachment state headers store attachmentId, store)
  | .usageSummary query => (usageSummary state headers store query, store)
  | .usageComparison query => (usageComparison state headers store query, store)
  | .sessionSearch query => (sessionSearch state headers store query, store)
  | .listSessions query => (listSessions state headers store query, store)
  | .sessionHeader sessionPk => (sessionHeader state headers store sessionPk, store)
  | .sessionStreams sessionPk => (sessionStreams state headers store sessionPk, store)
  | .sessionTurns sessionPk => (sessionTurns state headers store sessionPk, store)
  | .sessionSegment sessionPk head query => (sessionSegment state headers store sessionPk head query, store)
  | .searchInSession sessionPk query => (searchInSession state headers store sessionPk query, store)
  | .eventConversation eventPk query => (eventConversation state headers store eventPk query, store)

omit headers in
def serve (request : Request) (draws : Draws) : Response × Store :=
  match request.endpoint with
  | .error rejection => (rejection.intoResponse, store)
  | .ok endpoint =>
    let (result, after) := handle state request.headers store endpoint draws
    (intoResponse result, after)

omit headers in
def respond [Extractors] (request : HttpRequest) (draws : Draws) : Response × Store :=
  let (response, after) := serve state store request.received draws
  (request.sent response, after)

end Handlers

end AbyssBackend.Api
