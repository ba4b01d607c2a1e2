import AbyssBackend.Api.Responses
import AbyssBackend.Usage.Contract

namespace AbyssBackend.Api

open Search Streams Text

inductive Method
  | get
  | head
  | post
  | other (name : String)
deriving DecidableEq, Repr

/-- A request as it is received: the segments of its path are not decoded, and that of `/` is empty. -/
structure HttpRequest where
  method : Method
  path : List String
  query : Option String
  headers : HeaderMap
  body : List UInt8

inductive JsonError
  | jsonSyntaxError (text : String)
  | jsonDataError (text : String)
deriving DecidableEq, Repr

/-- Why a request is answered before any handler runs. -/
inductive Rejection
  | notFound
  | methodNotAllowed
  | pathRejection (text : String)
  | queryRejection (text : String)
  | missingJsonContentType (text : String)
  | lengthLimitError (text : String)
  | jsonError (error : JsonError)
deriving DecidableEq, Repr

namespace Rejection

def statusCode : Rejection → ℕ
  | .notFound => 404
  | .methodNotAllowed => 405
  | .pathRejection _ => 400
  | .queryRejection _ => 400
  | .missingJsonContentType _ => 415
  | .lengthLimitError _ => 413
  | .jsonError (.jsonSyntaxError _) => 400
  | .jsonError (.jsonDataError _) => 422

def body : Rejection → Body
  | .notFound => .empty
  | .methodNotAllowed => .empty
  | .pathRejection text => .text text
  | .queryRejection text => .text text
  | .missingJsonContentType text => .text text
  | .lengthLimitError text => .text text
  | .jsonError (.jsonSyntaxError text) => .text text
  | .jsonError (.jsonDataError text) => .text text

def intoResponse (rejection : Rejection) : Response := ⟨rejection.statusCode, rejection.body⟩

end Rejection

structure SegmentQuery where
  entries : Option String
  textPreview : Option ℕ

/-- What axum and serde read of a request, and what they say of one that they cannot read. -/
class Extractors where
  percentDecode : String → Except String String
  uuid : String → Except String Uuid
  rawEventsQuery : String → Except String RawEventsQuery
  summaryQuery : String → Except String SummaryQuery
  sessionSearchQuery : String → Except String SessionSearchQuery
  sessionListQuery : String → Except String SessionListQuery
  inSessionSearchQuery : String → Except String InSessionSearchQuery
  segmentQuery : String → Except String SegmentQuery
  previewQuery : String → Except String PreviewQuery
  jsonContentType : HeaderMap → Bool
  ingestEventsRequest : List UInt8 → Except JsonError IngestEventsRequest
  comparisonQuery : List UInt8 → Except JsonError ComparisonQuery
  missingJsonContentType : String
  lengthLimitError : String

/-- What an accepted request asks for. -/
inductive Endpoint
  | root
  | health
  | ready
  | ingestEvents (request : IngestEventsRequest)
  | rawEvents (query : RawEventsQuery)
  | usageEvent (eventPk : Uuid)
  | eventLocation (eventPk : Uuid)
  | imageAttachment (attachmentId : Uuid)
  | usageSummary (query : SummaryQuery)
  | usageComparison (query : ComparisonQuery)
  | sessionSearch (query : SessionSearchQuery)
  | listSessions (query : SessionListQuery)
  | sessionHeader (sessionPk : Uuid)
  | sessionStreams (sessionPk : Uuid)
  | sessionTurns (sessionPk : Uuid)
  | sessionSegment (sessionPk : Uuid) (head : String) (query : SegmentQuery)
  | searchInSession (sessionPk : Uuid) (query : InSessionSearchQuery)
  | eventConversation (eventPk : Uuid) (query : PreviewQuery)

/-- The routes, with the segments that their parameters take. -/
inductive Route
  | root
  | health
  | ready
  | events
  | usageEvent (eventPk : String)
  | eventLocation (eventPk : String)
  | imageAttachment (attachmentId : String)
  | usageSummary
  | usageComparison
  | sessionSearch
  | listSessions
  | sessionHeader (sessionPk : String)
  | sessionStreams (sessionPk : String)
  | sessionTurns (sessionPk : String)
  | sessionSegment (sessionPk head : String)
  | searchInSession (sessionPk : String)
  | eventConversation (eventPk : String)
deriving DecidableEq, Repr

def usageRoute : List String → Option Route
  | ["events"] => some .events
  | ["events", eventPk] => some (.usageEvent eventPk)
  | ["events", eventPk, "location"] => some (.eventLocation eventPk)
  | ["events", eventPk, "conversation"] => some (.eventConversation eventPk)
  | ["attachments", attachmentId] => some (.imageAttachment attachmentId)
  | ["summary"] => some .usageSummary
  | ["comparison"] => some .usageComparison
  | ["search"] => some .sessionSearch
  | ["sessions"] => some .listSessions
  | ["sessions", sessionPk, "header"] => some (.sessionHeader sessionPk)
  | ["sessions", sessionPk, "streams"] => some (.sessionStreams sessionPk)
  | ["sessions", sessionPk, "turns"] => some (.sessionTurns sessionPk)
  | ["sessions", sessionPk, "segments", head] => some (.sessionSegment sessionPk head)
  | ["sessions", sessionPk, "search"] => some (.searchInSession sessionPk)
  | _ => none

def route : List String → Option Route
  | [""] => some .root
  | ["healthz"] => some .health
  | ["readyz"] => some .ready
  | "v1" :: "agent-usage" :: path =>
    -- a parameter takes no empty segment
    if path.contains "" then none else usageRoute path
  | _ => none

def maxIngestRequestBodyBytes : ℕ := 64 * 1024 * 1024

/-- The limit of a route that sets none of its own. -/
def defaultBodyLimit : ℕ := 2 * 1024 * 1024

section Extraction

variable [Extractors] (request : HttpRequest)

def pathText (segment : String) : Except Rejection String :=
  (Extractors.percentDecode segment).mapError .pathRejection

def uuid (text : String) : Except Rejection Uuid := (Extractors.uuid text).mapError .pathRejection

def path (segment : String) : Except Rejection Uuid := do
  let text ← pathText segment
  uuid text

def pathPair (sessionPk head : String) : Except Rejection (Uuid × String) := do
  let sessionPk ← pathText sessionPk
  let head ← pathText head
  let sessionPk ← uuid sessionPk
  return (sessionPk, head)

omit [Extractors] in
def query {α : Type} (read : String → Except String α) : Except Rejection α :=
  (read (request.query.getD "")).mapError .queryRejection

def json {α : Type} (limit : ℕ) (read : List UInt8 → Except JsonError α) : Except Rejection α :=
  if !Extractors.jsonContentType request.headers then
    .error (.missingJsonContentType Extractors.missingJsonContentType)
  else if limit < request.body.length then .error (.lengthLimitError Extractors.lengthLimitError)
  else (read request.body).mapError .jsonError

omit [Extractors] in
/-- A route for GET, which takes HEAD too. -/
def get (extracted : Except Rejection Endpoint) : Except Rejection Endpoint :=
  match request.method with
  | .get | .head => extracted
  | _ => .error .methodNotAllowed

omit [Extractors] in
def post (extracted : Except Rejection Endpoint) : Except Rejection Endpoint :=
  match request.method with
  | .post => extracted
  | _ => .error .methodNotAllowed

/-- What the handler of a route extracts, in the order of its arguments. -/
def Route.extract : Route → Except Rejection Endpoint
  | .root => get request (.ok .root)
  | .health => get request (.ok .health)
  | .ready => get request (.ok .ready)
  | .events =>
    match request.method with
    | .post => .ingestEvents <$> json request maxIngestRequestBodyBytes Extractors.ingestEventsRequest
    | .get | .head => .rawEvents <$> query request Extractors.rawEventsQuery
    | _ => .error .methodNotAllowed
  | .usageEvent eventPk => get request (.usageEvent <$> path eventPk)
  | .eventLocation eventPk => get request (.eventLocation <$> path eventPk)
  | .imageAttachment attachmentId => get request (.imageAttachment <$> path attachmentId)
  | .usageSummary => get request (.usageSummary <$> query request Extractors.summaryQuery)
  | .usageComparison => post request (.usageComparison <$> json request defaultBodyLimit Extractors.comparisonQuery)
  | .sessionSearch => get request (.sessionSearch <$> query request Extractors.sessionSearchQuery)
  | .listSessions => get request (.listSessions <$> query request Extractors.sessionListQuery)
  | .sessionHeader sessionPk => get request (.sessionHeader <$> path sessionPk)
  | .sessionStreams sessionPk => get request (.sessionStreams <$> path sessionPk)
  | .sessionTurns sessionPk => get request (.sessionTurns <$> path sessionPk)
  | .sessionSegment sessionPk head => get request do
    let (sessionPk, head) ← pathPair sessionPk head
    let query ← query request Extractors.segmentQuery
    return .sessionSegment sessionPk head query
  | .searchInSession sessionPk => get request do
    let sessionPk ← path sessionPk
    let query ← query request Extractors.inSessionSearchQuery
    return .searchInSession sessionPk query
  | .eventConversation eventPk => get request do
    let eventPk ← path eventPk
    let query ← query request Extractors.previewQuery
    return .eventConversation eventPk query

def router : Except Rejection Endpoint :=
  match route request.path with
  | none => .error .notFound
  | some route => route.extract request

omit [Extractors] in
/-- The answer to HEAD is that to GET without its body. -/
def HttpRequest.sent (response : Response) : Response :=
  if request.method = .head then { response with body := .empty } else response

end Extraction

section Tests

variable [Extractors] (headers : HeaderMap) (body : List UInt8)

example : router ⟨.get, ["v1", "agent-usage", "events", ""], none, headers, body⟩ = .error .notFound := rfl

example : router ⟨.post, ["v1", "agent-usage", "search"], none, headers, body⟩ = .error .methodNotAllowed := rfl

end Tests

end AbyssBackend.Api
