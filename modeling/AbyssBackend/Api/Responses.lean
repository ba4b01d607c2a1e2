import AbyssBackend.Api.Identity
import AbyssBackend.Search.Query
import AbyssBackend.Usage.Comparison
import AbyssBackend.Usage.Event
import AbyssBackend.Usage.Runs
import AbyssBackend.Usage.SessionHeader
import AbyssBackend.Usage.SessionList
import AbyssBackend.Usage.UsageSummary

namespace AbyssBackend.Api

open Attachments Search Streams Text

structure RootResponse where
  service : String
  environment : String
  status : String
deriving DecidableEq, Repr

structure ServiceStatus where
  service : String
  status : String
deriving DecidableEq, Repr

structure TokenUsageSummaryRow where
  day : Option String
  inputTokens : ℤ
  outputTokens : ℤ
  cacheReadTokens : ℤ
  cacheWriteTokens : ℤ
  totalTokens : ℤ
deriving DecidableEq, Repr

def TokenUsageSummaryRow.of (row : SummaryRow) : TokenUsageSummaryRow where
  day := row.day
  inputTokens := row.tokens.input
  outputTokens := row.tokens.output
  cacheReadTokens := row.tokens.cacheRead
  cacheWriteTokens := row.tokens.cacheWrite
  totalTokens := row.tokens.total

structure TokenUsageSummaryResponse where
  fromTime : Option DateTime
  toTime : Option DateTime
  groupBy : List String
  rows : List TokenUsageSummaryRow
  nextPageToken : Option String
deriving DecidableEq, Repr

def TokenUsageSummaryResponse.fromSummary (summary : SummaryResponse) : TokenUsageSummaryResponse where
  fromTime := summary.fromTime
  toTime := summary.toTime
  groupBy := summary.groupBy
  rows := summary.rows.map .of
  nextPageToken := summary.nextPageToken

structure UsageEventListItem where
  id : Uuid
  eventId : String
  sessionPk : Uuid
  sessionId : String
  location : Option EventLocation
  observedAt : DateTime
  eventType : String
  agent : EventAgent
  device : EventDevice
  llm : EventLlm
  tokenUsage : EventTokenUsage

def UsageEventListItem.of (event : UsageEventResponse) : UsageEventListItem where
  id := event.id
  eventId := event.eventId
  sessionPk := event.sessionPk
  sessionId := event.sessionId
  location := event.location
  observedAt := event.observedAt
  eventType := event.eventType
  agent := event.agent
  device := event.device
  llm := event.llm
  tokenUsage := event.tokenUsage

structure RawEventListResponse where
  events : List UsageEventListItem
  nextPageToken : Option String

def RawEventListResponse.fromEvents (response : RawEventsResponse) : RawEventListResponse where
  events := response.events.map .of
  nextPageToken := response.nextPageToken

structure ImageResponse where
  headers : List (String × String)
  content : List UInt8
deriving DecidableEq, Repr

inductive Body
  | root (response : RootResponse)
  | status (response : ServiceStatus)
  | ingested (response : IngestEventsResponse)
  | rawEvents (response : RawEventsResponse)
  | rawEventList (response : RawEventListResponse)
  | usageEvent (response : UsageEventResponse)
  | eventLocation (response : EventLocationResponse)
  | image (response : ImageResponse)
  | usageSummary (response : SummaryResponse)
  | tokenUsageSummary (response : TokenUsageSummaryResponse)
  | usageComparison (response : ComparisonResponse)
  | sessionSearch (response : SessionSearchResponse)
  | listSessions (response : SessionListResponse)
  | sessionHeader (response : SessionHeaderResponse)
  | sessionStreams (response : SessionStreamsResponse)
  | sessionTurns (response : SessionTurnsResponse)
  | sessionSegment (response : SegmentResponse)
  | searchInSession (response : InSessionSearchResponse)
  | eventConversation (response : ConversationPreview)
  | error (error : String)
  | text (text : String)
  | empty

structure Response where
  status : ℕ
  body : Body

namespace RequestError

def statusCode : RequestError → ℕ
  | .app (.validation _) => 400
  | .unauthorized _ => 401
  | .app (.notFound _) => 404
  | .config _ => 500
  | .app (.internal _) => 500
  | .app (.database _) => 500

/-- What a client is told: the whole error, or nothing of one that is not about its request. -/
def text : RequestError → String
  | .config _ => "internal server error"
  | .app (.internal _) => "internal server error"
  | .app (.database _) => "internal server error"
  | .app (.notFound message) => s!"not found: {message}"
  | .unauthorized message => s!"unauthorized: {message}"
  | .app (.validation message) => s!"validation error: {message}"

end RequestError

def intoResponse : Except RequestError Body → Response
  | .ok body => ⟨200, body⟩
  | .error error => ⟨error.statusCode, .error error.text⟩

section Image

def fileExtension : ImageMediaType → String
  | .png => "png"
  | .jpeg => "jpg"
  | .webp => "webp"
  | .gif => "gif"

/-- Rust's `HeaderValue::from_str`. -/
def headerValue (text : String) : Except String String :=
  if (utf8 text).all fun byte => (32 ≤ byte.toNat && byte.toNat ≠ 127) || byte.toNat = 9 then .ok text
  else .error "failed to parse header value"

def contentDisposition (mediaType : ImageMediaType) : String :=
  s!"inline; filename=\"abyss-image.{fileExtension mediaType}\""

def etag (sha256 : String) : String := s!"\"{sha256}\""

def imageResponse (attachment : StoredImageAttachment) : Except AppError ImageResponse := do
  let disposition ← (headerValue (contentDisposition attachment.mediaType)).mapError fun error =>
    .internal s!"build image content-disposition header: {error}"
  let tag ← (headerValue (etag attachment.sha256)).mapError fun error =>
    .internal s!"build image etag header: {error}"
  return {
    headers := [("content-type", attachment.mediaType.asStr), ("content-disposition", disposition), ("etag", tag),
      ("cache-control", "private, no-store"), ("x-content-type-options", "nosniff"),
      ("cross-origin-resource-policy", "same-origin")]
    content := attachment.content }

end Image

end AbyssBackend.Api
