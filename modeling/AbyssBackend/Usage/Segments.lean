import AbyssBackend.Integers
import AbyssBackend.Library.Tables
import AbyssBackend.Streams.Timeline
import AbyssBackend.Usage.Preview

namespace AbyssBackend

open Streams Tables

structure TokenCounts where
  input : ℤ := 0
  output : ℤ := 0
  cacheRead : ℤ := 0
  cacheWrite : ℤ := 0
  reasoning : ℤ := 0
  total : ℤ := 0
deriving DecidableEq, Repr

def TokenCounts.add (counts other : TokenCounts) : TokenCounts where
  input := saturatingAdd counts.input other.input
  output := saturatingAdd counts.output other.output
  cacheRead := saturatingAdd counts.cacheRead other.cacheRead
  cacheWrite := saturatingAdd counts.cacheWrite other.cacheWrite
  reasoning := saturatingAdd counts.reasoning other.reasoning
  total := saturatingAdd counts.total other.total

def TokenCounts.of (event : UsageEventResponse) : TokenCounts where
  input := event.tokenUsage.inputTokens
  output := event.tokenUsage.outputTokens
  cacheRead := event.tokenUsage.cacheReadTokens
  cacheWrite := event.tokenUsage.cacheWriteTokens
  reasoning := event.tokenUsage.reasoningTokens
  total := event.tokenUsage.totalTokens

structure SessionStreamsResponse where
  sessionPk : Uuid
  segments : List StreamSegment
deriving DecidableEq, Repr

structure SessionTurnsResponse where
  sessionPk : Uuid
  turns : List TurnNode
deriving DecidableEq, Repr

structure EventLocationResponse where
  sessionPk : Uuid
  eventPk : Uuid
  location : EventLocation
deriving DecidableEq, Repr

structure SegmentExchangeResponse where
  exchange : SegmentExchange
  requestedAt : Option DateTime
  respondedAt : Option DateTime
  model : Option String
  requestTokens : Option TokenCounts
  responseTokens : Option TokenCounts
  request : Option ConversationPreview
  response : Option ConversationPreview

structure SegmentResponse where
  sessionPk : Uuid
  segment : String
  exchanges : List SegmentExchangeResponse

def runEventPks (run : SegmentRun) : List Uuid :=
  run.exchanges.flatMap fun exchange => exchange.requestPk.toList ++ exchange.responsePk.toList

/-- Takes an event out of those not shown yet. -/
def takeEvent (pk : Option Uuid) (events : Table Uuid UsageEventResponse) :
    Option UsageEventResponse × Table Uuid UsageEventResponse :=
  (pk.bind events, fun k => if pk = some k then none else events k)

def segmentExchange (window : Window) (exchange : SegmentExchange) (request response : Option UsageEventResponse) :
    SegmentExchangeResponse where
  exchange
  requestedAt := request.map UsageEventResponse.observedAt
  respondedAt := response.map UsageEventResponse.observedAt
  model := (request.or response).map fun event => event.llm.model
  requestTokens := request.map TokenCounts.of
  responseTokens := response.map TokenCounts.of
  request := request.map fun event => preview event window
  response := response.map fun event => preview event window

def segmentExchanges (window : Window) :
    List SegmentExchange → Table Uuid UsageEventResponse → List SegmentExchangeResponse
  | [], _ => []
  | exchange :: rest, events =>
    let (request, events) := takeEvent exchange.requestPk events
    let (response, events) := takeEvent exchange.responsePk events
    segmentExchange window exchange request response :: segmentExchanges window rest events

/-- A run with its events. -/
def segmentResponse (sessionPk : Uuid) (run : SegmentRun) (events : Table Uuid UsageEventResponse) (window : Window) :
    SegmentResponse where
  sessionPk
  segment := run.segment
  exchanges := segmentExchanges window run.exchanges events

end AbyssBackend
