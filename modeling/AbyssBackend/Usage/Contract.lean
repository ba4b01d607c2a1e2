import AbyssBackend.Conversation
import AbyssBackend.Streams.Exchanges
import AbyssBackend.Usage.Attachments

namespace AbyssBackend

/-- A moment, in nanoseconds since the epoch. -/
abbrev DateTime := ℤ

def timestampToMicros (moment : DateTime) : ℤ := moment / 1000

def timestampFromMicros (micros : ℤ) : DateTime := micros * 1000

inductive UsageEventType
  | request
  | response
deriving DecidableEq, Repr

def UsageEventType.asStr : UsageEventType → String
  | .request => "request"
  | .response => "response"

structure DevicePayload where
  hostName : String
  platform : String
  osVersion : Option String

structure AgentPayload where
  name : String
  version : Option String

structure LlmPayload where
  provider : String
  model : String

structure TokenUsagePayload where
  inputTokens : Option ℤ
  outputTokens : Option ℤ
  cacheReadTokens : Option ℤ
  cacheWriteTokens : Option ℤ
  reasoningTokens : Option ℤ
  totalTokens : Option ℤ

structure IngestUsageEvent where
  eventId : String
  observedAt : DateTime
  device : DevicePayload
  agent : AgentPayload
  sessionId : String
  responseId : Option String
  previousResponseId : Option String
  subagentId : Option String
  parentSubagentId : Option String
  turnId : Option String
  llm : LlmPayload
  eventType : UsageEventType
  conversation : Option Conversation.Value
  tokenUsage : TokenUsagePayload
  metadata : Conversation.Value
  attachments : List Attachments.IngestImageAttachment

structure IngestDiagnosticCapture where
  captureId : String
  capturedAt : DateTime
  flowId : String
  eventIds : List String
  collectorVersion : String
  payload : Conversation.Value

structure IngestEventsRequest where
  events : List IngestUsageEvent
  diagnosticCaptures : List IngestDiagnosticCapture

structure IngestEventsResponse where
  accepted : ℕ
  duplicates : ℕ
  rejected : ℕ
  errors : List String
  acceptedDiagnosticCaptures : ℕ
  duplicateDiagnosticCaptures : ℕ
deriving DecidableEq, Repr

end AbyssBackend
