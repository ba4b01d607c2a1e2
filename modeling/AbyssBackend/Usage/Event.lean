import AbyssBackend.Streams.Structure
import AbyssBackend.Usage.Contract

namespace AbyssBackend

open Attachments Conversation Streams

structure EventAgent where
  name : String
  version : Option String
deriving DecidableEq, Repr

/-- An event's device; every label is absent where its row is missing. -/
structure EventDevice where
  hostName : Option String := none
  platform : Option String := none
  osVersion : Option String := none
deriving DecidableEq, Repr

structure EventLlm where
  provider : String
  model : String
deriving DecidableEq, Repr

structure DeclaredIds where
  subagentId : Option String := none
  parentSubagentId : Option String := none
  turnId : Option String := none
deriving DecidableEq, Repr

structure HttpHeader where
  name : String
  value : Option String
  valueBase64 : Option String
deriving DecidableEq, Repr

structure EventHttp where
  path : Option String
  headers : List HttpHeader
deriving DecidableEq, Repr

structure EventTokenUsage where
  inputTokens : ℤ
  outputTokens : ℤ
  cacheReadTokens : ℤ
  cacheWriteTokens : ℤ
  reasoningTokens : ℤ
  totalTokens : ℤ
deriving DecidableEq, Repr

structure RecordedMetadata where
  purpose : Option String
  omitted : List String
  http : EventHttp
deriving DecidableEq, Repr

def deserializeHttpHeader : Value → Option HttpHeader
  | .object members => do
    let name ← (← members.lookup "name").asStr
    let value ← deserializeDefault (members.lookup "value")
    let valueBase64 ← deserializeDefault (members.lookup "value_base64")
    return { name, value, valueBase64 }
  | .array items => do
    if items.length > 3 then none
    let name ← (← items[0]?).asStr
    let value ← deserializeDefault items[1]?
    let valueBase64 ← deserializeDefault items[2]?
    return { name, value, valueBase64 }
  | _ => none

def deserializeList {α : Type} (one : Value → Option α) (value : Value) : Option (List α) :=
  value.asArray.bind fun items => items.mapM one

namespace RecordedMetadata

/-- What a key of the metadata holds; one that is missing or has another shape reads as the default. -/
def field {α : Type} (deserialize : Value → Option α) (fallback : α) (metadata : Value) (key : String) : α :=
  ((metadata.get key).bind deserialize).getD fallback

def read (metadata : Value) : RecordedMetadata where
  purpose := field deserializeOptionString none metadata "purpose"
  omitted := field (deserializeList Value.asStr) [] metadata "omitted"
  http :=
    { path := field deserializeOptionString none metadata "path"
      headers := field (deserializeList deserializeHttpHeader) [] metadata "headers" }

end RecordedMetadata

structure UsageEventAttachmentResponse where
  id : Uuid
  position : ℤ
  mediaType : ImageMediaType
  byteSize : ℤ
  sha256 : String
  contentAvailable : Bool
deriving DecidableEq, Repr

structure StoredImageAttachment where
  mediaType : ImageMediaType
  sha256 : String
  content : List UInt8
deriving DecidableEq, Repr

structure UsageEventResponse where
  id : Uuid
  eventId : String
  sessionPk : Uuid
  sessionId : String
  location : Option EventLocation
  observedAt : DateTime
  eventType : String
  agent : EventAgent
  device : EventDevice
  llm : EventLlm
  purpose : Option String
  declared : DeclaredIds
  responseId : Option String
  previousResponseId : Option String
  http : EventHttp
  tokenUsage : EventTokenUsage
  omitted : List String
  conversation : Option Value
  attachments : List UsageEventAttachmentResponse

inductive RawEventFields
  | full
  | list
deriving DecidableEq, Repr

structure RawEventsQuery where
  fromTime : Option DateTime
  toTime : Option DateTime
  agentName : List String
  sessionId : List String
  sessionPk : Option Uuid
  llmProvider : List String
  llmModel : List String
  eventType : Option String
  limit : Option ℤ
  offset : Option ℤ
  fields : Option RawEventFields
  locate : Bool

def RawEventsQuery.includesContent (query : RawEventsQuery) : Bool := query.fields.getD .full = .full

structure RawEventsResponse where
  events : List UsageEventResponse
  nextPageToken : Option String

end AbyssBackend
