import AbyssBackend.Streams.Exchanges

namespace AbyssBackend.Streams.Fixtures

open Conversation Text

abbrev okDigest : Sha256 where
  digestBytes _ := [0x26, 0x89, 0x36, 0x7b, 0x20, 0x5c, 0x16, 0xce, 0x32, 0xed, 0x42, 0x00, 0x94, 0x2b, 0x8b, 0x8b,
    0x1e, 0x26, 0x2d, 0xfc, 0x70, 0xd9, 0xbc, 0x9f, 0xbc, 0x77, 0xc4, 0x96, 0x99, 0xa4, 0xf1, 0xdf]

def user (text : String) : Entry := ⟨"user", text, none, none⟩

def assistant (text : String) : Entry := ⟨"assistant", text, none, none⟩

def call (id : String) : Entry := ⟨"tool_call", "\x7b\x7d", some id, none⟩

def result (id : String) : Entry := ⟨"tool_result", "ok", some id, none⟩

variable [Sha256]

def ask (pk : Uuid) (name : String) (millis : ℤ) (entries : List Entry) : StreamEvent where
  pk
  eventId := name ++ ".request"
  observedAt := millis * 1000
  responseId := some name
  previousResponseId := none
  subagentId := none
  parentSubagentId := none
  turnId := none
  facts := .request (RequestFacts.read (some (write entries)))

def answer (pk : Uuid) (name : String) (millis : ℤ) (entries : List Entry) : StreamEvent where
  pk
  eventId := name ++ ".response"
  observedAt := millis * 1000
  responseId := some name
  previousResponseId := none
  subagentId := none
  parentSubagentId := none
  turnId := none
  facts := .response (ResponseFacts.read (some (write entries)))

def declared (event : StreamEvent) (subagentId parentSubagentId turnId : Option String) : StreamEvent :=
  { event with subagentId, parentSubagentId, turnId }

end AbyssBackend.Streams.Fixtures
