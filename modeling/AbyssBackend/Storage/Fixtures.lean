import AbyssBackend.Storage.Ingest
import AbyssBackend.Usage.Summary
import AbyssBackend.Usage.TimeZone

namespace AbyssBackend.Storage.Fixtures

open Conversation Search Streams Text

/-- SHA-256 on the one text these events hold, `cargo test`. -/
abbrev cargoDigest : Sha256 where
  digestBytes _ := [0x00, 0x31, 0xfd, 0x18, 0xfe, 0xb5, 0x5b, 0x6b, 0x49, 0x35, 0x44, 0xde, 0x19, 0x76, 0xb4, 0x38,
    0xee, 0xac, 0x0b, 0x2d, 0x12, 0x78, 0x82, 0x1b, 0x9e, 0x4e, 0x8e, 0xb0, 0x7e, 0x8c, 0xf5, 0x03]

abbrev noContent : Base64 where
  decode _ := none

abbrev asciiCase : CaseMapping where
  toLowercase c := [c.toLower]
  ascii _ _ := rfl

/-- A reading of user filters that knows neither identifiers nor letters outside ASCII. -/
abbrev asciiTexts : UserTexts where
  parseUuid _ := none
  toLowercase := toAsciiLowercase

/-- The one zone UTC. -/
abbrev utcZone : TimeZones where
  Tz := Unit
  decEq := inferInstance
  utc := ()
  parse _ := none
  offsetAt _ _ := 0
  debug := id

def event (eventId : String) (second : ℤ) (eventType : UsageEventType) (entries : List Entry) :
    IngestUsageEvent where
  eventId
  observedAt := second * 1000000000
  device := ⟨"alice-mbp", "macos", none⟩
  agent := ⟨"codex_exec", some "0.9"⟩
  sessionId := "s"
  responseId := some "resp-1"
  previousResponseId := none
  subagentId := none
  parentSubagentId := none
  turnId := none
  llm := ⟨"openai", "gpt-5"⟩
  eventType
  conversation := some (write entries)
  tokenUsage := ⟨some 1, some 1, none, none, none, none⟩
  metadata := .object []
  attachments := []

def captureOf (captureId : String) (eventIds : List String) : IngestDiagnosticCapture where
  captureId
  capturedAt := 0
  flowId := "flow"
  eventIds
  collectorVersion := "1"
  payload := .null

/-- A request and its response, out of order, the request delivered twice, and their capture. -/
def batch : IngestEventsRequest where
  events := [event "e1r" 2 .response [⟨"assistant", "cargo test", none, none⟩],
    event "e1" 1 .request [⟨"user", "cargo test", none, none⟩],
    event "e1" 1 .request [⟨"user", "cargo test", none, none⟩]]
  diagnosticCaptures := [captureOf "c1" ["e1", "e1r"]]

def draws (first : ℕ) : Draws where
  event index :=
    { now := 0
      deviceId := first + 4 * index
      sessionPk := first + 4 * index + 1
      eventPk := first + 4 * index + 2
      attachmentIds _ := first + 4 * index + 3
      titledAt := 0 }
  capture index := ⟨first + index, 0⟩

end AbyssBackend.Storage.Fixtures
