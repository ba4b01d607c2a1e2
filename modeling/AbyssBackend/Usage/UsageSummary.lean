import AbyssBackend.Usage.Summary
import AbyssBackend.Usage.Segments

namespace AbyssBackend

open Streams Text

/-- What a summary groups by. -/
structure SummaryDimensions where
  day : Bool
  user : Bool
  device : Bool
  agent : Bool
  provider : Bool
  model : Bool
  eventType : Bool
deriving DecidableEq, Repr

structure SummaryRow where
  day : Option String
  userId : Option Uuid
  userName : Option String
  userEmail : Option String
  hostName : Option String
  platform : Option String
  osVersion : Option String
  agentName : Option String
  llmProvider : Option String
  llmModel : Option String
  eventType : Option String
  sessions : ℕ
  turns : ℕ
  requests : ℤ
  responses : ℤ
  tokens : TokenCounts
deriving DecidableEq, Repr

structure SummaryResponse where
  fromTime : Option DateTime
  toTime : Option DateTime
  groupBy : List String
  rows : List SummaryRow
  nextPageToken : Option String
deriving DecidableEq, Repr

def groupName (value : String) : String :=
  if value = "employee" then "user"
  else if value = "llm_provider" then "provider"
  else if value = "llm_model" then "model"
  else value

def groupNames : List String := ["day", "user", "device", "agent", "provider", "model", "event_type"]

def parseGroupBy (raw : Option String) : List String :=
  let values := ((raw.getD "user,agent,provider,model").toList.splitOn ',').map fun value => trim (String.ofList value)
  let parsed := ((values.filter fun value => value ≠ "").map groupName).filter groupNames.contains
  if parsed.isEmpty then ["user", "agent", "provider", "model"] else parsed

def SummaryDimensions.fromGroupBy (groupBy : List String) : SummaryDimensions where
  day := groupBy.contains "day"
  user := groupBy.contains "user"
  device := groupBy.contains "device"
  agent := groupBy.contains "agent"
  provider := groupBy.contains "provider"
  model := groupBy.contains "model"
  eventType := groupBy.contains "event_type"

def emptySummary (query : SummaryQuery) (groupBy : List String) : SummaryResponse where
  fromTime := query.fromTime
  toTime := query.toTime
  groupBy
  rows := []
  nextPageToken := none

example : parseGroupBy (some "day,llm_model") = ["day", "model"] := by decide

end AbyssBackend
