import Mathlib.Data.List.Destutter
import Mathlib.Data.List.Infix
import Mathlib.Data.String.Basic
import AbyssBackend.Library.Sorting
import AbyssBackend.Usage.Contract

namespace AbyssBackend

open Sorting Streams Text

inductive SummaryFields
  | full
  | tokenUsage
deriving DecidableEq, Repr

structure SummaryQuery where
  fromTime : Option DateTime
  toTime : Option DateTime
  groupBy : Option String
  tz : Option String
  fields : Option SummaryFields
  userFilter : Option String
  agentName : List String
  sessionId : List String
  llmProvider : List String
  llmModel : List String
  eventType : Option String
  limit : Option ℤ

/-- What the program takes from libraries to read a user filter. -/
class UserTexts where
  parseUuid : String → Option Uuid
  toLowercase : String → String

def nonEmpty (value : String) : Option String := if trim value = "" then none else some value

def distinct (values : List String) : List String := (sortBy id values).destutter fun x y => x ≠ y

def exactValuesFilter (values : List String) : List String := distinct ((values.filterMap nonEmpty).map trim)

def toAsciiLowercase (value : String) : String := String.ofList (value.toList.map Char.toLower)

def validateEventType (value : String) : Except AppError String :=
  if toAsciiLowercase (trim value) = "request" then .ok "request"
  else if toAsciiLowercase (trim value) = "response" then .ok "response"
  else .error (.validation "event_type must be request or response")

def escapeLikePattern (value : String) : String :=
  String.ofList (value.toList.flatMap fun c => if ['\\', '%', '_'].contains c then ['\\', c] else [c])

def normalizeLimit (limit : Option ℤ) (fallback maximum : ℤ) : ℤ := min (max (limit.getD fallback) 1) maximum

structure OwnerRecord where
  email : String
  name : Option String

theorem validateEventType_ok {value : String} :
    (∃ eventType, validateEventType value = .ok eventType) ↔
      toAsciiLowercase (trim value) = "request" ∨ toAsciiLowercase (trim value) = "response" := by
  unfold validateEventType
  split_ifs with hrequest hresponse
  · simp [hrequest]
  · simp [hresponse]
  · simp [hrequest, hresponse]

end AbyssBackend
