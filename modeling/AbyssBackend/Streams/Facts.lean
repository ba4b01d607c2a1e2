import AbyssBackend.Conversation
import AbyssBackend.Library.Positions

namespace AbyssBackend.Streams

open Conversation Positions Text

variable [Sha256]

def modelRoles : List String := ["assistant", "reasoning", "tool_call"]

def textRoles : List String := ["assistant", "reasoning"]

def itemPrefix : String := "item:"

def textPrefix : String := "text:"

def isModelSide (entry : Entry) : Bool :=
  modelRoles.contains entry.role

def item (entry : Entry) : Option String :=
  if isModelSide entry then entry.itemId.map fun itemId => itemPrefix ++ itemId else none

def textIdentity (entry : Entry) : Option String :=
  let speaks := textRoles.contains entry.role
  if speaks && entry.callId.isNone && entry.itemId.isNone && trim entry.text != "" then
    some (textPrefix ++ entry.role ++ ":" ++ hexEncode (Sha256.digest entry.text))
  else none

def identities (entry : Entry) : List String :=
  let call := if entry.role == "tool_call" then entry.callId else none
  (item entry).toList ++ call.toList ++ (textIdentity entry).toList

def key (entry : Entry) : Option String :=
  entry.callId <|> item entry <|> textIdentity entry

def conversationEntries (conversation : Option Value) : List Entry :=
  match Conversation.read conversation with
  | some conversation => conversation.entries
  | none => []

omit [Sha256] in
@[simp] theorem conversationEntries_write (entries : List Entry) :
    conversationEntries (some (write entries)) = entries := by
  rw [conversationEntries, read_write]

abbrev SkeletonEntry := String × Option String

def skeleton (entries : List Entry) : List SkeletonEntry :=
  entries.map fun entry => (entry.role, key entry)

def resultIds (entries : List Entry) : List String :=
  (entries.filter fun entry => entry.role == "tool_result").filterMap fun entry => entry.callId

def identitiesOf (entries : List Entry) : List String :=
  entries.flatMap identities

def i32Max : ℕ := 2147483647

/-- `i32::try_from(value).unwrap_or(i32::MAX)`. -/
def toI32 (value : ℕ) : ℤ := min value i32Max

structure Label where
  index : ℤ
  text : String
  length : ℤ
deriving DecidableEq, Repr

structure RequestFacts where
  newFrom : ℤ
  lastIdentity : Option String
  previousIdentity : Option String
  trailing : List String
  resultIds : List String
  startsTurn : Bool
  label : Option Label
deriving DecidableEq, Repr

structure ResponseFacts where
  emittedIds : List String
  outputSkeleton : List SkeletonEntry
deriving DecidableEq, Repr

def Label.fromColumns (index : Option ℤ) (text : Option String) (length : Option ℤ) : Option Label := do
  return ⟨← index, ← text, ← length⟩

def labelTextUnits : ℕ := 50

def cutLabel (units : ℕ) : List Char → List Char
  | [] => []
  | c :: cs => if units + lenUtf16 c > labelTextUnits then [] else c :: cutLabel (units + lenUtf16 c) cs

def Label.of (entries : List Entry) (newFrom : ℕ) : Option Label := do
  let offset ← rposition (fun entry => entry.role == "user" && entry.text != "") (entries.drop newFrom)
  let index := newFrom + offset
  let entry ← entries[index]?
  return {
    index := toI32 index
    text := String.ofList (cutLabel 0 entry.text.toList)
    length := toI32 (utf16Length entry.text) }

def startsTurn (newPart : List Entry) : Bool :=
  (newPart.any fun entry => entry.role == "user" && entry.text != "") &&
    !newPart.any fun entry => entry.role == "tool_result"

def runStart (entries : List Entry) (last : ℕ) : ℕ :=
  match rposition (fun entry => !isModelSide entry && entry.role != "tool_result") (entries.take last) with
  | some other => other + 1
  | none => 0

def RequestFacts.ofEntries (entries : List Entry) : RequestFacts :=
  match rposition isModelSide entries with
  | none =>
    { newFrom := 0
      lastIdentity := none
      previousIdentity := none
      trailing := []
      resultIds := Streams.resultIds entries
      startsTurn := Streams.startsTurn entries
      label := Label.of entries 0 }
  | some last =>
    let start := runStart entries last
    let run := (entries.take (last + 1)).drop start
    let held := rposition (fun entry => !(identities entry).isEmpty) run
    let lastIdentity := held.bind fun held => run[held]?.bind fun entry => (identities entry).getLast?
    let previousIdentity := held.bind fun held => lastIdentity.bind fun last =>
      ((entries.take (start + held + 1)).reverse.flatMap fun entry => (identities entry).reverse).find?
        fun identity => identity != last
    let trailing := match held with
      | none => []
      | some held => ((run.drop (held + 1)).filter isModelSide).map fun entry => entry.role
    let newFrom := last + 1
    { newFrom := toI32 newFrom
      lastIdentity
      previousIdentity
      trailing
      resultIds := []
      startsTurn := Streams.startsTurn (entries.drop newFrom)
      label := Label.of entries newFrom }

def RequestFacts.read (conversation : Option Value) : RequestFacts :=
  RequestFacts.ofEntries (conversationEntries conversation)

def ResponseFacts.ofEntries (entries : List Entry) : ResponseFacts where
  emittedIds := identitiesOf entries
  outputSkeleton := skeleton entries

def ResponseFacts.read (conversation : Option Value) : ResponseFacts :=
  ResponseFacts.ofEntries (conversationEntries conversation)

end AbyssBackend.Streams
