import AbyssBackend.Library.Sorting
import AbyssBackend.Streams.TurnViews
import AbyssBackend.Usage.Event

namespace AbyssBackend

open Conversation Sorting Streams Text

/-- One run of entries as a query asks for it. -/
inductive Run
  | span (start finish : ℕ)
  | last (count : ℕ)
deriving DecidableEq, Repr

structure Window where
  runs : Option (List Run)
  textPreview : Option ℕ
deriving DecidableEq, Repr

def Run.range (total : ℕ) : Run → ℕ × ℕ
  | .span start finish => (min start total, min (min (finish + 1) SessionStructure.usizeMax) total)
  | .last count => (total - count, total)

/-- Ranges that touch or overlap the last one so far become part of it. -/
def merge (merged : List (ℕ × ℕ)) (range : ℕ × ℕ) : List (ℕ × ℕ) :=
  match merged.getLast? with
  | some last =>
    if range.1 ≤ last.2 then merged.dropLast ++ [(last.1, max last.2 range.2)] else merged ++ [range]
  | none => [range]

def Window.ranges (window : Window) (total : ℕ) : List (ℕ × ℕ) :=
  match window.runs with
  | none => [(0, total)]
  | some runs =>
    let ranges := (runs.map (Run.range total)).filter fun range => range.1 < range.2
    (sortBy Prod.fst ranges).foldl merge []

structure Chunk where
  start : ℕ
  entries : List Value

structure ConversationPreview where
  eventPk : Uuid
  completeness : Option String
  entriesTotal : ℕ
  chunks : List Chunk
  omittedEntries : ℕ
  omittedBytes : ℕ
  attachments : List UsageEventAttachmentResponse

def textOf (entry : Value) : String := ((entry.get "text").bind Value.asStr).getD ""

/-- The characters up to the first that would pass the limit of UTF-16 units. -/
def cutText (limit : ℕ) : ℕ → List Char → List Char
  | _, [] => []
  | units, c :: cs => if units + lenUtf16 c > limit then [] else c :: cutText limit (units + lenUtf16 c) cs

def insertMember (key : String) (value : Value) (members : List (String × Value)) : List (String × Value) :=
  if members.any fun entry => entry.1 == key then
    members.map fun entry => if entry.1 = key then (key, value) else entry
  else members ++ [(key, value)]

def cut (entry : Value) (limit : Option ℕ) : Value :=
  match limit with
  | none => entry
  | some limit =>
    let length := utf16Length (textOf entry)
    if length ≤ limit then entry
    else
      let kept := String.ofList (cutText limit 0 (textOf entry).toList)
      match entry with
      | .object members =>
        .object (insertMember "text_length" (.number (toString length)) (insertMember "text" (.string kept) members))
      | entry => entry

def preview (event : UsageEventResponse) (window : Window) : ConversationPreview :=
  let entries := ((event.conversation.bind (Value.get "entries")).bind Value.asArray).getD []
  let ranges := window.ranges entries.length
  let shown := (ranges.map fun range => range.2 - range.1).sum
  { eventPk := event.id
    completeness := (event.conversation.bind (Value.get "completeness")).bind Value.asStr
    entriesTotal := entries.length
    chunks := ranges.map fun range =>
      ⟨range.1, ((entries.drop range.1).take (range.2 - range.1)).map fun entry => cut entry window.textPreview⟩
    omittedEntries := entries.length - shown
    omittedBytes := ((entries.zipIdx.filter fun (_, index) =>
      !ranges.any fun range => range.1 ≤ index && index < range.2).map fun (entry, _) =>
        (utf8 (textOf entry)).length).sum
    attachments := event.attachments }

end AbyssBackend
