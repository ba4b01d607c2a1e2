import AbyssBackend.Text

namespace AbyssBackend.Conversation

/-- A `serde_json::Value`; a number is kept as the text it was written in. -/
inductive Value
  | null
  | boolean (value : Bool)
  | number (text : String)
  | string (text : String)
  | array (items : List Value)
  | object (members : List (String × Value))

namespace Value

def asStr : Value → Option String
  | string text => some text
  | _ => none

def asArray : Value → Option (List Value)
  | array items => some items
  | _ => none

def get (key : String) : Value → Option Value
  | object members => members.lookup key
  | _ => none

end Value

structure Entry where
  role : String
  text : String
  callId : Option String
  itemId : Option String
deriving DecidableEq, Repr

inductive Completeness
  | complete
  | partially
  | unsupported
deriving DecidableEq, Repr

end Conversation

structure Conversation where
  entries : List Conversation.Entry
  completeness : Conversation.Completeness
deriving DecidableEq, Repr

namespace Conversation

/-! Derived deserializers read a struct from an object or from an array of
its fields in order; what fails to deserialize is `none`. -/

def deserializeOptionString : Value → Option (Option String)
  | .null => some none
  | .string text => some (some text)
  | _ => none

def deserializeDefault (field : Option Value) : Option (Option String) :=
  match field with
  | none => some none
  | some value => deserializeOptionString value

def deserializeEntry : Value → Option Entry
  | .object members => do
    let role ← (← members.lookup "role").asStr
    let text ← (← members.lookup "text").asStr
    let callId ← deserializeDefault (members.lookup "call_id")
    let itemId ← deserializeDefault (members.lookup "item_id")
    return { role, text, callId, itemId }
  | .array items => do
    if items.length > 4 then none
    let role ← (← items[0]?).asStr
    let text ← (← items[1]?).asStr
    let callId ← deserializeDefault items[2]?
    let itemId ← deserializeDefault items[3]?
    return { role, text, callId, itemId }
  | _ => none

def deserializeEntries (value : Value) : Option (List Entry) :=
  value.asArray.bind fun items => items.mapM deserializeEntry

def variant : String → Option Completeness
  | "complete" => some .complete
  | "partial" => some .partially
  | "unsupported" => some .unsupported
  | _ => none

/-- A unit variant is its name, or an object whose one member is the name with `null`. -/
def deserializeCompleteness : Value → Option Completeness
  | .string name => variant name
  | .object [(name, .null)] => variant name
  | _ => none

def deserialize : Value → Option Conversation
  | .object members => do
    let entries ← deserializeEntries (← members.lookup "entries")
    let completeness ← deserializeCompleteness (← members.lookup "completeness")
    return { entries, completeness }
  | .array [entries, completeness] => do
    let entries ← deserializeEntries entries
    let completeness ← deserializeCompleteness completeness
    return { entries, completeness }
  | _ => none

def read (conversation : Option Value) : Option Conversation := do
  let conversation ← deserialize (← conversation)
  if conversation.completeness = .complete then some conversation else none

/-! What a collector writes for completely decoded entries, and that it is read back. -/

def writeOptional : Option String → Value
  | some text => .string text
  | none => .null

def writeEntry (entry : Entry) : Value :=
  .object [("role", .string entry.role), ("text", .string entry.text),
    ("call_id", writeOptional entry.callId), ("item_id", writeOptional entry.itemId)]

def write (entries : List Entry) : Value :=
  .object [("entries", .array (entries.map writeEntry)), ("completeness", .string "complete")]

@[simp] theorem deserializeOptionString_writeOptional (text : Option String) :
    deserializeOptionString (writeOptional text) = some text := by
  cases text <;> rfl

@[simp] theorem deserializeEntry_writeEntry (entry : Entry) :
    deserializeEntry (writeEntry entry) = some entry := by
  simp [deserializeEntry, writeEntry, List.lookup_cons, deserializeDefault, Value.asStr]

theorem deserializeEntries_write (entries : List Entry) :
    deserializeEntries (.array (entries.map writeEntry)) = some entries := by
  simp only [deserializeEntries, Value.asArray, Option.bind_some]
  induction entries with
  | nil => rfl
  | cons entry entries ih => simp [List.mapM_cons, ih]

theorem read_write (entries : List Entry) : read (some (write entries)) = some ⟨entries, .complete⟩ := by
  have hentries : deserialize (write entries) = some ⟨entries, .complete⟩ := by
    simp [deserialize, write, List.lookup_cons, deserializeEntries_write, deserializeCompleteness, variant]
  simp [read, hentries]

end AbyssBackend.Conversation
