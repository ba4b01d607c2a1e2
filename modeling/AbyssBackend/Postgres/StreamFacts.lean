import AbyssBackend.Library.Formats
import AbyssBackend.Postgres.Ingest
import AbyssBackend.Storage.Fixtures
import AbyssBackend.Storage.StreamFacts

namespace AbyssBackend.Postgres

open Conversation Storage Streams Text

/-! The fact columns of PostgreSQL hold JSON values. -/

def skeletonJson (entry : SkeletonEntry) : Value := .array [.string entry.1, writeOptional entry.2]

def skeletonEntry : Value → Except String SkeletonEntry
  | .array [role, key] =>
    match role.asStr, deserializeOptionString key with
    | some role, some key => .ok (role, key)
    | _, _ => .error "invalid type"
  | _ => .error "invalid type: expected a tuple of size 2"

def stringRead (value : Value) : Except String String :=
  match value.asStr with
  | some text => .ok text
  | none => .error "invalid type: expected a string"

def listRead {α : Type} (read : Value → Except String α) (json : Value) : Except String (List α) :=
  match json.asArray with
  | some items => items.mapM read
  | none => .error "invalid type: expected a sequence"

theorem listRead_map {α : Type} {read : Value → Except String α} (write : α → Value)
    (h : ∀ x, read (write x) = .ok x) (list : List α) : listRead read (.array (list.map write)) = .ok list := by
  simp only [listRead, Value.asArray]
  induction list with
  | nil => rfl
  | cons x list ih =>
    rw [List.map_cons, List.mapM_cons, h, ih]
    rfl

instance : SerdeJson Value (List String) where
  write list := .ok (.array (list.map .string))
  read := listRead stringRead
  read_write list := ⟨.array (list.map .string), rfl, listRead_map .string (fun _ => rfl) list⟩

instance : SerdeJson Value (List SkeletonEntry) where
  write list := .ok (.array (list.map skeletonJson))
  read := listRead skeletonEntry
  read_write list := ⟨.array (list.map skeletonJson), rfl,
    listRead_map skeletonJson (fun entry => by simp [skeletonEntry, skeletonJson, Value.asStr]) list⟩

section Survival

variable [Sha256]

def streamFacts (eventPk : Uuid) (event : IngestUsageEvent) : Except AppError (NewStreamFacts Value) :=
  NewStreamFacts.ofEvent Value eventPk event

def streamEvent (row : StreamEventRow Value) : Except AppError StreamEvent := row.streamEvent

/-- Whatever an event is, both stores give its stream facts back, and a session's structure with them. -/
theorem facts_survive [SerdeJson String (List String)] [SerdeJson String (List SkeletonEntry)]
    (userId sessionPk : Uuid) (deviceId : Delivery → Uuid) (deliveries : List Delivery) :
    (∀ delivery ∈ deliveries,
      Survives Storage.streamFacts StreamEventRow.intoStreamEvent delivery.event
          (Storage.newEvent userId (deviceId delivery) sessionPk delivery.event delivery.draw) ∧
        Survives streamFacts streamEvent delivery.event (newEvent userId (deviceId delivery) sessionPk delivery)) ∧
      (deliveries.mapM fun delivery => restored Storage.streamFacts StreamEventRow.intoStreamEvent delivery.event
          (Storage.newEvent userId (deviceId delivery) sessionPk delivery.event delivery.draw)).map
            SessionStructure.derive =
        .ok (.derive (deliveries.map fun delivery =>
          streamEventRead delivery.draw.eventPk (timestampToMicros delivery.event.observedAt) delivery.event)) ∧
      (deliveries.mapM fun delivery => restored streamFacts streamEvent delivery.event
          (newEvent userId (deviceId delivery) sessionPk delivery)).map SessionStructure.derive =
        .ok (.derive (deliveries.map fun delivery =>
          streamEventRead delivery.draw.eventPk (timestamptz delivery.event.observedAt) delivery.event)) := by
  have hsqlite : ∀ delivery : Delivery, Survives Storage.streamFacts StreamEventRow.intoStreamEvent delivery.event
      (Storage.newEvent userId (deviceId delivery) sessionPk delivery.event delivery.draw) :=
    fun _ => survives rfl rfl rfl rfl
  have hpostgres : ∀ delivery : Delivery, Survives streamFacts streamEvent delivery.event
      (newEvent userId (deviceId delivery) sessionPk delivery) := fun _ => survives rfl rfl rfl rfl
  exact ⟨fun delivery _ => ⟨hsqlite delivery, hpostgres delivery⟩,
    Survives.derive fun delivery _ => hsqlite delivery, Survives.derive fun delivery _ => hpostgres delivery⟩

end Survival

section Serialized

open Formats Storage.Fixtures

local instance serializedDigest : Sha256 := cargoDigest

/-- Compact JSON in a text column. -/
abbrev serdeJson {α : Type} (format : Format α) : SerdeJson String α where
  write value := .ok (String.ofList (format.write value))
  read json :=
    match format.read json.toList with
    | some (value, []) => .ok value
    | _ => .error "expected a JSON sequence"
  read_write value := by
    refine ⟨_, rfl, ?_⟩
    have hread := format.read_write value []
    rw [List.append_nil] at hread
    rw [String.toList_ofList, hread]

abbrev stringFormat : Format String := Format.string.map String.ofList String.toList fun _ => String.ofList_toList

theorem stringFormat_avoids {c : Char} (h : c ≠ '"') : stringFormat.Avoids c :=
  fun _ _ hhead => h (Option.some.inj hhead).symm

abbrev skeletonFormat : Format SkeletonEntry :=
  stringFormat.pair (stringFormat.nullable (stringFormat_avoids (by decide)))

theorem skeletonFormat_avoids : skeletonFormat.Avoids ']' := by
  rintro value rest ⟨⟩

local instance serializedStrings : SerdeJson String (List String) :=
  serdeJson (stringFormat.list (stringFormat_avoids (by decide)))

local instance serializedSkeletons : SerdeJson String (List SkeletonEntry) :=
  serdeJson (skeletonFormat.list skeletonFormat_avoids)

def callingEvent : IngestUsageEvent :=
  event "e1r" 2 .response [⟨"assistant", "cargo test", none, none⟩, ⟨"tool_call", "", some "\"c1\"", none⟩,
    ⟨"tool_call", "", none, none⟩]

/-- A request, and a response with a call of a tool by a quoted id and one without an id. -/
def callingDeliveries : List Delivery :=
  [⟨event "e1" 1 .request [⟨"user", "cargo test", none, none⟩], [], (draws 10).event 0, 1⟩,
    ⟨callingEvent, [], (draws 10).event 1, 2⟩]

theorem facts_survive_calling :
    ((∀ delivery ∈ callingDeliveries,
      Survives Storage.streamFacts StreamEventRow.intoStreamEvent delivery.event
          (Storage.newEvent 7 8 9 delivery.event delivery.draw) ∧
        Survives streamFacts streamEvent delivery.event (newEvent 7 8 9 delivery)) ∧
      (callingDeliveries.mapM fun delivery => restored Storage.streamFacts StreamEventRow.intoStreamEvent delivery.event
          (Storage.newEvent 7 8 9 delivery.event delivery.draw)).map SessionStructure.derive =
        .ok (.derive (callingDeliveries.map fun delivery =>
          streamEventRead delivery.draw.eventPk (timestampToMicros delivery.event.observedAt) delivery.event)) ∧
      (callingDeliveries.mapM fun delivery => restored streamFacts streamEvent delivery.event
          (newEvent 7 8 9 delivery)).map SessionStructure.derive =
        .ok (.derive (callingDeliveries.map fun delivery =>
          streamEventRead delivery.draw.eventPk (timestamptz delivery.event.observedAt) delivery.event))) ∧
    (Storage.streamFacts 16 callingEvent).toOption.bind NewStreamFacts.outputSkeleton = some
      ("[[\"assistant\",\"text:assistant:0031fd18feb55b6b493544de1976b438eeac0b2d1278821b9e4e8eb07e8cf503\"]," ++
        "[\"tool_call\",\"\\\"c1\\\"\"],[\"tool_call\",null]]") :=
  ⟨facts_survive 7 9 (fun _ => 8) callingDeliveries, by decide +kernel⟩

end Serialized

end AbyssBackend.Postgres
