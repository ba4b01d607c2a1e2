import AbyssBackend.Storage.Ingest
import AbyssBackend.Storage.Reads

namespace AbyssBackend.Storage

open Conversation Streams Text

/-- `serde_json` between a value and a JSON column: what it writes it reads back. -/
class SerdeJson (Json α : Type) where
  write : α → Except String Json
  read : Json → Except String α
  read_write : ∀ value, ∃ json, write value = .ok json ∧ read json = .ok value

/-- The fact columns of one event; lists are JSON. -/
structure NewStreamFacts (Json : Type) where
  eventPk : Uuid
  newFrom : Option ℤ := none
  startsTurn : Option Bool := none
  lastIdentity : Option String := none
  trailing : Option Json := none
  resultIds : Option Json := none
  emittedIds : Option Json := none
  outputSkeleton : Option Json := none
  labelIndex : Option ℤ := none
  labelText : Option String := none
  labelLength : Option ℤ := none
  subagentId : Option String := none
  parentSubagentId : Option String := none
  turnId : Option String := none
  continuesContext : Option Bool := none
  previousIdentity : Option String := none

structure StreamEventRow (Json : Type) where
  id : Uuid
  eventId : String
  eventType : String
  observedAt : ℤ
  responseId : Option String
  previousResponseId : Option String
  newFrom : Option ℤ
  startsTurn : Option Bool
  lastIdentity : Option String
  previousIdentity : Option String
  trailing : Option Json
  resultIds : Option Json
  emittedIds : Option Json
  outputSkeleton : Option Json
  labelIndex : Option ℤ
  labelText : Option String
  labelLength : Option ℤ
  subagentId : Option String
  parentSubagentId : Option String
  turnId : Option String

/-- What the left join of events and facts selects. -/
def StreamEventRow.select {Json : Type} (event : EventRow) (facts : Option (NewStreamFacts Json)) :
    StreamEventRow Json where
  id := event.id
  eventId := event.eventId
  eventType := event.eventType
  observedAt := event.observedAt
  responseId := event.responseId
  previousResponseId := event.previousResponseId
  newFrom := facts.bind NewStreamFacts.newFrom
  startsTurn := facts.bind NewStreamFacts.startsTurn
  lastIdentity := facts.bind NewStreamFacts.lastIdentity
  previousIdentity := facts.bind NewStreamFacts.previousIdentity
  trailing := facts.bind NewStreamFacts.trailing
  resultIds := facts.bind NewStreamFacts.resultIds
  emittedIds := facts.bind NewStreamFacts.emittedIds
  outputSkeleton := facts.bind NewStreamFacts.outputSkeleton
  labelIndex := facts.bind NewStreamFacts.labelIndex
  labelText := facts.bind NewStreamFacts.labelText
  labelLength := facts.bind NewStreamFacts.labelLength
  subagentId := facts.bind NewStreamFacts.subagentId
  parentSubagentId := facts.bind NewStreamFacts.parentSubagentId
  turnId := facts.bind NewStreamFacts.turnId

section Json

variable {Json α : Type}

def serialize [SerdeJson Json α] (value : α) (field : String) : Except AppError Json :=
  match SerdeJson.write value with
  | .ok json => .ok json
  | .error error => .error (.internal s!"serialize {field}: {error}")

/-- A stored JSON list; absent reads as empty. -/
def jsonList [SerdeJson Json (List α)] (json : Option Json) (field : String) : Except AppError (List α) :=
  match json with
  | none => .ok []
  | some json =>
    match SerdeJson.read json with
    | .ok list => .ok list
    | .error error => .error (.internal s!"stored {field} are invalid: {error}")

/-- The column holds the list, or neither is there. -/
def Written [SerdeJson Json (List α)] (json : Option Json) (list : Option (List α)) : Prop :=
  Option.Rel (fun json list => SerdeJson.read json = .ok list) json list

theorem serialize_written (Json : Type) [SerdeJson Json (List α)] (list : List α) (field : String) :
    ∃ json : Json, serialize list field = .ok json ∧ Written (some json) (some list) := by
  obtain ⟨json, hwrite, hread⟩ : ∃ json : Json, _ ∧ _ := SerdeJson.read_write list
  exact ⟨json, by rw [serialize, hwrite], .some hread⟩

theorem Written.jsonList [SerdeJson Json (List α)] {json : Option Json} {list : Option (List α)}
    (h : Written json list) (field : String) : jsonList json field = .ok (list.getD []) := by
  cases h with
  | none => rfl
  | some hread => rw [Storage.jsonList, hread]; rfl

end Json

section Columns

variable [Sha256] (Json : Type) [SerdeJson Json (List String)] [SerdeJson Json (List SkeletonEntry)]

namespace NewStreamFacts

def request (eventPk : Uuid) (facts : RequestFacts) (namesPrevious : Bool) :
    Except AppError (NewStreamFacts Json) := do
  let trailing ← serialize facts.trailing "trailing roles"
  let resultIds ← serialize facts.resultIds "result ids"
  return {
    eventPk
    newFrom := some facts.newFrom
    continuesContext := some (facts.newFrom > 0 || namesPrevious)
    startsTurn := some facts.startsTurn
    lastIdentity := facts.lastIdentity
    previousIdentity := facts.previousIdentity
    trailing := some trailing
    resultIds := some resultIds
    labelIndex := facts.label.map Label.index
    labelText := facts.label.map Label.text
    labelLength := facts.label.map Label.length }

def response (eventPk : Uuid) (facts : ResponseFacts) : Except AppError (NewStreamFacts Json) := do
  let emittedIds ← serialize facts.emittedIds "emitted ids"
  let outputSkeleton ← serialize facts.outputSkeleton "output skeleton"
  return { eventPk, emittedIds := some emittedIds, outputSkeleton := some outputSkeleton }

/-- Columns of the facts read from an event's conversation, by its type, without the declared ids. -/
def read (eventPk : Uuid) (eventType : String) (conversation : Option Value) (namesPrevious : Bool) :
    Except AppError (NewStreamFacts Json) :=
  if eventType = UsageEventType.request.asStr then
    request Json eventPk (RequestFacts.read conversation) namesPrevious
  else response Json eventPk (ResponseFacts.read conversation)

def ofEvent (eventPk : Uuid) (event : IngestUsageEvent) : Except AppError (NewStreamFacts Json) := do
  let facts ← read Json eventPk event.eventType.asStr event.conversation event.previousResponseId.isSome
  return { facts with
    subagentId := event.subagentId
    parentSubagentId := event.parentSubagentId
    turnId := event.turnId }

end NewStreamFacts

variable {Json}

def StreamEventRow.facts (row : StreamEventRow Json) : Except AppError EventFacts :=
  if row.eventType = UsageEventType.request.asStr then do
    let trailing ← jsonList row.trailing "trailing roles"
    let resultIds ← jsonList row.resultIds "result ids"
    return .request {
      newFrom := row.newFrom.getD 0
      startsTurn := row.startsTurn.getD false
      lastIdentity := row.lastIdentity
      previousIdentity := row.previousIdentity
      trailing
      resultIds
      label := Label.fromColumns row.labelIndex row.labelText row.labelLength }
  else do
    let emittedIds ← jsonList row.emittedIds "emitted ids"
    let outputSkeleton ← jsonList row.outputSkeleton "output skeleton"
    return .response { emittedIds, outputSkeleton }

def StreamEventRow.streamEvent (row : StreamEventRow Json) : Except AppError StreamEvent := do
  let facts ← row.facts
  return {
    pk := row.id
    eventId := row.eventId
    observedAt := row.observedAt
    responseId := row.responseId
    previousResponseId := row.previousResponseId
    subagentId := row.subagentId
    parentSubagentId := row.parentSubagentId
    turnId := row.turnId
    facts }

end Columns

/-- The JSON columns hold the lists of a row, and the others are its own. -/
structure Holds {Json : Type} [SerdeJson Json (List String)] [SerdeJson Json (List SkeletonEntry)]
    (columns : NewStreamFacts Json) (row : StreamFactsRow) : Prop where
  trailing : Written columns.trailing row.trailing
  resultIds : Written columns.resultIds row.resultIds
  emittedIds : Written columns.emittedIds row.emittedIds
  outputSkeleton : Written columns.outputSkeleton row.outputSkeleton
  others : row = { row with
    eventPk := columns.eventPk
    newFrom := columns.newFrom
    startsTurn := columns.startsTurn
    lastIdentity := columns.lastIdentity
    labelIndex := columns.labelIndex
    labelText := columns.labelText
    labelLength := columns.labelLength
    subagentId := columns.subagentId
    parentSubagentId := columns.parentSubagentId
    turnId := columns.turnId
    continuesContext := columns.continuesContext
    previousIdentity := columns.previousIdentity }

section Columns

variable [Sha256] {Json : Type} [SerdeJson Json (List String)] [SerdeJson Json (List SkeletonEntry)]

variable (Json) in
theorem ofEvent_holds (eventPk : Uuid) (event : IngestUsageEvent) :
    ∃ columns : NewStreamFacts Json, NewStreamFacts.ofEvent Json eventPk event = .ok columns ∧
      Holds columns (newFacts eventPk event) := by
  cases htype : event.eventType with
  | request =>
    obtain ⟨trailing, hwrite, htrailing⟩ := serialize_written Json
      (RequestFacts.read event.conversation).trailing "trailing roles"
    obtain ⟨resultIds, hwrite', hresultIds⟩ := serialize_written Json
      (RequestFacts.read event.conversation).resultIds "result ids"
    refine ⟨_, by simp only [NewStreamFacts.ofEvent, NewStreamFacts.read, htype, if_true, NewStreamFacts.request,
      hwrite, hwrite']; rfl, ?_⟩
    have hrow : newFacts eventPk event = { StreamFactsRow.ofRequest eventPk (RequestFacts.read event.conversation)
        event.previousResponseId.isSome with
        subagentId := event.subagentId, parentSubagentId := event.parentSubagentId, turnId := event.turnId } := by
      simp only [newFacts, StreamFactsRow.read, htype, if_true]
    rw [hrow]
    exact ⟨htrailing, hresultIds, .none, .none, rfl⟩
  | response =>
    obtain ⟨emittedIds, hwrite, hemittedIds⟩ := serialize_written Json
      (ResponseFacts.read event.conversation).emittedIds "emitted ids"
    obtain ⟨outputSkeleton, hwrite', hskeleton⟩ := serialize_written Json
      (ResponseFacts.read event.conversation).outputSkeleton "output skeleton"
    have hne : UsageEventType.response.asStr ≠ UsageEventType.request.asStr := by decide
    refine ⟨_, by simp only [NewStreamFacts.ofEvent, NewStreamFacts.read, htype, if_neg hne, NewStreamFacts.response,
      hwrite, hwrite']; rfl, ?_⟩
    have hrow : newFacts eventPk event = { StreamFactsRow.ofResponse eventPk (ResponseFacts.read event.conversation) with
        subagentId := event.subagentId, parentSubagentId := event.parentSubagentId, turnId := event.turnId } := by
      simp only [newFacts, StreamFactsRow.read, htype, if_neg hne]
    rw [hrow]
    exact ⟨.none, .none, hemittedIds, hskeleton, rfl⟩

omit [Sha256] in
theorem Holds.streamEvent {columns : NewStreamFacts Json} {row : StreamFactsRow} (h : Holds columns row)
    (event : EventRow) :
    (StreamEventRow.select event (some columns)).streamEvent = .ok (intoStreamEvent event (some row)) := by
  have htrailing := h.trailing.jsonList "trailing roles"
  have hresultIds := h.resultIds.jsonList "result ids"
  have hemittedIds := h.emittedIds.jsonList "emitted ids"
  have hskeleton := h.outputSkeleton.jsonList "output skeleton"
  rw [h.others]
  by_cases htype : event.eventType = "request"
  · simp only [StreamEventRow.streamEvent, StreamEventRow.facts, StreamEventRow.select, UsageEventType.asStr,
      htype, if_true, Option.bind_some, htrailing, hresultIds]
    simp only [intoStreamEvent, htype, if_true, Option.bind_some]
    rfl
  · simp only [StreamEventRow.streamEvent, StreamEventRow.facts, StreamEventRow.select, UsageEventType.asStr,
      htype, if_false, Option.bind_some, hemittedIds, hskeleton]
    simp only [intoStreamEvent, htype, if_false, Option.bind_some]
    rfl

end Columns

section Direct

variable [Sha256]

def factsRead (event : IngestUsageEvent) : EventFacts :=
  match event.eventType with
  | .request => .request (RequestFacts.read event.conversation)
  | .response => .response (ResponseFacts.read event.conversation)

/-- The stream event of an ingested event itself, with the facts of its conversation. -/
def streamEventRead (eventPk : Uuid) (observedAt : ℤ) (event : IngestUsageEvent) : StreamEvent where
  pk := eventPk
  eventId := event.eventId
  observedAt
  responseId := event.responseId
  previousResponseId := event.previousResponseId
  subagentId := event.subagentId
  parentSubagentId := event.parentSubagentId
  turnId := event.turnId
  facts := factsRead event

omit [Sha256] in
theorem Label.fromColumns_columns (label : Option Label) :
    Label.fromColumns (label.map Label.index) (label.map Label.text) (label.map Label.length) = label := by
  cases label <;> rfl

/-- Nothing of an event's facts is lost between its row and its columns. -/
theorem intoStreamEvent_newFacts {eventPk : Uuid} {event : IngestUsageEvent} {row : EventRow}
    (hid : row.id = eventPk) (hevent : row.eventId = event.eventId) (htype : row.eventType = event.eventType.asStr)
    (hresponse : row.responseId = event.responseId) (hprevious : row.previousResponseId = event.previousResponseId) :
    intoStreamEvent row (some (newFacts eventPk event)) = streamEventRead eventPk row.observedAt event := by
  have hne : UsageEventType.response.asStr ≠ UsageEventType.request.asStr := by decide
  cases hkind : event.eventType with
  | request =>
    have htype : row.eventType = "request" := by rw [htype, hkind]; rfl
    simp only [intoStreamEvent, htype, if_true, newFacts, hkind, StreamFactsRow.read, StreamFactsRow.ofRequest,
      Option.bind_some, Option.getD_some, Label.fromColumns_columns, streamEventRead, factsRead, hid, hevent,
      hresponse, hprevious]
  | response =>
    have htype : row.eventType ≠ "request" := by rw [htype, hkind]; decide
    simp only [intoStreamEvent, htype, if_false, newFacts, hkind, StreamFactsRow.read, if_neg hne,
      StreamFactsRow.ofResponse, Option.bind_some, Option.getD_some, streamEventRead, factsRead, hid, hevent,
      hresponse, hprevious]

/-- The column `continues_context` of a request is what an exchange with that request computes. -/
theorem newFacts_continuesContext {eventPk pk : Uuid} {event : IngestUsageEvent} {facts : RequestFacts}
    {exchange : Exchange} (hfacts : factsRead event = .request facts)
    (hrequest : exchange.request = some ⟨pk, event.previousResponseId, facts⟩) :
    (newFacts eventPk event).continuesContext = some exchange.continuesContext := by
  cases hkind : event.eventType with
  | request =>
    have hread : RequestFacts.read event.conversation = facts := by
      simpa [factsRead, hkind] using hfacts
    simp [newFacts, hkind, StreamFactsRow.read, StreamFactsRow.ofRequest, hread, Exchange.continuesContext, hrequest]
  | response => simp [factsRead, hkind] at hfacts

end Direct

section Stored

variable [Sha256] {Json : Type} [SerdeJson Json (List String)] [SerdeJson Json (List SkeletonEntry)]

variable (encode : Uuid → IngestUsageEvent → Except AppError (NewStreamFacts Json))
  (decode : StreamEventRow Json → Except AppError StreamEvent)

/-- The stream event that a session reads of a stored event: ingest's columns, joined to the row and decoded. -/
def restored (event : IngestUsageEvent) (row : EventRow) : Except AppError StreamEvent := do
  let columns ← encode row.id event
  decode (.select row (some columns))

def Survives (event : IngestUsageEvent) (row : EventRow) : Prop :=
  restored encode decode event row = .ok (streamEventRead row.id row.observedAt event) ∧
    ∃ columns, encode row.id event = .ok columns ∧
      ∀ facts, factsRead event = .request facts → ∀ exchange : Exchange,
        exchange.request = some ⟨row.id, event.previousResponseId, facts⟩ →
          columns.continuesContext = some exchange.continuesContext

theorem survives {event : IngestUsageEvent} {row : EventRow} (hevent : row.eventId = event.eventId)
    (htype : row.eventType = event.eventType.asStr) (hresponse : row.responseId = event.responseId)
    (hprevious : row.previousResponseId = event.previousResponseId) :
    Survives (NewStreamFacts.ofEvent Json) StreamEventRow.streamEvent event row := by
  obtain ⟨columns, hwrite, hholds⟩ := ofEvent_holds Json row.id event
  refine ⟨?_, columns, hwrite, fun facts hfacts exchange hrequest => ?_⟩
  · rw [restored, hwrite, ← intoStreamEvent_newFacts rfl hevent htype hresponse hprevious]
    exact hholds.streamEvent row
  · have hcolumn := congrArg StreamFactsRow.continuesContext hholds.others
    rw [newFacts_continuesContext hfacts hrequest] at hcolumn
    exact hcolumn.symm

variable {encode decode}

omit [SerdeJson Json (List String)] [SerdeJson Json (List SkeletonEntry)] in
/-- A structure derived from stored events is the one derived from their facts. -/
theorem Survives.derive {ι : Type} {items : List ι} {event : ι → IngestUsageEvent} {row : ι → EventRow}
    (h : ∀ item ∈ items, Survives encode decode (event item) (row item)) :
    (items.mapM fun item => restored encode decode (event item) (row item)).map SessionStructure.derive =
      .ok (.derive (items.map fun item => streamEventRead (row item).id (row item).observedAt (event item))) := by
  have hall : (items.mapM fun item => restored encode decode (event item) (row item)) =
      .ok (items.map fun item => streamEventRead (row item).id (row item).observedAt (event item)) := by
    induction items with
    | nil => rfl
    | cons item items ih =>
      rw [List.mapM_cons, (h item (by simp)).1, ih fun other hother => h other (by simp [hother])]
      rfl
  rw [hall]
  rfl

end Stored

section Text

variable [Sha256] [SerdeJson String (List String)] [SerdeJson String (List SkeletonEntry)]

def streamFacts (eventPk : Uuid) (event : IngestUsageEvent) : Except AppError (NewStreamFacts String) :=
  NewStreamFacts.ofEvent String eventPk event

def StreamEventRow.intoStreamEvent (row : StreamEventRow String) : Except AppError StreamEvent := row.streamEvent

end Text

end AbyssBackend.Storage
