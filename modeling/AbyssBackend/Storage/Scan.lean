import AbyssBackend.Search.Found
import AbyssBackend.Search.Naive
import AbyssBackend.Storage.Search

namespace AbyssBackend.Storage

open Search Sorting Streams Text

variable [Sha256] [CaseMapping]

def finds (query : String) (event : EventRow) : List Piece :=
  (pieces event.conversation).filter fun piece => naiveHolds piece.text query

def newPiece (event : EventRow) (piece : Piece) : Bool :=
  event.eventType == "response" || (RequestFacts.read event.conversation).newFrom ≤ piece.entryIndex

def among (values : List String) (value : String) : Bool := values.isEmpty || (values.map trim).contains value

def passes (query : SessionSearchQuery) (event : EventRow) : Bool :=
  (query.fromTime.all fun fromTime => timestampToMicros fromTime ≤ event.observedAt) &&
  (query.toTime.all fun toTime => event.observedAt < timestampToMicros toTime) &&
  among query.agentName event.agentName && among query.llmProvider event.llmProvider &&
  among query.llmModel event.llmModel && query.eventType.all fun eventType => event.eventType == trim eventType

def scanEvent (query : String) (event : EventRow) : Found where
  eventPk := event.id
  sessionPk := event.sessionPk
  sessionId := event.sessionId
  observedAt := timestampFromMicros event.observedAt
  new := (finds query event).any (newPiece event)

/-- The owner's events that pass the filters, those kept that have a piece holding the query. -/
def scanEvents (owner : Uuid) (query : SessionSearchQuery) (store : Store) : List Found :=
  (store.events.filter fun event =>
    event.userId == owner && passes query event && !(finds query.q event).isEmpty).map (scanEvent query.q)

structure ScanHit where
  eventPk : Uuid
  entryIndex : ℕ
  field : PieceField
  new : Bool
  ranges : Option (List (ℕ × ℕ))
deriving DecidableEq, Repr

def scanHit (query : String) (event : EventRow) (piece : Piece) : ScanHit :=
  ⟨event.id, piece.entryIndex, piece.field, newPiece event piece, some (naiveRanges piece.text query)⟩

def eventOrder (event : EventRow) : ℤ ×ₗ ℕ := toLex (event.observedAt, event.id)

/-- Every hit in the session, by event, then by entry and `name` before `text`. -/
def scanSession (owner sessionPk : Uuid) (query : String) (store : Store) : List ScanHit :=
  (sortBy eventOrder (sessionEvents owner sessionPk store)).flatMap fun event =>
    (finds query event).map (scanHit query event)

def responseHit (response : InSessionSearchResponse) (hit : InSessionHit) : ScanHit :=
  ⟨hit.eventPk, hit.entryIndex, hit.field, hit.new,
    (response.texts.find? fun text => text.id == hit.textId).map MatchedText.ranges⟩

section Filters

omit [Sha256] [CaseMapping]

theorem anyOf_eq {normalized values : List String} (h : ∀ value, value ∈ normalized ↔ value ∈ values.map trim)
    (value : String) : anyOf normalized value = among values value := by
  have hempty : normalized.isEmpty = values.isEmpty := by
    rw [Bool.eq_iff_iff, List.isEmpty_iff, List.isEmpty_iff, List.eq_nil_iff_forall_not_mem]
    simp only [h, ← List.eq_nil_iff_forall_not_mem, List.map_eq_nil_iff]
  rw [anyOf, among, hempty, Bool.eq_iff_iff]
  simp only [Bool.or_eq_true, List.contains_iff_mem, h]

theorem admits_eq {query : SessionSearchQuery} {validated : ValidatedSearchQuery} (h : Asks query validated)
    (event : EventRow) : admits validated event = passes query event := by
  simp only [admits, passes, h.fromTime, h.toTime, anyOf_eq h.agentNames, anyOf_eq h.llmProviders,
    anyOf_eq h.llmModels, h.eventType, Option.all_map, ge_iff_le]

end Filters

end AbyssBackend.Storage
