import AbyssBackend.Search.Fragment
import AbyssBackend.Search.Ranking
import AbyssBackend.Storage.Reads

namespace AbyssBackend.Storage

open Search Sorting Streams Tables

/-- The FTS5 trigram index, which returns at least the rows that hold every quoted trigram. -/
class TrigramIndex where
  isMatch (expression folded : String) : Bool
  complete : ∀ (trigrams : List (List Char)) (folded : String), trigrams ≠ [] →
    (∀ trigram ∈ trigrams, trigram.length = trigramCharacters ∧ '\x00' ∉ trigram ∧ trigram <:+: folded.toList) →
    isMatch (matchExpression trigrams) folded = true

structure HitRow where
  eventPk : Uuid
  sessionPk : Uuid
  sessionId : String
  observedAt : ℤ
  eventType : String
  newFrom : Option ℤ
  entryIndex : ℤ
  field : String
  textId : ℕ

structure SessionHitRow where
  eventPk : Uuid
  eventType : String
  newFrom : Option ℤ
  entryIndex : ℤ
  field : String
  textId : ℕ

def outOfRange : String := "out of range integral type conversion attempted"

def readEventType (value : String) : Except AppError UsageEventType :=
  match value with
  | "request" => .ok .request
  | "response" => .ok .response
  | _ => .error (.internal s!"stored event type is invalid: {value}")

def readEntryIndex (value : ℤ) : Except AppError ℕ :=
  if value < 0 then .error (.internal s!"stored entry index is invalid: {outOfRange}") else .ok value.toNat

def readNewFrom (value : Option ℤ) : Except AppError (Option ℕ) :=
  if value.any fun value => value < 0 then .error (.internal s!"stored new_from is invalid: {outOfRange}")
  else .ok (value.map Int.toNat)

def readField (value : String) : Except AppError PieceField :=
  match PieceField.parse value with
  | some field => .ok field
  | none => .error (.internal s!"stored search field is invalid: {value}")

def HitRow.intoHit (row : HitRow) : Except AppError SearchHit := do
  let entryIndex ← readEntryIndex row.entryIndex
  let eventType ← readEventType row.eventType
  let newFrom ← readNewFrom row.newFrom
  let field ← readField row.field
  return {
    sessionPk := row.sessionPk
    sessionId := row.sessionId
    eventPk := row.eventPk
    observedAt := timestampFromMicros row.observedAt
    entryIndex
    field
    textId := row.textId
    new := isNew eventType newFrom entryIndex }

def SessionHitRow.intoHit (row : SessionHitRow) : Except AppError InSessionHit := do
  let entryIndex ← readEntryIndex row.entryIndex
  let eventType ← readEventType row.eventType
  let newFrom ← readNewFrom row.newFrom
  let field ← readField row.field
  return {
    eventPk := row.eventPk
    entryIndex
    field
    new := isNew eventType newFrom entryIndex
    textId := row.textId
    segment := none }

def anyOf (values : List String) (value : String) : Bool := values.isEmpty || values.contains value

def admits (query : ValidatedSearchQuery) (event : EventRow) : Bool :=
  (query.fromTime.all fun fromTime => event.observedAt ≥ timestampToMicros fromTime) &&
  (query.toTime.all fun toTime => event.observedAt < timestampToMicros toTime) &&
  anyOf query.agentNames event.agentName && anyOf query.llmProviders event.llmProvider &&
  anyOf query.llmModels event.llmModel && query.eventType.all fun eventType => event.eventType == eventType

def hitRank (hit : EventRow × SearchRef) : ℤ ×ₗ ℕ ×ₗ ℤ ×ₗ ℕ :=
  toLex (hit.1.observedAt, toLex (hit.1.id, toLex (hit.2.entryIndex, if hit.2.field = "name" then 0 else 1)))

def hitRow (event : EventRow) (ref : SearchRef) (facts : Option StreamFactsRow) : HitRow where
  eventPk := ref.eventPk
  sessionPk := event.sessionPk
  sessionId := event.sessionId
  observedAt := event.observedAt
  eventType := event.eventType
  newFrom := facts.bind StreamFactsRow.newFrom
  entryIndex := ref.entryIndex
  field := ref.field
  textId := ref.textId

def sessionHitRow (event : EventRow) (ref : SearchRef) (facts : Option StreamFactsRow) : SessionHitRow where
  eventPk := ref.eventPk
  eventType := event.eventType
  newFrom := facts.bind StreamFactsRow.newFrom
  entryIndex := ref.entryIndex
  field := ref.field
  textId := ref.textId

section Tables

variable (owner sessionPk : Uuid) (textIds : List ℕ) (query : ValidatedSearchQuery) (store : Store)

def sessionEvents : List EventRow :=
  store.events.filter fun event => event.userId == owner && event.sessionPk == sessionPk

def sessionTextIds : List ℕ :=
  (sessionEvents owner sessionPk store).flatMap fun event =>
    (store.searchRefs.filter fun ref => ref.eventPk == event.id).map SearchRef.textId

def hitRows : List HitRow :=
  textIds.flatMap fun textId => (store.searchRefs.filter fun ref => ref.textId == textId).flatMap fun ref =>
    (store.events.filter fun event => event.id == ref.eventPk && event.userId == owner && admits query event).flatMap
      fun event => (factsOf store event.id).map (hitRow event ref)

def sessionHits [Iteration] : Except AppError (List SearchHit) :=
  if textIds.isEmpty then .ok []
  else (Iteration.order .hits (hitRows owner textIds query store)).mapM HitRow.intoHit

def sessionRefs : List ((EventRow × SearchRef) × Option StreamFactsRow) :=
  (sessionEvents owner sessionPk store).flatMap fun event =>
    ((store.searchRefs.filter fun ref => ref.eventPk == event.id).filter fun ref =>
      textIds.contains ref.textId).flatMap fun ref =>
        (factsOf store event.id).map fun facts => ((event, ref), facts)

def sessionHitRows : List SessionHitRow :=
  ((sortBy (fun row => hitRank row.1) (sessionRefs owner sessionPk textIds store)).take (maxInSessionHits + 1)).map
    fun row => sessionHitRow row.1.1 row.1.2 row.2

def hitsInSession : Except AppError (List InSessionHit) :=
  if textIds.isEmpty then .ok [] else (sessionHitRows owner sessionPk textIds store).mapM SessionHitRow.intoHit

def matchedEvents (eventPks : List Uuid) : Table Uuid MatchedEvent :=
  ofPairs ((store.events.filter fun event => eventPks.contains event.id && event.userId == owner).map fun event =>
    (event.id, ⟨event.eventType, event.llmProvider, event.llmModel⟩))

def sessionDetails (sessionPks : List Uuid) : Table Uuid SessionDetails :=
  ofPairs ((store.sessions.filter fun session => session.userId == owner && sessionPks.contains session.id).flatMap
    fun session => (store.devices.filter fun device => device.id == session.deviceContextId).map fun device =>
      (session.id,
        { sessionId := session.sessionId
          agentName := session.agentName
          agentVersion := session.agentVersion
          hostName := device.hostName
          platform := device.platform
          startedAt := timestampFromMicros session.startedAt
          endedAt := session.endedAt.map timestampFromMicros }))

end Tables

section Search

variable [CaseMapping] [TrigramIndex] [Iteration]

/-- The owner's texts that may hold the query: those whose folded form has its trigrams, or all of them. -/
def ownerTexts (owner : Uuid) (pattern : Pattern) (store : Store) : List SearchText :=
  match pattern.trigramExpression with
  | none => store.searchTexts.filter fun text => text.userId == owner
  | some expression =>
    (store.searchTextsTrigram.filter fun row => TrigramIndex.isMatch expression row.folded).flatMap fun row =>
      store.searchTexts.filter fun text => text.id == row.rowid && text.userId == owner

def candidates (owner : Uuid) (pattern : Pattern) (sessionPk : Option Uuid) (store : Store) : List SearchText :=
  Iteration.order .texts ((ownerTexts owner pattern store).filter fun text =>
    sessionPk.all fun sessionPk => (sessionTextIds owner sessionPk store).contains text.id)

def textFragments (owner : Uuid) (pattern : Pattern) (textIds : List ℕ) (store : Store) : Table ℕ SearchFragment :=
  ofPairs ((store.searchTexts.filter fun text => text.userId == owner && textIds.contains text.id).filterMap
    fun text => (fragment text.text (pattern.occurrences text.text)).map (text.id, ·))

def withTitles (response : SessionSearchResponse) (titles : Table Uuid EntryLabel) : SessionSearchResponse :=
  { response with items := response.items.map fun item => { item with title := titles item.sessionPk } }

def hydratePage (userId : Uuid) (query : ValidatedSearchQuery) (pattern : Pattern) (page : RankedPage)
    (store : Store) : SessionSearchResponse :=
  let response := page.intoResponse query (sessionDetails userId store page.sessionPks)
    (matchedEvents userId store page.eventPks) (textFragments userId pattern page.fragmentTexts store)
  withTitles response (titles store userId (response.items.map SessionSearchResult.sessionPk))

def sessionSearch (userId : Uuid) (query : SessionSearchQuery) (store : Store) :
    Except AppError SessionSearchResponse := do
  let query ← query.validate
  let pattern := Pattern.new query.text
  let matching := ((candidates userId pattern none store).filter fun text => pattern.isMatch text.text).map
    SearchText.id
  let hits ← sessionHits userId matching query store
  return hydratePage userId query pattern (rankSessions hits query.offset query.pageSize) store

def matchedRanges (owner : Uuid) (pattern : Pattern) (sessionPk : Uuid) (store : Store) :
    List (ℕ × List (ℕ × ℕ)) :=
  (candidates owner pattern (some sessionPk) store).filterMap fun text =>
    let occurrences := pattern.occurrences text.text
    if occurrences.isEmpty then none else some (text.id, utf16Ranges text.text occurrences)

def withSegments (userId sessionPk : Uuid) (hits : List InSessionHit) (store : Store) :
    Except AppError (List InSessionHit) :=
  if hits.isEmpty then .ok hits
  else do
    let structure' ← sessionStructure store userId sessionPk
    return hits.map fun hit => { hit with segment := structure'.eventSegment hit.eventPk }

def searchInSession (userId sessionPk : Uuid) (query : InSessionSearchQuery) (store : Store) :
    Except AppError InSessionSearchResponse := do
  let text ← query.validate
  let pattern := Pattern.new text
  if !hasOwnSession store userId sessionPk then throw (sessionNotFound sessionPk)
  let ranges := matchedRanges userId pattern sessionPk store
  let matching := Iteration.order .ranges (ranges.map Prod.fst).dedup
  let hits ← hitsInSession userId sessionPk matching store
  let hits ← withSegments userId sessionPk hits store
  return InSessionSearchResponse.fromHits text hits (ofPairs ranges)

end Search

end AbyssBackend.Storage
