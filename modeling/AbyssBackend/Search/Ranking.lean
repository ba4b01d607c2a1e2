import Mathlib.Data.Prod.Lex
import Mathlib.Order.WithBot
import AbyssBackend.Library.Groups
import AbyssBackend.Library.Sorting
import AbyssBackend.Library.Tables
import AbyssBackend.Search.Query

namespace AbyssBackend.Search

open Groups Sorting Streams Tables

def matchesPerSession : ℕ := 3

def fragmentsPerMatch : ℕ := 2

/-- What gives its items in no order of its own: an unordered query, or a hash map. -/
inductive Unordered
  | texts
  | ranges
  | hits
  | events
  | sessions

class Iteration where
  order {α : Type} (source : Unordered) (items : List α) : List α
  perm {α : Type} (source : Unordered) (items : List α) : (order source items).Perm items

/-- Every hit of a response, and those of a request from its `newFrom` on. -/
def isNew (eventType : UsageEventType) (newFrom : Option ℕ) (entryIndex : ℕ) : Bool :=
  eventType == .response || entryIndex ≥ newFrom.getD 0

structure SearchHit where
  sessionPk : Uuid
  sessionId : String
  eventPk : Uuid
  observedAt : DateTime
  entryIndex : ℕ
  field : PieceField
  textId : ℕ
  new : Bool

structure RankedMatch where
  eventPk : Uuid
  observedAt : DateTime
  new : Bool
  fragmentTexts : List ℕ

structure RankedSession where
  sessionPk : Uuid
  matchCount : ℕ
  newMatchCount : ℕ
  matches' : List RankedMatch

structure RankedPage where
  totalSessions : ℕ
  sessions : List RankedSession

structure MatchedEvent where
  eventType : String
  llmProvider : String
  llmModel : String

structure SessionDetails where
  sessionId : String
  agentName : String
  agentVersion : Option String
  hostName : String
  platform : String
  startedAt : DateTime
  endedAt : Option DateTime

@[ext]
structure PieceHit where
  new : Bool
  entryIndex : ℕ
  field : PieceField
  textId : ℕ

structure EventHits where
  sessionPk : Uuid
  sessionId : String
  observedAt : DateTime
  hits : List PieceHit

def SearchHit.piece (hit : SearchHit) : PieceHit := ⟨hit.new, hit.entryIndex, hit.field, hit.textId⟩

namespace EventHits

def ofHits (hits : List SearchHit) : Option EventHits :=
  hits.head?.map fun first => ⟨first.sessionPk, first.sessionId, first.observedAt, hits.map SearchHit.piece⟩

def hasNew (event : EventHits) : Bool := event.hits.any PieceHit.new

def pieceRank (hit : PieceHit) : ℕ ×ₗ ℕ ×ₗ ℕ :=
  toLex ((if hit.new then 0 else 1), toLex (hit.entryIndex, if hit.field = .name then 0 else 1))

def fragmentTexts (event : EventHits) : List ℕ :=
  (sortBy pieceRank event.hits).foldl (fun texts hit =>
    if texts.length = fragmentsPerMatch ∨ hit.textId ∈ texts then texts else texts ++ [hit.textId]) []

end EventHits

def matchingEvents (hits : List SearchHit) : List (Uuid × EventHits) :=
  (groupBy SearchHit.eventPk hits).filterMap fun (eventPk, hits) => (EventHits.ofHits hits).map (eventPk, ·)

def latest (times : List ℤ) : WithBot ℤ := times.max?.elim ⊥ WithBot.some

def sessionRank (session : Uuid × List (Uuid × EventHits)) : (WithBot ℤ)ᵒᵈ ×ₗ String ×ₗ ℕ :=
  toLex (OrderDual.toDual (latest (session.2.map fun event => event.2.observedAt)),
    toLex ((session.2.head?.map fun event => event.2.sessionId).getD "", session.1))

def eventRank (event : Uuid × EventHits) : ℤ ×ₗ ℕ := toLex (event.2.observedAt, event.1)

def rankSession (session : Uuid × List (Uuid × EventHits)) : RankedSession :=
  let events := sortBy eventRank session.2
  let shown := events.filter (fun event => event.2.hasNew) ++ events.filter fun event => !event.2.hasNew
  { sessionPk := session.1
    matchCount := events.length
    newMatchCount := (events.filter fun event => event.2.hasNew).length
    matches' := (shown.take matchesPerSession).map fun event =>
      ⟨event.1, event.2.observedAt, event.2.hasNew, event.2.fragmentTexts⟩ }

def matchingSessions [Iteration] (hits : List SearchHit) : List (Uuid × List (Uuid × EventHits)) :=
  Iteration.order .sessions
    (groupBy (fun event => event.2.sessionPk) (Iteration.order .events (matchingEvents hits)))

def rankSessions [Iteration] (hits : List SearchHit) (offset pageSize : ℕ) : RankedPage :=
  let sessions := sortBy sessionRank (matchingSessions hits)
  { totalSessions := sessions.length
    sessions := ((sessions.drop offset).take pageSize).map rankSession }

def sortedDistinct (values : List String) : List String := sortBy id values.dedup

namespace RankedPage

variable (page : RankedPage)

def sessionPks : List Uuid := page.sessions.map RankedSession.sessionPk

def shownMatches : List RankedMatch := page.sessions.flatMap RankedSession.matches'

def eventPks : List Uuid := page.shownMatches.map RankedMatch.eventPk

def fragmentTexts : List ℕ := sortBy id (page.shownMatches.flatMap RankedMatch.fragmentTexts).dedup

end RankedPage

def RankedMatch.hydrate (ranked : RankedMatch) (events : Table Uuid MatchedEvent)
    (fragments : Table ℕ SearchFragment) : Option SessionSearchMatch :=
  (events ranked.eventPk).map fun event =>
    { eventPk := ranked.eventPk
      location := none
      eventType := event.eventType
      llmProvider := event.llmProvider
      llmModel := event.llmModel
      observedAt := ranked.observedAt
      new := ranked.new
      fragments := ranked.fragmentTexts.filterMap fragments }

def RankedSession.hydrate (ranked : RankedSession) (details : Table Uuid SessionDetails)
    (events : Table Uuid MatchedEvent) (fragments : Table ℕ SearchFragment) : Option SessionSearchResult :=
  (details ranked.sessionPk).map fun details =>
    let shown := ranked.matches'.filterMap fun ranked => ranked.hydrate events fragments
    { sessionPk := ranked.sessionPk
      sessionId := details.sessionId
      title := none
      agentName := details.agentName
      agentVersion := details.agentVersion
      hostName := details.hostName
      platform := details.platform
      startedAt := details.startedAt
      endedAt := details.endedAt
      providers := sortedDistinct (shown.map SessionSearchMatch.llmProvider)
      models := sortedDistinct (shown.map SessionSearchMatch.llmModel)
      matchCount := ranked.matchCount
      newMatchCount := ranked.newMatchCount
      matches' := shown }

def RankedPage.intoResponse (page : RankedPage) (query : ValidatedSearchQuery) (details : Table Uuid SessionDetails)
    (events : Table Uuid MatchedEvent) (fragments : Table ℕ SearchFragment) : SessionSearchResponse where
  query := query.text
  totalSessions := page.totalSessions
  page := query.page
  pageSize := query.pageSize
  hasMore := query.offset + query.pageSize < page.totalSessions
  -- a session is on its page once, so taking its details out leaves the others' in
  items := page.sessions.filterMap fun ranked => ranked.hydrate details events fragments

def maxInSessionHits : ℕ := 100000

def InSessionSearchResponse.fromHits (query : String) (hits : List InSessionHit) (ranges : Table ℕ (List (ℕ × ℕ))) :
    InSessionSearchResponse :=
  let kept := hits.take maxInSessionHits
  { query
    texts := (sortBy id (kept.map InSessionHit.textId).dedup).filterMap fun id =>
      (ranges id).map fun ranges => ⟨id, ranges⟩
    hits := kept
    truncated := hits.length > maxInSessionHits }

end AbyssBackend.Search
