import Mathlib.Data.Prod.Lex
import Mathlib.Data.String.Basic
import AbyssBackend.Library.Sorting
import AbyssBackend.Storage.Schema
import AbyssBackend.Streams.Structure

namespace AbyssBackend.Storage

open Sorting Streams Tables Text

def uuidText (id : Uuid) : String :=
  let digits := (List.range 32).map fun place => hexDigit (id / 16 ^ (31 - place) % 16)
  String.ofList (digits.zipIdx.flatMap fun (digit, place) =>
    if [8, 12, 16, 20].contains place then ['-', digit] else [digit])

/-- The stream event of an event's columns; an absent fact reads as its default. -/
def intoStreamEvent (event : EventRow) (facts : Option StreamFactsRow) : StreamEvent where
  pk := event.id
  eventId := event.eventId
  observedAt := event.observedAt
  responseId := event.responseId
  previousResponseId := event.previousResponseId
  subagentId := facts.bind StreamFactsRow.subagentId
  parentSubagentId := facts.bind StreamFactsRow.parentSubagentId
  turnId := facts.bind StreamFactsRow.turnId
  facts :=
    if event.eventType = "request" then
      .request
        { newFrom := (facts.bind StreamFactsRow.newFrom).getD 0
          startsTurn := (facts.bind StreamFactsRow.startsTurn).getD false
          lastIdentity := facts.bind StreamFactsRow.lastIdentity
          previousIdentity := facts.bind StreamFactsRow.previousIdentity
          trailing := (facts.bind StreamFactsRow.trailing).getD []
          resultIds := (facts.bind StreamFactsRow.resultIds).getD []
          label := Label.fromColumns (facts.bind StreamFactsRow.labelIndex) (facts.bind StreamFactsRow.labelText)
            (facts.bind StreamFactsRow.labelLength) }
    else
      .response
        { emittedIds := (facts.bind StreamFactsRow.emittedIds).getD []
          outputSkeleton := (facts.bind StreamFactsRow.outputSkeleton).getD [] }

def sessionOrder (event : EventRow) : ℤ ×ₗ String ×ₗ ℕ :=
  toLex (event.observedAt, toLex (event.eventType, event.id))

section Reads

variable (store : Store)

def factsOf (eventPk : Uuid) : List (Option StreamFactsRow) :=
  Rows.leftJoin (fun row => row.eventPk == eventPk) store.streamFacts

def streamEvents (sessionPk : Uuid) : List StreamEvent :=
  (sortBy sessionOrder (store.events.filter fun event => event.sessionPk == sessionPk)).flatMap fun event =>
    (factsOf store event.id).map (intoStreamEvent event)

def sessionNotFound (sessionPk : Uuid) : AppError := .notFound s!"session not found: {uuidText sessionPk}"

def hasOwnSession (userId sessionPk : Uuid) : Bool :=
  store.sessions.any fun session => session.userId == userId && session.id == sessionPk

def sessionStructure (userId sessionPk : Uuid) : Except AppError SessionStructure :=
  if !hasOwnSession store userId sessionPk then .error (sessionNotFound sessionPk)
  else if (streamEvents store sessionPk).isEmpty then .error (sessionNotFound sessionPk)
  else .ok (SessionStructure.derive (streamEvents store sessionPk))

def titles (owner : Uuid) (sessionPks : List Uuid) : Table Uuid EntryLabel :=
  ofPairs (store.sessionTitles.flatMap fun title =>
    (store.sessions.filter fun session => session.id == title.sessionPk && session.userId == title.userId &&
      session.userId == owner && sessionPks.contains session.id).flatMap fun session =>
    (Rows.leftJoin (fun event => some event.id == title.titleEventPk && event.sessionPk == session.id &&
      event.eventType == "request") store.events).flatMap fun event =>
    (Rows.leftJoin (fun row => some row.eventPk == event.map EventRow.id) store.streamFacts).filterMap fun facts =>
    (EntryLabel.fromColumns (event.map EventRow.id) (facts.bind StreamFactsRow.labelIndex)
      (facts.bind StreamFactsRow.labelText) (facts.bind StreamFactsRow.labelLength)).map (session.id, ·))

end Reads

theorem hasOwnSession_of_mem {store : Store} {session : SessionRow} {owner : Uuid} (h : session ∈ store.sessions)
    (howner : session.userId = owner) : hasOwnSession store owner session.id = true :=
  List.any_eq_true.mpr ⟨session, h, by simp [howner]⟩

end AbyssBackend.Storage
