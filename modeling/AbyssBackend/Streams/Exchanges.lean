import AbyssBackend.Library.Tables
import AbyssBackend.Streams.Facts
import Mathlib.Data.List.Sort

namespace AbyssBackend

/-- A UUID as the number its 32 hexadecimal digits spell; the text orders as the number does. -/
abbrev Uuid := ℕ

namespace Streams

inductive EventFacts
  | request (facts : RequestFacts)
  | response (facts : ResponseFacts)
deriving DecidableEq, Repr

/-- One session event with the columns streams are derived from. Times are microseconds. -/
structure StreamEvent where
  pk : Uuid
  eventId : String
  observedAt : ℤ
  responseId : Option String
  previousResponseId : Option String
  subagentId : Option String
  parentSubagentId : Option String
  turnId : Option String
  facts : EventFacts
deriving DecidableEq, Repr

structure Side (F : Type) where
  pk : Uuid
  previousResponseId : Option String
  facts : F
deriving DecidableEq, Repr

structure Exchange where
  id : String
  responseId : Option String
  eventPks : List Uuid
  atTime : ℤ
  endTime : ℤ
  request : Option (Side RequestFacts)
  response : Option (Side ResponseFacts)
  subagentId : Option String
  parentSubagentId : Option String
  turnId : Option String
deriving DecidableEq, Repr, Inhabited

namespace Exchange

def declare (exchange : Exchange) (event : StreamEvent) : Exchange :=
  { exchange with
    subagentId := event.subagentId
    parentSubagentId := event.parentSubagentId
    turnId := event.turnId }

def add (exchange : Exchange) (event : StreamEvent) : Exchange :=
  let exchange := { exchange with
    eventPks := exchange.eventPks ++ [event.pk]
    endTime := max exchange.endTime event.observedAt }
  match event.facts with
  | .request facts =>
    if exchange.request.isNone then
      { exchange.declare event with
        atTime := event.observedAt
        request := some ⟨event.pk, event.previousResponseId, facts⟩ }
    else exchange
  | .response facts =>
    if exchange.response.isNone then
      let exchange := if exchange.request.isNone then exchange.declare event else exchange
      { exchange with response := some ⟨event.pk, event.previousResponseId, facts⟩ }
    else exchange

def opened (event : StreamEvent) : Exchange where
  id := event.responseId.getD event.eventId
  responseId := event.responseId
  eventPks := []
  atTime := event.observedAt
  endTime := event.observedAt
  request := none
  response := none
  subagentId := none
  parentSubagentId := none
  turnId := none

def startsTurn (exchange : Exchange) : Bool :=
  exchange.request.any fun request => request.facts.startsTurn

def continuesContext (exchange : Exchange) : Bool :=
  exchange.request.any fun request => request.facts.newFrom > 0 || request.previousResponseId.isSome

end Exchange

structure Pairing where
  exchanges : List Exchange
  byResponseId : Tables.Table String ℕ

def Pairing.start : Pairing := ⟨[], Tables.empty⟩

def Pairing.place (pairing : Pairing) (event : StreamEvent) : Pairing :=
  match event.responseId.bind pairing.byResponseId with
  | some index => { pairing with exchanges := pairing.exchanges.modify index fun exchange => exchange.add event }
  | none =>
    { exchanges := pairing.exchanges ++ [(Exchange.opened event).add event]
      byResponseId := match event.responseId with
        | some responseId => Tables.insert pairing.byResponseId responseId pairing.exchanges.length
        | none => pairing.byResponseId }

/-- Pairs events into exchanges by `response_id`, ordered by request time; an event without a
`response_id` is its own exchange. The sort is stable. -/
def groupExchanges (events : List StreamEvent) : List Exchange :=
  (events.foldl Pairing.place Pairing.start).exchanges.insertionSort fun x y => x.atTime ≤ y.atTime

end Streams

end AbyssBackend
