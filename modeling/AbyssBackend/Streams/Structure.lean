import AbyssBackend.Streams.Segmentation

namespace AbyssBackend.Streams

open Tables

structure EntryLabel where
  eventPk : Uuid
  entryIndex : ℤ
  text : String
  length : ℤ
deriving DecidableEq, Repr

def EntryLabel.fromColumns (eventPk : Option Uuid) (entryIndex : Option ℤ) (text : Option String)
    (length : Option ℤ) : Option EntryLabel := do
  let label ← Label.fromColumns entryIndex text length
  return ⟨← eventPk, label.index, label.text, label.length⟩

structure StreamSegment where
  head : String
  kind : SegmentKind
  parent : Option String
  forkedFrom : Option String
  startTime : ℤ
  endTime : ℤ
  exchangeCount : ℕ
  label : Option EntryLabel
  turnId : Option String
  turn : Option ℤ
  subagentId : Option String
deriving DecidableEq, Repr

structure StreamSummary where
  exchanges : ℕ
  turns : ℕ
  segments : ℕ
deriving DecidableEq, Repr

structure EventLocation where
  segment : String
  turn : Option ℤ
  segmentKind : SegmentKind
  exchange : String
deriving DecidableEq, Repr

structure SegmentExchange where
  id : String
  requestPk : Option Uuid
  responsePk : Option Uuid
  base : Option String
  baseSegment : Option String
  rule : Option BaseRule
  noBaseReason : Option NoBaseReason
  newFrom : Option ℤ
  startsTurn : Bool
  subagentId : Option String
  parentSubagentId : Option String
  turnId : Option String
  turn : Option ℤ
deriving DecidableEq, Repr

structure SegmentRun where
  segment : String
  exchanges : List SegmentExchange
deriving DecidableEq, Repr

/-- What one session's events derive, before the segments are described. -/
structure Derivation where
  exchanges : List Exchange
  bases : List Base
  turns : Turns
  segmentation : Segmentation

namespace Derivation

variable (d : Derivation)

def exchangeAt (index : ℕ) : Exchange := d.exchanges.getD index default

def id (index : ℕ) : String := (d.exchangeAt index).id

def label (exchange : ℕ) : Option EntryLabel := do
  let request ← (← d.exchanges[exchange]?).request
  let label ← request.facts.label
  return { eventPk := request.pk, entryIndex := label.index, text := label.text, length := label.length }

def turn (exchange : ℕ) : Option String × Option ℤ :=
  match d.turns.of.getD exchange none with
  | some turn => (some (d.turns.ids.getD turn ""), some (Turns.number turn))
  | none => (none, none)

def base (exchange : ℕ) : Option ℕ :=
  match d.bases[exchange]? with
  | some (.ok (base, _)) => some base
  | _ => none

def segment (segment : Segment) : StreamSegment :=
  let first := segment.exchanges.head?.getD 0
  let members := segment.exchanges.map d.exchangeAt
  { head := d.id first
    kind := segment.kind
    parent := (segment.parent.bind fun parent =>
      d.segmentation.segments[parent]?.bind fun parent => parent.exchanges.head?).map d.id
    forkedFrom := (segment.parent.bind fun _ => d.base first).map d.id
    startTime := (members.map Exchange.atTime).min?.getD 0
    endTime := (members.map Exchange.endTime).max?.getD 0
    exchangeCount := segment.exchanges.length
    label := d.label first
    turnId := (d.turn first).1
    turn := (d.turn first).2
    subagentId := (d.exchangeAt first).subagentId }

def segmentHead (segment : ℕ) : String :=
  d.id ((d.segmentation.segments[segment]?.bind fun segment => segment.exchanges.head?).getD 0)

def exchange (index : ℕ) : SegmentExchange :=
  let exchange := d.exchangeAt index
  let request := exchange.request
  { id := exchange.id
    requestPk := request.map Side.pk
    responsePk := exchange.response.map Side.pk
    base := (d.base index).map d.id
    baseSegment := (d.base index).map fun base => d.segmentHead (d.segmentation.segmentOf.getD base 0)
    rule := match d.bases[index]? with
      | some (.ok (_, rule)) => some rule
      | _ => none
    noBaseReason := match d.bases[index]? with
      | some (.error reason) => some reason
      | _ => none
    newFrom := request.map fun request => request.facts.newFrom
    startsTurn := exchange.startsTurn
    subagentId := exchange.subagentId
    parentSubagentId := exchange.parentSubagentId
    turnId := (d.turn index).1
    turn := (d.turn index).2 }

end Derivation

structure SessionStructure extends Derivation where
  segments : List StreamSegment
  summary : StreamSummary
  exchangeById : Table String ℕ
  eventToExchange : Table Uuid ℕ

def deriveExchanges (events : List StreamEvent) : Derivation :=
  let exchanges := groupExchanges events
  let bases := findBases exchanges (byResponseId exchanges) (emitters exchanges)
  let turns := Turns.assign exchanges bases
  { exchanges, bases, turns, segmentation := Segmentation.cut exchanges bases turns }

namespace SessionStructure

def derive (events : List StreamEvent) : SessionStructure :=
  let d := deriveExchanges events
  { d with
    segments := d.segmentation.segments.map d.segment
    summary :=
      { exchanges := d.exchanges.length
        turns := d.turns.ids.length
        segments := d.segmentation.segments.length }
    exchangeById := ofFirst (d.exchanges.zipIdx.map fun (exchange, index) => (exchange.id, index))
    eventToExchange := ofPairs (d.exchanges.zipIdx.flatMap fun (exchange, index) =>
      exchange.eventPks.map fun pk => (pk, index)) }

variable (structure' : SessionStructure)

def sessionStreams : List StreamSegment := structure'.segments

def segmentRun (fromId : String) : Option SegmentRun := do
  let start ← structure'.exchangeById fromId
  let segment := structure'.segmentation.segmentOf.getD start 0
  let members := (structure'.segmentation.segments[segment]?.map Segment.exchanges).getD []
  let position ← members.idxOf? start
  return {
    segment := structure'.segmentHead segment
    exchanges := (members.drop position).map structure'.exchange }

def eventPosition (eventPk : Uuid) : Option EventLocation := do
  let exchange ← structure'.eventToExchange eventPk
  let segment := structure'.segmentation.segmentOf.getD exchange 0
  let kind ← structure'.segments[segment]?.map StreamSegment.kind
  return {
    segment := structure'.segmentHead segment
    turn := (structure'.turn exchange).2
    segmentKind := kind
    exchange := structure'.id exchange }

def eventSegment (eventPk : Uuid) : Option String :=
  (structure'.eventToExchange eventPk).map fun exchange =>
    structure'.segmentHead (structure'.segmentation.segmentOf.getD exchange 0)

end SessionStructure

end AbyssBackend.Streams
