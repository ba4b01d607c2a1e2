import AbyssBackend.Library.Tallies
import AbyssBackend.Streams.Turns

namespace AbyssBackend.Streams

open Tables Tallies

inductive SegmentKind
  | root
  | turn
  | branch
deriving DecidableEq, Repr

inductive Group
  | declared (subagentId : Option String)
  | line (first : ℕ)
deriving DecidableEq, Repr

structure Segment where
  kind : SegmentKind
  parent : Option ℕ
  exchanges : List ℕ
  group : Group
  side : Bool
deriving DecidableEq, Repr

structure Segmentation where
  segments : List Segment
  segmentOf : List ℕ
deriving DecidableEq, Repr

namespace Segmentation

section Bases

variable (bases : List Base)

def base (index : ℕ) : Option ℕ :=
  match bases[index]? with
  | some (.ok (base, _)) => if base = index then none else some base
  | _ => none

/-- A base later than its exchange, or the exchange itself, places it as if it had none. -/
def earlier (index : ℕ) : Option ℕ :=
  (base bases index).filter fun base => base < index

def children (count : ℕ) : List ℕ :=
  tally count ((List.range count).filterMap (base bases))

def continued (count : ℕ) : List Bool :=
  mark count ((List.range count).filterMap (base bases))

def continuedChildren (count : ℕ) : List ℕ :=
  tally count (((List.range count).filter fun index => (continued bases count).getD index false).filterMap
    (base bases))

end Bases

def declares (exchange : Exchange) : Bool :=
  exchange.turnId.isSome || exchange.subagentId.isSome || exchange.parentSubagentId.isSome

def groupOf (bases : List Base) (count : ℕ) (declared : Bool) (groups : List Group) (exchange : Exchange) :
    Group :=
  let index := groups.length
  if declared then .declared exchange.subagentId
  else
    match earlier bases index with
    | some base =>
      if (continued bases count).getD index false && (continuedChildren bases count).getD base 0 > 1 then
        .line index
      else groups.getD base (.line index)
    | none => .line index

def groups (exchanges : List Exchange) (bases : List Base) : List Group :=
  let declared := exchanges.any declares
  exchanges.foldl (fun groups exchange =>
    groups ++ [groupOf bases exchanges.length declared groups exchange]) []

section Cut

variable (exchanges : List Exchange) (bases : List Base) (turns : Turns)

abbrev Key := Option ℕ × Group

def key (index : ℕ) : Key :=
  (turns.of.getD index none, (groups exchanges bases).getD index (.line index))

def hasContinued : List Key :=
  ((List.range exchanges.length).filter fun index =>
    (continued bases exchanges.length).getD index false).map (key exchanges bases turns)

def side (index : ℕ) : Bool :=
  !(continued bases exchanges.length).getD index false &&
    match base bases index with
    | none => (hasContinued exchanges bases turns).contains (key exchanges bases turns index)
    -- Not continued itself, so any continued child is another.
    | some base => (continuedChildren bases exchanges.length).getD base 0 > 0

def withMain : List Key :=
  ((List.range exchanges.length).filter fun index => !side exchanges bases turns index).map
    (key exchanges bases turns)

/-- A group with nothing but side exchanges in a turn has no main line for them to stand beside:
they are its main line. -/
def sides : List Bool :=
  (List.range exchanges.length).map fun index =>
    side exchanges bases turns index &&
      (withMain exchanges bases turns).contains (key exchanges bases turns index)

structure Cutting where
  segments : List Segment
  segmentOf : List ℕ
  mainOf : Table Key ℕ

def Cutting.start : Cutting := ⟨[], List.replicate exchanges.length 0, Tables.empty⟩

def opens (segmentOf : List ℕ) (index : ℕ) (isSide : Bool) : Segment where
  kind := match earlier bases index with
    | none => .root
    | some base => if (children bases exchanges.length).getD base 0 > 1 then .branch else .turn
  parent := (earlier bases index).map fun base => segmentOf.getD base 0
  exchanges := []
  group := (groups exchanges bases).getD index (.line index)
  side := isSide

def Cutting.place (cutting : Cutting) (index : ℕ) : Cutting :=
  let isSide := (sides exchanges bases turns).getD index false
  let known := if isSide then none else cutting.mainOf (key exchanges bases turns index)
  let opened : Cutting × ℕ := match known with
    | some segment => (cutting, segment)
    | none =>
      let segment := cutting.segments.length
      ({ cutting with
          segments := cutting.segments ++ [opens exchanges bases cutting.segmentOf index isSide]
          mainOf := if isSide then cutting.mainOf
            else insert cutting.mainOf (key exchanges bases turns index) segment }, segment)
  { opened.1 with
    segments := opened.1.segments.modify opened.2 fun segment =>
      { segment with exchanges := segment.exchanges ++ [index] }
    segmentOf := opened.1.segmentOf.set index opened.2 }

def cut : Segmentation :=
  let cutting := (List.range exchanges.length).foldl (Cutting.place exchanges bases turns)
    (Cutting.start exchanges)
  ⟨cutting.segments, cutting.segmentOf⟩

end Cut

end Segmentation

end AbyssBackend.Streams
