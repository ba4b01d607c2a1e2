import AbyssBackend.Library.Groups
import AbyssBackend.Streams.Structure

namespace AbyssBackend.Streams

open Groups

structure TurnExecutor where
  subagentId : Option String
  parentSubagentId : Option String
  main : List String
  side : List String
  exchangeCount : ℕ
  startTime : ℤ
deriving DecidableEq, Repr

structure TurnNode where
  turn : Option ℤ
  turnId : Option String
  startTime : ℤ
  endTime : ℤ
  exchangeCount : ℕ
  label : Option EntryLabel
  newContext : Bool
  executors : List TurnExecutor
deriving DecidableEq, Repr

structure Executor where
  subagentId : Option String
  parentSubagentId : Option String
  main : List ℕ
  side : List ℕ
deriving DecidableEq, Repr

namespace Executor

def all (executor : Executor) : List ℕ := executor.main ++ executor.side

section StartedFirst

variable (executors : List Executor)

def parentOf (index : ℕ) : Option ℕ := do
  let parent ← (← executors[index]?).parentSubagentId
  let found ← executors.findIdx? fun executor => executor.subagentId == some parent
  if found = index then none else some found

def parents : List (Option ℕ) := (List.range executors.length).map (parentOf executors)

def unplacedChildren (placed : List ℕ) (next : ℕ) : List ℕ :=
  (List.range executors.length).filter fun child =>
    (parents executors).getD child none == some next && !placed.contains child

abbrev Placing := List ℕ × List ℕ

/-- Pops the stack until it is empty: a popped executor is placed once and pushes its unplaced
children. The fuel bounds the number of pops. -/
def drain : ℕ → Placing → Placing
  | 0, placing => placing
  | _, ([], placed) => ([], placed)
  | fuel + 1, (next :: stack, placed) =>
    if placed.contains next then drain fuel (stack, placed)
    else
      let placed := placed ++ [next]
      drain fuel (unplacedChildren executors placed next ++ stack, placed)

def enter (topOnly : Bool) (placed : List ℕ) (index : ℕ) : List ℕ :=
  if placed.contains index || (topOnly && ((parents executors).getD index none).isSome) then placed
  else (drain executors (executors.length + 1) ([index], placed)).2

/-- Top-level executors first; a cycle, never reached from the top, is entered at its earliest
member in the second pass. -/
def startOrder : List ℕ :=
  [true, false].foldl (fun placed topOnly =>
    (List.range executors.length).foldl (enter executors topOnly) placed) []

def startedFirst : List Executor :=
  (startOrder executors).filterMap fun index => executors[index]?

end StartedFirst

end Executor

namespace SessionStructure

variable (s : SessionStructure)

def turnLe : Option ℤ → Option ℤ → Bool
  | none, _ => true
  | some _, none => false
  | some x, some y => x ≤ y

def byTurn : List (Option ℤ × List ℕ) :=
  (groupBy (fun index => s.segments[index]?.bind StreamSegment.turn)
    (List.range s.segments.length)).insertionSort fun x y => turnLe x.1 y.1

def startOf (segment : ℕ) : ℤ := (s.segments[segment]?.map StreamSegment.startTime).getD 0

def endOf (segment : ℕ) : ℤ := (s.segments[segment]?.map StreamSegment.endTime).getD 0

def groupAt (segment : ℕ) : Group :=
  (s.segmentation.segments[segment]?.map Segment.group).getD (.line 0)

def sideAt (segment : ℕ) : Bool := (s.segmentation.segments[segment]?.map Segment.side).getD false

def membersAt (segment : ℕ) : List ℕ := (s.segmentation.segments[segment]?.map Segment.exchanges).getD []

def Group.isSubagent : Group → Bool
  | .declared (some _) => true
  | _ => false

def segmentLe (x y : ℕ) : Bool :=
  s.startOf x < s.startOf y || (s.startOf x == s.startOf y && x ≤ y)

def groupLe (x y : Group × List ℕ) : Bool :=
  let start (group : Group × List ℕ) := (group.2.head?.map s.startOf).getD 0
  (!Group.isSubagent x.1 && Group.isSubagent y.1) ||
    (Group.isSubagent x.1 == Group.isSubagent y.1 && start x ≤ start y)

def executorOf (group : Group × List ℕ) : Executor :=
  let subagentId := match group.1 with
    | .declared subagentId => subagentId
    | .line _ => none
  { subagentId
    parentSubagentId := subagentId.bind fun _ => do
      let first ← (s.membersAt (← group.2.head?)).head?
      (s.exchangeAt first).parentSubagentId
    main := group.2.filter fun segment => !s.sideAt segment
    side := group.2.filter s.sideAt }

def executors (members : List ℕ) : List Executor :=
  let groups := (groupBy s.groupAt members).map fun group =>
    (group.1, group.2.insertionSort fun x y => s.segmentLe x y)
  Executor.startedFirst ((groups.insertionSort fun x y => s.groupLe x y).map s.executorOf)

def exchangeCount (segments : List ℕ) : ℕ :=
  (segments.map fun segment => (s.segments[segment]?.map StreamSegment.exchangeCount).getD 0).sum

def heads (segments : List ℕ) : List String :=
  segments.filterMap fun segment => s.segments[segment]?.map StreamSegment.head

def newContext (first : Option ℕ) : Bool :=
  (first.bind fun segment => (s.membersAt segment).head?.bind s.base).isNone

def turnExecutor (executor : Executor) : TurnExecutor where
  subagentId := executor.subagentId
  parentSubagentId := executor.parentSubagentId
  main := s.heads executor.main
  side := s.heads executor.side
  exchangeCount := s.exchangeCount executor.all
  startTime := (executor.all.map s.startOf).min?.getD 0

def turnNode (turn : Option ℤ) (members : List ℕ) : TurnNode :=
  let executors := s.executors members
  let first := executors.head?
  { turn
    turnId := members.head?.bind fun segment => s.segments[segment]?.bind StreamSegment.turnId
    startTime := (members.map s.startOf).min?.getD 0
    endTime := (members.map s.endOf).max?.getD 0
    exchangeCount := s.exchangeCount members
    label := first.bind fun executor =>
      executor.main.findSome? fun segment => (s.membersAt segment).findSome? s.label
    newContext := s.newContext (first.bind fun executor => executor.main.head?)
    executors := executors.map s.turnExecutor }

def sessionTurns : List TurnNode :=
  s.byTurn.map fun (turn, members) => s.turnNode turn members

end SessionStructure

end AbyssBackend.Streams
