import AbyssBackend.Streams.Bases

namespace AbyssBackend.Streams

structure Turns where
  of : List (Option ℕ)
  ids : List String
deriving DecidableEq, Repr

def i64Max : ℕ := 9223372036854775807

namespace Turns

def start : Turns := ⟨[], []⟩

def opened (declared : Bool) (ids : List String) (exchange : Exchange) : Option String :=
  if declared then exchange.turnId
  -- A request that continues no context can be a sub-agent's task as well as the user's words:
  -- it opens a turn only before any turn began.
  else if exchange.startsTurn && (exchange.continuesContext || ids.isEmpty) then some exchange.id
  else none

def assignOne (declared : Bool) (bases : List Base) (turns : Turns) (exchange : Exchange) : Turns :=
  let index := turns.of.length
  match opened declared turns.ids exchange with
  | some id =>
    match turns.ids.idxOf? id with
    | some turn => { turns with of := turns.of ++ [some turn] }
    | none => { of := turns.of ++ [some turns.ids.length], ids := turns.ids ++ [id] }
  | none =>
    let current := if turns.ids.length = 0 then none else some (turns.ids.length - 1)
    let turn := match bases[index]? with
      | some (.ok (base, _)) => if base < index then (turns.of[base]?).join else current
      | _ => current
    { turns with of := turns.of ++ [turn] }

def assign (exchanges : List Exchange) (bases : List Base) : Turns :=
  let declared := exchanges.any fun exchange => exchange.turnId.isSome
  exchanges.foldl (assignOne declared bases) start

def number (turn : ℕ) : ℤ :=
  if turn ≤ i64Max then min (turn + 1) i64Max else i64Max

end Turns

end AbyssBackend.Streams
