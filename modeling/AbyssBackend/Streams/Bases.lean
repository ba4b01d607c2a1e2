import AbyssBackend.Streams.Exchanges

namespace AbyssBackend.Streams

open Positions Tables

inductive BaseRule
  | pointer
  | lastOutput
  | resultsOnly
deriving DecidableEq, Repr

inductive NoBaseReason
  | textOnly
  | noOutput
  | unknownIds
  | multipleResponses
  | missingRequest
deriving DecidableEq, Repr

abbrev Base := Except NoBaseReason (ℕ × BaseRule)

def byResponseId (exchanges : List Exchange) : Table String ℕ :=
  ofPairs (exchanges.zipIdx.filterMap fun (exchange, index) =>
    exchange.responseId.map fun responseId => (responseId, index))

def emit (index : ℕ) (byId : String → List ℕ) (id : String) : String → List ℕ :=
  if (byId id).getLast? = some index then byId else Function.update byId id (byId id ++ [index])

def emitExchange (byId : String → List ℕ) (indexed : Exchange × ℕ) : String → List ℕ :=
  match indexed.1.response with
  | some response => response.facts.emittedIds.foldl (emit indexed.2) byId
  | none => byId

def emitters (exchanges : List Exchange) : String → List ℕ :=
  exchanges.zipIdx.foldl emitExchange fun _ => []

def onlyEmitterLoop (own : ℕ) : Option ℕ → List ℕ → Except NoBaseReason ℕ
  | none, [] => .error .unknownIds
  | some found, [] => .ok found
  | found, emitter :: rest =>
    if emitter = own ∨ found = some emitter then onlyEmitterLoop own found rest
    else if found.isSome then .error .multipleResponses
    else onlyEmitterLoop own (some emitter) rest

def onlyEmitter (ids : List String) (own : ℕ) (byId : String → List ℕ) : Except NoBaseReason ℕ :=
  onlyEmitterLoop own none (ids.flatMap byId)

def saysAll : List String → List String → Bool
  | [], _ => true
  | role :: trailing, said =>
    match said.dropWhile fun spoken => spoken != role with
    | [] => false
    | _ :: rest => saysAll trailing rest

def saidAfter (output : List SkeletonEntry) (last : String) (trailing : List String) : Bool :=
  match rposition (fun entry => modelRoles.contains entry.1 && entry.2 == some last) output with
  | none => false
  | some held =>
    let said := ((output.drop (held + 1)).map Prod.fst).filter modelRoles.contains
    saysAll trailing said

def continued (emitter : ℕ) (exchanges : List Exchange) (last : String) (trailing : List String) : Base :=
  let output := match exchanges[emitter]?.bind Exchange.response with
    | some response => response.facts.outputSkeleton
    | none => []
  if saidAfter output last trailing then .ok (emitter, .lastOutput) else .error .textOnly

def findBase (index : ℕ) (exchanges : List Exchange) (byResponseId : Table String ℕ)
    (byId : String → List ℕ) : Base :=
  match exchanges[index]?.bind Exchange.request with
  | none => .error .missingRequest
  | some request =>
    match request.previousResponseId.bind byResponseId with
    | some base => .ok (base, .pointer)
    | none =>
      let facts := request.facts
      match facts.lastIdentity with
      | some last => do
        let emitter ← onlyEmitter [last] index byId
        continued emitter exchanges last facts.trailing
      | none =>
        if facts.newFrom > 0 then .error .textOnly
        else if facts.resultIds.isEmpty then .error .noOutput
        else do
          let base ← onlyEmitter facts.resultIds index byId
          return (base, .resultsOnly)

def saidFirstWithoutContext (exchanges : List Exchange) (first : List Base) (last : String)
    (emitter : ℕ) : Bool :=
  first[emitter]? == some (.error .noOutput) &&
    (exchanges[emitter]?.bind Exchange.request).any (fun request => request.previousResponseId.isNone) &&
    ((exchanges[emitter]?.bind Exchange.response).bind fun response => response.facts.emittedIds.head?) ==
      some last

def sawBefore (first : List Base) (before emitter : ℕ) : Bool :=
  emitter == before ||
    match first[emitter]? with
    | some (.ok (base, _)) => base == before
    | _ => false

/-- For request `index`, whose last identity more than one other exchange emitted: the one
emitter that, before saying it, saw what the request has before it. -/
def tellApart (index : ℕ) (exchanges : List Exchange) (byId : String → List ℕ) (first : List Base) :
    Option Base := do
  let request ← exchanges[index]?.bind Exchange.request
  let facts := request.facts
  let last ← facts.lastIdentity
  let saw ← match facts.previousIdentity with
    | some previous =>
      match onlyEmitter [previous] index byId with
      | .ok before => some (sawBefore first before)
      | .error _ => none
    | none => some (saidFirstWithoutContext exchanges first last)
  let kept := (byId last).filter fun emitter => emitter != index && saw emitter
  return match kept with
    | [emitter] => continued emitter exchanges last facts.trailing
    | [] => .error .unknownIds
    | _ :: _ :: _ => .error .multipleResponses

/-- The base of every exchange and the rule that found it, or why it has none: first each by
`findBase`; then a request whose last identity more than one other exchange emitted takes the
emitter that saw what the request has before that identity. -/
def findBases (exchanges : List Exchange) (byResponseId : Table String ℕ)
    (byId : String → List ℕ) : List Base :=
  let first := (List.range exchanges.length).map fun index => findBase index exchanges byResponseId byId
  first.zipIdx.map fun (found, index) =>
    match found with
    | .error .multipleResponses => (tellApart index exchanges byId first).getD found
    | found => found

end AbyssBackend.Streams
