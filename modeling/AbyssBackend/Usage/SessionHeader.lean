import Mathlib.Data.Prod.Lex
import Mathlib.Order.WithBot
import AbyssBackend.Streams.Structure
import AbyssBackend.Usage.Segments
import AbyssBackend.Usage.Summary

namespace AbyssBackend

open Sorting Streams

structure HeaderEvent where
  sessionId : String
  agentName : String
  agentVersion : Option String
  provider : String
  model : String
  observedAt : DateTime
  tokens : TokenCounts
deriving DecidableEq, Repr

structure HeaderAgent where
  name : String
  version : Option String
deriving DecidableEq, Repr

structure SessionHeaderResponse where
  sessionPk : Uuid
  sessionId : String
  title : Option EntryLabel
  agents : List HeaderAgent
  start : DateTime
  end_ : DateTime
  eventCount : ℕ
  exchangeCount : ℕ
  turnCount : ℕ
  segmentCount : ℕ
  tokens : TokenCounts
  providers : List String
  models : List String
deriving DecidableEq, Repr

def HeaderAgent.order (agent : HeaderAgent) : String ×ₗ WithBot String := toLex (agent.name, agent.version)

def distinctAgents (agents : List HeaderAgent) : List HeaderAgent :=
  (sortBy HeaderAgent.order agents).destutter fun x y => x ≠ y

/-- The header of a session with at least one event. -/
def sessionHeader (sessionPk : Uuid) (events : List HeaderEvent) (summary : StreamSummary)
    (title : Option EntryLabel) : SessionHeaderResponse where
  sessionPk
  sessionId := (events.head?.map HeaderEvent.sessionId).getD ""
  title
  agents := distinctAgents (events.map fun event => ⟨event.agentName, event.agentVersion⟩)
  start := (events.map HeaderEvent.observedAt).min?.getD 0
  end_ := (events.map HeaderEvent.observedAt).max?.getD 0
  eventCount := events.length
  exchangeCount := summary.exchanges
  turnCount := summary.turns
  segmentCount := summary.segments
  tokens := (events.map HeaderEvent.tokens).foldl TokenCounts.add {}
  providers := distinct (events.map HeaderEvent.provider)
  models := distinct (events.map HeaderEvent.model)

end AbyssBackend
