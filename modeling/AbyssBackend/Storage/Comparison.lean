import AbyssBackend.Library.Buckets
import AbyssBackend.Storage.Search
import AbyssBackend.Storage.SessionList
import AbyssBackend.Usage.Comparison

namespace AbyssBackend.Storage

open Buckets Sorting

def timestampMillis (moment : DateTime) : ℤ := moment / 1000000

/-- A bucket's label, and an event in it with its device. -/
structure ComparedEvent where
  bucket : ℤ
  event : EventRow
  device : DeviceRow

def comparedValue (groupBy : Option ComparisonDimension) (row : ComparedEvent) : String :=
  match groupBy with
  | some .agent => row.event.agentName
  | some .model => row.event.llmModel
  | some .provider => row.event.llmProvider
  | some .platform => row.device.platform
  | none => "all"

def comparisonFilters (query : ComparisonQuery) (fromTime toTime : ℤ) (event : EventRow) (device : DeviceRow) : Bool :=
  event.observedAt ≥ fromTime && event.observedAt < toTime && anyOf query.filters.agent event.agentName &&
  anyOf query.filters.model event.llmModel && anyOf query.filters.provider event.llmProvider &&
  anyOf query.filters.platform device.platform && anyOf query.filters.session event.sessionId

def comparisonRow (key : ℤ ×ₗ String) (rows : List ComparedEvent) : Except AppError ComparisonRow := do
  let totalTokens ← sqliteSum (rows.map fun row => row.event.totalTokens)
  return {
    bucket := (ofLex key).1
    value := (ofLex key).2
    totalTokens
    requests := (rows.filter fun row => row.event.eventType == "request").length }

def ComparisonOption.order (option : ComparisonOption) : String ×ₗ String := toLex (option.dimension, option.value)

def eventOptions (event : EventRow) (device : DeviceRow) : List ComparisonOption :=
  [⟨"agent", event.agentName⟩, ⟨"model", event.llmModel⟩, ⟨"provider", event.llmProvider⟩,
    ⟨"platform", device.platform⟩]

section Reads

variable (store : Store)

def devicesOf (event : EventRow) : List DeviceRow :=
  store.devices.filter fun device => device.id == event.deviceContextId

def comparedEvents (userId : Uuid) (query : ComparisonQuery) (fromTime toTime : ℤ) : List ComparedEvent :=
  query.buckets.flatMap fun bucket =>
    (store.events.filter fun event => event.userId == userId && event.observedAt ≥ timestampToMicros bucket.start &&
      event.observedAt < timestampToMicros bucket.end_).flatMap fun event =>
    ((devicesOf store event).filter (comparisonFilters query fromTime toTime event)).map fun device =>
      ⟨timestampMillis bucket.start, event, device⟩

/-- What the filters of a comparison can be set to in its time range. -/
def comparisonOptions (userId : Uuid) (fromTime toTime : ℤ) : List ComparisonOption :=
  let options := (store.events.filter fun event => event.userId == userId && event.observedAt ≥ fromTime &&
    event.observedAt < toTime).flatMap fun event => (devicesOf store event).flatMap (eventOptions event)
  sortBy ComparisonOption.order options.dedup

def compare (userId : Uuid) (query : ComparisonQuery) : Except AppError ComparisonResponse := do
  query.validate
  match query.buckets.head?, query.buckets.getLast? with
  | some first, some last =>
    let fromTime := timestampToMicros first.start
    let toTime := timestampToMicros last.end_
    let rows ← (buckets (fun row => (toLex (row.bucket, comparedValue query.groupBy row) : ℤ ×ₗ String))
      (comparedEvents store userId query fromTime toTime)).mapM fun (key, rows) => comparisonRow key rows
    return ⟨rows, comparisonOptions store userId fromTime toTime⟩
  | _, _ => throw (.validation "missing time range")

end Reads

end AbyssBackend.Storage
