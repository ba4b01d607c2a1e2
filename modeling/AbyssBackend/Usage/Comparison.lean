import AbyssBackend.Text
import AbyssBackend.Usage.Contract

namespace AbyssBackend

open Text

inductive ComparisonDimension
  | agent
  | model
  | provider
  | platform
deriving DecidableEq, Repr

structure ComparisonFilters where
  agent : List String := []
  model : List String := []
  provider : List String := []
  platform : List String := []
  session : List String := []
deriving DecidableEq, Repr

structure ComparisonBucket where
  start : DateTime
  end_ : DateTime
deriving DecidableEq, Repr

structure ComparisonQuery where
  groupBy : Option ComparisonDimension
  buckets : List ComparisonBucket
  filters : ComparisonFilters
deriving DecidableEq, Repr

structure ComparisonRow where
  bucket : ℤ
  value : String
  totalTokens : ℤ
  requests : ℤ
deriving DecidableEq, Repr

structure ComparisonOption where
  dimension : String
  value : String
deriving DecidableEq, Repr

structure ComparisonResponse where
  rows : List ComparisonRow
  options : List ComparisonOption
deriving DecidableEq, Repr

def maxComparisonBuckets : ℕ := 400

/-- 367 days, in nanoseconds. -/
def maxComparisonRange : ℤ := 367 * 86400 * 1000000000

def ComparisonFilters.compared (filters : ComparisonFilters) : ComparisonDimension → List String
  | .agent => filters.agent
  | .model => filters.model
  | .provider => filters.provider
  | .platform => filters.platform

namespace ComparisonQuery

variable (query : ComparisonQuery)

def contiguous : Bool :=
  (query.buckets.zip query.buckets.tail).all fun (bucket, next) => bucket.end_ = next.start

def boundedValues (values : List String) : Bool :=
  values.length ≤ 100 && values.all fun value => trim value ≠ "" && (utf8 value).length ≤ 4096

def validate : Except AppError Unit := do
  match query.buckets.head?, query.buckets.getLast? with
  | some first, some last =>
    if query.buckets.length > maxComparisonBuckets ∨ last.end_ - first.start > maxComparisonRange then
      throw (.validation "comparison range must not exceed 367 days or 400 buckets")
    if (query.buckets.any fun bucket => bucket.start ≥ bucket.end_) || !query.contiguous then
      throw (.validation "time buckets must be ordered, contiguous and non-empty")
    if [query.filters.agent, query.filters.model, query.filters.provider, query.filters.platform,
        query.filters.session].any fun values => !boundedValues values then
      throw (.validation "filters must contain at most 100 non-empty values of at most 4096 bytes")
    if query.groupBy.any fun dimension => !(query.filters.compared dimension).isEmpty then
      throw (.validation "a comparison dimension cannot also be a filter")
  | _, _ => throw (.validation "at least one time bucket is required")

end ComparisonQuery

end AbyssBackend
