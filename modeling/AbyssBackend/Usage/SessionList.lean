import AbyssBackend.Integers
import AbyssBackend.Streams.Structure
import AbyssBackend.Usage.Summary

namespace AbyssBackend

open Streams

structure SessionListQuery where
  fromTime : Option DateTime
  toTime : Option DateTime
  agentName : List String
  llmProvider : List String
  llmModel : List String
  page : Option ℕ
  pageSize : Option ℕ

structure ValidatedSessionListQuery where
  fromTime : Option DateTime
  toTime : Option DateTime
  agentNames : List String
  llmProviders : List String
  llmModels : List String
  page : ℕ
  pageSize : ℕ
  offset : ℤ

def defaultSessionPageSize : ℕ := 20

def maxSessionPageSize : ℕ := 100

def SessionListQuery.validate (query : SessionListQuery) : Except AppError ValidatedSessionListQuery := do
  if query.fromTime.any fun fromTime => query.toTime.any fun toTime => fromTime ≥ toTime then
    throw (.validation "from must be earlier than to")
  let page := query.page.getD 1
  if page = 0 then throw (.validation "page must be at least 1")
  let pageSize := query.pageSize.getD defaultSessionPageSize
  if pageSize = 0 ∨ pageSize > maxSessionPageSize then throw (.validation "page_size must be between 1 and 100")
  return {
    fromTime := query.fromTime
    toTime := query.toTime
    agentNames := exactValuesFilter query.agentName
    llmProviders := exactValuesFilter query.llmProvider
    llmModels := exactValuesFilter query.llmModel
    page
    pageSize
    offset := min ((page - 1 : ℕ) * (pageSize : ℤ)) i64Max }

structure SessionListItem where
  sessionPk : Uuid
  sessionId : String
  agentName : String
  agentVersion : Option String
  hostName : String
  platform : String
  startedAt : DateTime
  endedAt : Option DateTime
  lastActivityAt : DateTime
  turns : ℕ
  events : ℤ
  totalTokens : ℤ
  title : Option EntryLabel
  purpose : Option String
deriving DecidableEq, Repr

structure SessionListResponse where
  totalSessions : ℤ
  page : ℕ
  pageSize : ℕ
  hasMore : Bool
  items : List SessionListItem
deriving DecidableEq, Repr

def SessionListResponse.new (query : ValidatedSessionListQuery) (totalSessions : ℤ) (items : List SessionListItem) :
    SessionListResponse where
  totalSessions
  page := query.page
  pageSize := query.pageSize
  hasMore := saturatingAdd query.offset (items.length : ℤ) < totalSessions
  items

end AbyssBackend
