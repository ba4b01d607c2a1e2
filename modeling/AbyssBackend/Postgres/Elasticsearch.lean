import AbyssBackend.Postgres.Schema
import AbyssBackend.Storage.Reads

namespace AbyssBackend.Postgres

open Storage Streams

/-- An operation of a bulk request; the document indexed is the one built from the event. -/
inductive BulkOperation
  | index (event : EventRow)
  | delete (eventPk : Uuid)

def BulkOperation.documentId : BulkOperation → Uuid
  | index event => event.id
  | delete eventPk => eventPk

def BulkOperation.acceptsNotFound : BulkOperation → Bool
  | index _ => false
  | delete _ => true

/-- One item of a bulk response; its error is kept as JSON text. -/
structure BulkItem where
  status : ℕ
  error : Option String
deriving DecidableEq, Repr

/-- What comes of a bulk request: a response's items in the order sent, each of them perhaps without a result, or a
failure of the request as a whole. -/
inductive BulkReply
  | items (items : List (Option BulkItem))
  | failed (message : String)

def BulkItem.succeeded (item : BulkItem) (acceptsNotFound : Bool) : Bool :=
  (200 ≤ item.status && item.status < 300) || (acceptsNotFound && item.status == 404)

def itemResult (item : Option BulkItem) (documentId : Uuid) (acceptsNotFound : Bool) : Except String Unit :=
  match item with
  | none => .error s!"Elasticsearch omitted the bulk result for document {uuidText documentId}"
  | some item =>
    if item.succeeded acceptsNotFound then .ok ()
    else .error (s!"Elasticsearch bulk item for document {uuidText documentId} returned status {item.status}: " ++
      item.error.getD "null")

/-- Applies operations and returns one independent result per bulk item, or one error for all. -/
def applyBulk (operations : List BulkOperation) (reply : BulkReply) : Except String (List (Except String Unit)) :=
  if operations.isEmpty then .ok []
  else match reply with
  | .failed message => .error message
  | .items items =>
    if items.length ≠ operations.length then
      .error (s!"invalid Elasticsearch response: Elasticsearch bulk response returned {items.length} items for " ++
        s!"{operations.length} operations")
    else .ok (List.zipWith (fun item (operation : BulkOperation) =>
      itemResult item operation.documentId operation.acceptsNotFound) items operations)

/-- What a response answers, operation by operation in the order sent. -/
def BulkReply.answers (operations : List BulkOperation) : BulkReply → List (BulkOperation × Option BulkItem)
  | .items answered => operations.zip answered
  | .failed _ => []

end AbyssBackend.Postgres
