import DocTable.Client.Basic

/-!
# Writing through a client

An item that lacks the hash key of its table gets a fresh identifier for it, if the key is a text.
An update with directives changes single attributes, any other update replaces the whole item.
-/

namespace DocTable.TableClient

set_option autoImplicit false

/-- Sends a writing request to the store of a session, and reads the item that its answer selects. -/
def write (t : TableClient) (s : Session) (p : Prepared)
    (perform : Store → TypedRequest → Except StoreError (Store × ItemOutput))
    (select : ItemOutput → Option Item) : Session × Except ClientError (Option (Fields Value)) :=
  let s := s.note (t.dispatch p.operation.name
    [("condition", Params.text p.request "ConditionExpression"),
      ("update", Params.text p.request "UpdateExpression")])
  match perform s.store p.input with
  | .error cause => (s, .error (.store p.operation cause))
  | .ok (store, output) => ({ s with store := store }, decoded (select output))

/-- The item with a fresh identifier, if it lacks a hash key that is a text. -/
def identified (t : TableClient) (s : Session) (item : Document) : Session × Document :=
  if !item.has t.schema.hash.name && t.schema.hash.kind = "S" then
    let (s, identifier) := s.draw
    (s, item.prepend t.schema.hash.name (.text identifier))
  else (s, item)

/-- Stores an item and answers with it. -/
def put (t : TableClient) (s : Session) (item : Document) (options : List RequestOption) :
    Session × Except ClientError (Option (Fields Value)) :=
  let (s, item) := t.identified s item
  match t.prepare .insert item [] options with
  | .error e => (s, .error e)
  | .ok p => t.write s p Store.put fun _ => Params.attributes? p.request "Item"

/-- Changes or replaces the item that a filter addresses. -/
def update (t : TableClient) (s : Session) (filter update : Document)
    (options : List RequestOption) : Session × Except ClientError (Option (Fields Value)) :=
  if !update.isEmpty && !update.hasDirectives then
    match t.prepare .replace filter update options with
    | .error e => (s, .error e)
    | .ok p => t.write s p Store.put ItemOutput.item?
  else
    match t.prepare .update filter update options with
    | .error e => (s, .error e)
    | .ok p => t.write s p Store.update ItemOutput.item?

/-- Takes away the item that a filter addresses. -/
def delete (t : TableClient) (s : Session) (filter : Document) (options : List RequestOption) :
    Session × Except ClientError (Option (Fields Value)) :=
  match t.prepare .delete filter [] options with
  | .error e => (s, .error e)
  | .ok p => t.write s p Store.delete ItemOutput.item?

end DocTable.TableClient
