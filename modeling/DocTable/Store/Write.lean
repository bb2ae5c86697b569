import DocTable.Expression.Apply
import DocTable.Expression.Condition
import DocTable.Store.Basic

/-!
# Writing

Putting, updating and deleting single items.  Each operation answers with a new store, and fails
without one: nothing is changed then.  A condition is evaluated on the item as it was; for a missing
item it is evaluated on an item without attributes.
-/

namespace DocTable.Store

set_option autoImplicit false

/-- What no storage key may start with. -/
def reservedStart : Bytes := Text.utf8 "!badger!"

/-- The stored form of an item. -/
def pack (item : Item) : Except StoreError StoredItem :=
  item.stored.mapError fun bad => .unsupported bad.1 bad.2.typeName

/-- Accepts a request whose condition holds of an item. -/
def checkCondition (r : TypedRequest) (old : Item) : Except StoreError Unit :=
  match Condition.eval r.condition? r.context old with
  | .error cause => .error (.condition cause)
  | .ok true => .ok ()
  | .ok false => .error .conditionFailed

/-- Keeps a stored item at a key. -/
def save (s : Store) (place : Bytes) (item : StoredItem) : Except StoreError Store :=
  if reservedStart.isPrefixOf place then .error .reservedKey
  else .ok { s with entries := Keyed.insert place item s.entries }

/-- Creates an item, or replaces the one with its key. -/
def put (s : Store) (r : TypedRequest) : Except StoreError (Store × ItemOutput) :=
  match r.item? with
  | none => .error .missingItem
  | some item => do
    let t ← s.table r.tableName?
    match t.extractKey item with
    | .error cause => throw (.invalidItem cause)
    | .ok _ => match t.storageKey item with
      | .error cause => throw (.key cause)
      | .ok place => do
        let stored ← pack item
        let old? := s.load place
        checkCondition r (old?.getD [])
        let s ← s.save place stored
        return (s, ⟨if r.returnValues = "ALL_OLD" then old? else none, r.capacity? t⟩)

/-- The first key attribute that actions would change. -/
def changedKey? (key : Item) (actions : List UpdateAction) : Option String :=
  actions.findSome? fun a => match a.path with
    | [name] => if Keyed.contains name key then some name else none
    | _ => none

/-- The attributes that an update answers with. -/
def updateAnswer (mode : String) (actions : List UpdateAction) (old? : Option Item) (new : Item) :
    Option Item :=
  let touched (item : Item) : Option Item :=
    let found := UpdateAction.touched actions item
    if found.isEmpty then none else some found
  if mode = "ALL_OLD" then old?
  else if mode = "ALL_NEW" then some new
  else if mode = "UPDATED_OLD" then old?.bind touched
  else if mode = "UPDATED_NEW" then touched new
  else none

/-- Changes an item by an update, or a new item that has only its key. -/
def update (s : Store) (r : TypedRequest) : Except StoreError (Store × ItemOutput) :=
  match r.update? with
  | none => .error .missingUpdate
  | some text => do
    let t ← s.table r.tableName?
    let (key, place) ← address t r
    match UpdateAction.parse text r.context with
    | .error cause => throw (.update cause)
    | .ok actions => match changedKey? key actions with
      | some name => throw (.keyAttribute name)
      | none => do
        let old? := s.load place
        checkCondition r (old?.getD [])
        match UpdateAction.apply actions (old?.getD key) with
        | .error cause => throw (.action cause)
        | .ok new => do
          let stored ← pack new
          let s ← s.save place stored
          return (s, ⟨updateAnswer r.returnValues actions old? new, r.capacity? t⟩)

/-- Takes an item away; a missing item is no failure. -/
def delete (s : Store) (r : TypedRequest) : Except StoreError (Store × ItemOutput) := do
  let t ← s.table r.tableName?
  let (_, place) ← address t r
  let old? := s.load place
  checkCondition r (old?.getD [])
  let s := { s with entries := Keyed.erase place s.entries }
  return (s, ⟨if r.returnValues = "ALL_OLD" then old? else none, r.capacity? t⟩)

end DocTable.Store
