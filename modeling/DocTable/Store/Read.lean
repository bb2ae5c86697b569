import DocTable.Expression.Condition
import DocTable.Expression.Projection
import DocTable.Sorting
import DocTable.Store.Basic

/-!
# Reading

Getting one item, querying the items of a partition or an index, and scanning a table.  A query of
the table reads one partition in the order of the range key; a query of an index reads the items that
have the index's keys and sorts them by its range key.

Results come in pages: the reading goes on after a start key, and a limit on the number of matching
items ends it with the key to go on from.
-/

namespace DocTable.Store

set_option autoImplicit false

/-- Reads one item. -/
def get (s : Store) (r : TypedRequest) : Except StoreError ItemOutput := do
  let t ← s.table r.tableName?
  let (_, place) ← address t r
  match s.load place with
  | none => return ⟨none, r.capacity? t⟩
  | some item => match item.project r.projection? ⟨r.names?.getD [], []⟩ with
    | .error cause => throw (.projection cause)
    | .ok shown => return ⟨some shown, r.capacity? t⟩

/-! ## Candidates -/

/-- The items whose keys start with given octets, in the order of their keys. -/
def collect (s : Store) (start : Bytes) : List Item :=
  (s.entries.filter fun entry => start.isPrefixOf entry.1).filterMap fun entry => entry.2.item?

/-- Whether an item has the keys of an index. -/
def hasIndexKey (i : IndexDefinition) (item : Item) : Bool :=
  match i.extractKey item with
  | .ok _ => true
  | .error _ => false

/-- The index that a request names, if it names one. -/
def index? (t : TableSchema) (r : TypedRequest) : Except StoreError (Option IndexDefinition) :=
  match r.indexName? with
  | none => .ok none
  | some name => match t.index? name with
    | some i => .ok (some i)
    | none => .error (.indexNotFound t.name name)

/-- Whether one item comes before another by an attribute. -/
def precedes (name : String) (a b : Item) : Bool :=
  match Keyed.lookup name a, Keyed.lookup name b with
  | some x, some y => x.compare? y == some .lt
  | _, _ => false

/-- Items by an attribute; those that are not ordered keep their places as far as the sorting leaves
them there. -/
def sortBy (name : String) (items : List Item) : List Item := Sorting.sort (precedes name) items

/-! ## Pages -/

/-- Whether an item has the table's key. -/
def hasKey (t : TableSchema) (key item : Item) : Bool :=
  t.keys.all fun k =>
    (TableSchema.keyAttribute item k).equal (TableSchema.keyAttribute key k)

/-- The items after the first with a key, if there is one. -/
def after? (t : TableSchema) (key : Item) : List Item → Option (List Item)
  | [] => none
  | item :: rest => if hasKey t key item then some rest else after? t key rest

/-- The key to go on from after an item: the table's and, for an index, the index's. -/
def lastKey (t : TableSchema) (i? : Option IndexDefinition) (item : Item) : Item :=
  let key := (t.extractKey item).toOption.getD []
  match i? with
  | none => key
  | some i => match i.extractKey item with
    | .ok more => Keyed.insertAll key more
    | .error _ => key

/-- A page in the making. -/
structure Page where
  items : List Item
  count : Nat
  scanned : Nat
  lastKey? : Option Item
  deriving Repr

/-- How a page is read. -/
structure PageRule where
  table : TableSchema
  index? : Option IndexDefinition
  filter : List Comparison
  projection? : Option String
  context : Context
  limit? : Option Int
  countOnly : Bool

/-- Whether a count of matching items has reached the limit. -/
def PageRule.isFull (rule : PageRule) (count : Nat) : Bool :=
  match rule.limit? with
  | none => false
  | some limit => limit ≤ (count : Int)

/-- Puts a matching item on a page; a page that only counts keeps no items. -/
def visit (rule : PageRule) (page : Page) (item : Item) : Except StoreError Page :=
  if rule.countOnly then .ok { page with count := page.count + 1 }
  else match item.project rule.projection? rule.context with
    | .error cause => .error (.projection cause)
    | .ok shown => .ok { page with count := page.count + 1, items := page.items ++ [shown] }

/-- Reads items onto a page until the limit is reached and others follow. -/
def readItems (rule : PageRule) (page : Page) : List Item → Except StoreError Page
  | [] => .ok page
  | item :: rest =>
    let page := { page with scanned := page.scanned + 1 }
    if Condition.allHold rule.filter item then
      match visit rule page item with
      | .error e => .error e
      | .ok page =>
        if rule.isFull page.count && !rest.isEmpty then
          .ok { page with lastKey? := some (lastKey rule.table rule.index? item) }
        else readItems rule page rest
    else readItems rule page rest

/-- Reads a page of items. -/
def readPage (t : TableSchema) (i? : Option IndexDefinition) (r : TypedRequest)
    (items : List Item) : Except StoreError PageOutput := do
  let items ← match r.exclusiveStartKey?.getD [] with
    | [] => pure items
    | key => match after? t key items with
      | some rest => pure rest
      | none => throw .startKeyNotFound
  match Condition.parse (r.filter?.getD "") r.context with
  | .error cause => throw (.filter cause)
  | .ok filter => do
    let rule : PageRule :=
      ⟨t, i?, filter, r.projection?, r.context, r.limit?, r.select == "COUNT"⟩
    let page ← readItems rule ⟨[], 0, 0, none⟩ items
    return ⟨page.items, page.count, page.scanned, page.lastKey?, r.capacity? t⟩

/-! ## Queries and scans -/

/-- The value that a key condition asks the hash key to have. -/
def hashValue (hash : KeyDefinition) : List Comparison → Except StoreError AttributeValue
  | [] => .error (.withoutHashEquality hash.name)
  | t :: rest =>
    if t.path = [hash.name] ∧ t.comparator = .eq then
      match hash.check t.value with
      | .ok () => .ok t.value
      | .error cause => .error (.hashValue cause)
    else hashValue hash rest

/-- The items that a query of the table or of an index considers, in order. -/
def candidates (s : Store) (t : TableSchema) (i? : Option IndexDefinition)
    (hash : AttributeValue) : Except StoreError (List Item) :=
  match i? with
  | none => match t.partitionStart hash with
    | .error cause => .error (.partition cause)
    | .ok start => .ok (s.collect start)
  | some i =>
    let items := (s.collect t.keyStart).filter (hasIndexKey i)
    .ok (if i.range.isDefined then sortBy i.range.name items else items)

/-- Reads the items of one partition of the table or of an index. -/
def query (s : Store) (r : TypedRequest) : Except StoreError PageOutput :=
  match r.keyCondition? with
  | none => .error .missingKeyCondition
  | some text => do
    let t ← s.table r.tableName?
    let i? ← index? t r
    match Condition.parse text r.context with
    | .error cause => throw (.keyCondition cause)
    | .ok terms => do
      let hashKey := match i? with
        | some i => i.hash
        | none => t.hash
      let hash ← hashValue hashKey terms
      let items ← s.candidates t i? hash
      let items := items.filter (Condition.allHold terms)
      let items := if r.scanIndexForward? = some false then items.reverse else items
      readPage t i? r items

/-- Reads the items of a table, or those that have the keys of an index. -/
def scan (s : Store) (r : TypedRequest) : Except StoreError PageOutput := do
  let t ← s.table r.tableName?
  let i? ← index? t r
  let items := s.collect t.keyStart
  let items := match i? with
    | some i => items.filter (hasIndexKey i)
    | none => items
  readPage t i? r items

end DocTable.Store
