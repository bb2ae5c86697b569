import DocTable.Table.Schema

/-!
# Table descriptions

What a service tells about a table: the kinds of its key attributes in one list, and the names of
the keys of the table and of each index in others.  A schema can be read from a description and
described again; indexes come back with the global ones first.
-/

namespace DocTable

set_option autoImplicit false

/-- A key attribute's name and the part it plays. -/
structure KeyElement where
  name : String
  role : String
  deriving DecidableEq, Repr, Inhabited

/-- An index in a description. -/
structure IndexDescription where
  name : String
  keys : List KeyElement
  deriving DecidableEq, Repr, Inhabited

/-- The description of a table. -/
structure TableDescription where
  name : String
  kinds : List (String × String)
  keys : List KeyElement
  globals : List IndexDescription
  locals : List IndexDescription
  deriving DecidableEq, Repr, Inhabited

/-- Why a description gives no schema. -/
inductive DescriptionError where
  | absent
  | undefined (name : String)
  | unknownRole (name role : String)
  | withoutHash
  | inIndex (name : String) (cause : DescriptionError)
  | inTable (name : String) (cause : DescriptionError)
  deriving DecidableEq, Repr

/-- The wording of a description error. -/
def DescriptionError.message : DescriptionError → String
  | .absent => "table description is nil"
  | .undefined name => "attribute " ++ Text.quoted name ++ " has no definition"
  | .unknownRole name role =>
    "attribute " ++ Text.quoted name ++ ": unknown key type " ++ Text.quoted role
  | .withoutHash => "key schema has no HASH element"
  | .inIndex name cause => "index " ++ Text.quoted name ++ ": " ++ cause.message
  | .inTable name cause => "table " ++ Text.quoted name ++ ": " ++ cause.message

namespace KeyElement

/-- The part of a hash key. -/
def hashRole : String := "HASH"

/-- The part of a range key. -/
def rangeRole : String := "RANGE"

/-- The elements of a hash key and a range key. -/
def ofKeys (hash range : KeyDefinition) : List KeyElement :=
  ⟨hash.name, hashRole⟩ :: if range.isDefined then [⟨range.name, rangeRole⟩] else []

/-- The hash key and the range key of elements; the last of each part counts. -/
def toKeys (kinds : Fields String) (hash range : KeyDefinition) :
    List KeyElement → Except DescriptionError (KeyDefinition × KeyDefinition)
  | [] => .ok (hash, range)
  | e :: rest => match Keyed.lookup e.name kinds with
    | none => .error (.undefined e.name)
    | some kind =>
      if e.role = hashRole then toKeys kinds ⟨e.name, kind⟩ range rest
      else if e.role = rangeRole then toKeys kinds hash ⟨e.name, kind⟩ rest
      else .error (.unknownRole e.name e.role)

/-- The keys of elements, among which there must be a hash key. -/
def toKeysWithHash (kinds : Fields String) (elements : List KeyElement) :
    Except DescriptionError (KeyDefinition × KeyDefinition) := do
  let (hash, range) ← toKeys kinds .none .none elements
  if hash.isDefined then return (hash, range) else throw .withoutHash

end KeyElement

namespace IndexDescription

/-- The index of a description. -/
def toIndex (kinds : Fields String) (kind : String) (i : IndexDescription) :
    Except DescriptionError IndexDefinition :=
  match KeyElement.toKeysWithHash kinds i.keys with
  | .ok (hash, range) => .ok ⟨i.name, kind, hash, range⟩
  | .error cause => .error (.inIndex i.name cause)

/-- The indexes of descriptions, up to the first fault. -/
def toIndexes (kinds : Fields String) (kind : String) :
    List IndexDescription → Except DescriptionError (List IndexDefinition)
  | [] => .ok []
  | i :: rest => do
    let first ← i.toIndex kinds kind
    let tail ← toIndexes kinds kind rest
    return first :: tail

/-- The description of an index. -/
def ofIndex (i : IndexDefinition) : IndexDescription :=
  ⟨i.name, KeyElement.ofKeys i.hash i.range⟩

end IndexDescription

namespace TableSchema

/-- Adds a key to the kinds unless it is undefined or there already. -/
def addKind (kinds : List (String × String)) (k : KeyDefinition) : List (String × String) :=
  if k.isDefined && !Keyed.contains k.name kinds then kinds ++ [(k.name, k.kind)] else kinds

/-- The keys of a table and then of each index. -/
def allKeys (t : TableSchema) : List KeyDefinition :=
  t.hash :: t.range :: t.indexes.flatMap fun i => [i.hash, i.range]

/-- The description of a table. -/
def description (t : TableSchema) : TableDescription where
  name := t.name
  kinds := t.allKeys.foldl addKind []
  keys := KeyElement.ofKeys t.hash t.range
  globals := (t.indexes.filter fun i => i.kind != IndexDefinition.localKind).map .ofIndex
  locals := (t.indexes.filter fun i => i.kind == IndexDefinition.localKind).map .ofIndex

/-- The schema that the parts of a description give. -/
def ofParts (d : TableDescription) : Except DescriptionError TableSchema := do
  let kinds := Keyed.ofList d.kinds
  let (hash, range) ← KeyElement.toKeysWithHash kinds d.keys
  let globals ← IndexDescription.toIndexes kinds IndexDefinition.globalKind d.globals
  let locals ← IndexDescription.toIndexes kinds IndexDefinition.localKind d.locals
  return ⟨d.name, hash, range, globals ++ locals⟩

/-- The schema of a description. -/
def ofDescription (d : TableDescription) : Except DescriptionError TableSchema :=
  match ofParts d with
  | .ok t => .ok t
  | .error cause => .error (.inTable d.name cause)

end TableSchema

end DocTable
