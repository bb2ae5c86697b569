import DocTable.Fields
import DocTable.Text.Base64
import DocTable.Yaml.Shape

/-!
# What nodes hold

Loading nodes into shapes.  A mapping must not repeat a key as it is written, and a record must not
get a field twice.  A merge mark among the keys of a mapping adds the pairs of the mappings that it
names, as far as their keys are not there yet.

A merge compares keys as values: those of the mapping itself as whatever stands there, those of the
merged mappings in the shape they are loaded into.  So the number one and the text `1` are two keys.
-/

namespace DocTable.Yaml

set_option autoImplicit false

/-! ## Keys -/

/-- A number for the kind of a node, by which keys are told apart. -/
def Node.kindNumber : Node → Nat
  | .scalar _ _ _ _ => 0
  | .sequence _ _ _ => 1
  | .mapping _ _ _ => 2
  | .alias _ _ _ => 3
  | .enclosing _ _ _ => 3

/-- Whether two keys are the same as written. -/
def Node.sameKey (a b : Node) : Bool := a.kindNumber == b.kindNumber && a.text == b.text

/-- Whether some key of a mapping is written twice. -/
def repeatsKey : List (Node × Node) → Bool
  | [] => false
  | (key, _) :: rest => (rest.any fun pair => key.sameKey pair.1) || repeatsKey rest

/-- Whether a key is the mark of a merge. -/
def Node.isMerge : Node → Bool
  | .scalar _ tag _ text => text == "<<" && (tag == "" || tag == StandardTag.merge.short)
  | _ => false

/-- Whether a node is a mapping. -/
def Node.isMapping : Node → Bool
  | .mapping _ _ _ => true
  | _ => false

/-- Whether every key of a mapping is text. -/
def hasTextKeys (pairs : List (Node × Node)) : Bool :=
  pairs.all fun pair =>
    pair.1.shortTag == StandardTag.str.short || pair.1.shortTag == StandardTag.merge.short

/-- Whether a value is a collection, which can be no key. -/
def isCollection : Value → Bool
  | .map _ => true
  | .keyedMap _ => true
  | .list _ => true
  | _ => false

/-- Whether two keys are the same value. -/
def sameKeyValue : Value → Value → Bool
  | .null, .null => true
  | .bool a, .bool b => a == b
  | .text a, .text b => a == b
  | .raw a, .raw b => a == b
  | .integer s a, .integer t b => s == t && a == b
  | .double a, .double b => a.sameNumber b
  | .instant a, .instant b => a.zone == 0 && a == b
  | _, _ => false

/-- Gives a key a value among entries, in place of the one it may have. -/
def setEntry (key value : Value) : List (Value × Value) → List (Value × Value)
  | [] => [(key, value)]
  | (k, v) :: rest =>
    if sameKeyValue k key then (k, value) :: rest else (k, v) :: setEntry key value rest

/-! ## Scalars -/

/-- What a scalar means in a shape. -/
inductive ScalarContent where
  | null
  | value (content : Value)
  | misfit

/-- The text of a binary scalar, or its octets if they are no text. -/
def binaryText (text : String) : Except Fault (Except Text.Raw String) :=
  match Text.Base64.decode? text with
  | some bytes => .ok (Text.read bytes)
  | none => .error .malformedBinary

/-- A meaning as a dynamic value; null has none. -/
def Meaning.dynamic? (text : String) : Meaning → Option Value
  | .null => none
  | .bool value => some (.bool value)
  | .int value => some (.integer (if value < 0x8000000000000000 then .int else .uint64) value)
  | .float value => some (.double value)
  | .timestamp instant => some (.instant instant)
  | .merge => some (.text text)
  | .text value => some (.text value)

/-- The truth value of a meaning, which may also be one of some words. -/
def Meaning.bool? : Meaning → Option Bool
  | .bool value => some value
  | .text t =>
    if ["y", "Y", "yes", "Yes", "YES", "on", "On", "ON"].contains t then some true
    else if ["n", "N", "no", "No", "NO", "off", "Off", "OFF"].contains t then some false
    else none
  | _ => none

/-- What a scalar with a meaning holds in a shape; as a text every scalar is its own writing. -/
def Meaning.inShape (text : String) (shape : Shape) (meaning : Meaning) : ScalarContent :=
  match meaning.dynamic? text with
  | none => .null
  | some value => match shape with
    | .text => .value (.text text)
    | .dynamic => .value value
    | .bool => match meaning.bool? with
      | some b => .value (.bool b)
      | none => .misfit
    | _ => .misfit

/-- What octets that are no text hold in a shape.  A name or a key is a text, so there they are
spelled. -/
def rawInShape (raw : Text.Raw) : Shape → ScalarContent
  | .text => .value (.text raw.spelled)
  | .dynamic => .value (.raw raw)
  | _ => .misfit

/-- What a scalar holds in a shape. -/
def scalarContent (tag : String) (plain : Bool) (text : String) (shape : Shape) :
    Except Fault ScalarContent :=
  if tag = StandardTag.binary.short then do
    match ← binaryText text with
    | .ok decoded => return (Meaning.text decoded).inShape decoded shape
    | .error raw => return rawInShape raw shape
  else do
    let meaning ← Node.meaning tag plain text
    return meaning.inShape text shape

/-- What null leaves behind in a shape: nothing at all in a text, a truth value or a record. -/
def nullIn : Shape → Option Value
  | .text => none
  | .bool => none
  | .record _ => none
  | _ => some .null

/-! ## Collections -/

/-- A record of a document: a key and a value. -/
def fieldShape : Shape := .record [("key", .text), ("value", .dynamic)]

/-- The fields that a document has from listed records. -/
def fieldsOf : List Value → List (String × Value)
  | [] => []
  | .map fields :: rest =>
    let key := match Keyed.lookup "key" fields with
      | some (.text key) => key
      | _ => ""
    (key, (Keyed.lookup "value" fields).getD .null) :: fieldsOf rest
  | _ :: rest => fieldsOf rest

/-- A mapping being loaded: the pairs so far, the fields of a record that were given, the keys that
must not be set again, and the node that the last merge mark names. -/
structure Pairing where
  content : Value
  given : List String := []
  settled? : Option (List Value)
  merge? : Option Node := none

/-- Whether a key is already settled, and the keys that are settled after it. -/
def Pairing.settle (p : Pairing) (key : Value) : Bool × Pairing :=
  match p.settled? with
  | none => (false, p)
  | some keys =>
    if keys.any (sameKeyValue key) then (true, p)
    else (false, { p with settled? := some (key :: keys) })

/-- Sets a pair of a map or a record. -/
def Pairing.set (p : Pairing) (key value : Value) : Pairing :=
  match p.content, key with
  | .keyedMap entries, _ => { p with content := .keyedMap (setEntry key value entries) }
  | .map fields, .text name => { p with content := .map (Keyed.insert name value fields) }
  | _, .text name => { p with content := .map [(name, value)] }
  | _, _ => p

section

variable {ε : Type} (caller : Caller ε) (anchors : List Anchor)

/-- How a node is loaded into a shape on top of what is there. -/
abbrev Loader (ε : Type) := Shape → Value → Node → Load ε (Option Value)

/-- Loads one pair of a record. -/
def recordPair (load : Loader ε) (fields : List (String × Shape)) (p : Pairing)
    (pair : Node × Node) : Load ε Pairing := do
  if pair.1.isMerge then return { p with merge? := some pair.2 }
  else match ← load .text .null pair.1 with
    | some (.text name) =>
      let (known, p) := p.settle (.text name)
      if known then return p
      else match Keyed.lookup name fields with
        | none => return p
        | some shape =>
          if p.given.contains name then
            let _ ← (Load.misfit : Load ε (Option Value))
            return p
          else
            let p := { p with given := name :: p.given }
            match ← load shape .null pair.2 with
            | some value => return p.set (.text name) value
            | none => return p
    | _ => return p

/-- Loads one pair of a map with keys of a shape. -/
def mapPair (load : Loader ε) (keys : Shape) (p : Pairing) (pair : Node × Node) :
    Load ε Pairing := do
  if pair.1.isMerge then return { p with merge? := some pair.2 }
  else match ← load keys .null pair.1 with
    | none => return p
    | some key =>
      if p.settled?.isSome && isCollection key then throw (caller.fault .collectionBesideMerge)
      else
        let (known, p) := p.settle key
        if known then return p
        else if isCollection key then throw (caller.fault .malformedKey)
        else match ← load .dynamic .null pair.2 with
          | some value => return p.set key value
          | none => return p

/-- Notes the keys of a mapping as settled before its first merge. -/
def settleKeys (load : Loader ε) (pairs : List (Node × Node)) : Load ε Unit := do
  modify fun s => { s with settled? := some [] }
  for pair in pairs do
    match ← load .dynamic .null pair.1 with
    | none => pure ()
    | some key =>
      if isCollection key then throw (caller.fault .collectionBesideMerge)
      else modify fun s => { s with settled? := s.settled?.map (key :: ·) }

/-- Whether a node is a mapping, through an alias if need be. -/
def isMergeable (anchors : List Anchor) : Node → Bool
  | .mapping _ _ _ => true
  | .alias _ _ target => target.isMapping
  | .enclosing _ _ number =>
    ((anchors.find? fun a => a.number = number).bind Anchor.node?).any Node.isMapping
  | _ => false

/-- Loads the mappings that a merge names on top of what is there. -/
def mergeSources (load : Loader ε) (shape : Shape) (content : Value) :
    List Node → Load ε Value
  | [] => return content
  | source :: rest =>
    if isMergeable anchors source then do
      let merged ← load shape content source
      mergeSources load shape (merged.getD content) rest
    else throw (caller.fault .mergeWithoutMap)

/-- Carries out the merge of a mapping. -/
def merge (load : Loader ε) (shape : Shape) (pairs : List (Node × Node)) (source : Node)
    (content : Value) : Load ε Value := do
  let outer := (← get).settled?
  if outer.isNone then settleKeys caller load pairs
  let sources := match source with
    | .sequence _ _ items => items
    | node => [node]
  let content ← mergeSources caller anchors load shape content sources
  if outer.isNone then modify fun s => { s with settled? := none }
  return content

/-- Loads the pairs of a mapping on top of what is there, then its merge. -/
def loadPairs (load : Loader ε) (shape : Shape)
    (step : Pairing → Node × Node → Load ε Pairing) (content : Value)
    (pairs : List (Node × Node)) : Load ε (Option Value) := do
  let settled? := (← get).settled?
  modify fun s => { s with settled? := none }
  let p ← pairs.foldlM step { content := content, settled? := settled? }
  modify fun s => { s with settled? := p.settled? }
  match p.merge? with
  | none => return some p.content
  | some source =>
    let merged ← merge caller anchors load shape pairs source p.content
    return some merged

/-- Loads the pairs of a mapping into a shape on top of what is there. -/
def loadMapping (load : Loader ε) (shape : Shape) (base : Value) (pairs : List (Node × Node)) :
    Load ε (Option Value) :=
  let fields (v : Value) : Value := match v with
    | .map fields => .map fields
    | _ => .map []
  let entries (v : Value) : Value := match v with
    | .keyedMap entries => .keyedMap entries
    | _ => .keyedMap []
  match shape with
  | .record known =>
    loadPairs caller anchors load shape (recordPair load known) (fields base) pairs
  | .map => loadPairs caller anchors load .map (mapPair caller load .text) (fields base) pairs
  | .keyedMap =>
    loadPairs caller anchors load .keyedMap (mapPair caller load .dynamic) (entries base) pairs
  | .dynamic =>
    if hasTextKeys pairs then
      loadPairs caller anchors load .map (mapPair caller load .text) (.map []) pairs
    else
      loadPairs caller anchors load .keyedMap (mapPair caller load .dynamic) (.keyedMap []) pairs
  | _ => Load.misfit

/-- Loads the items of a list; those that hold nothing are left out. -/
def loadItems (load : Loader ε) (shape : Shape) : List Node → Load ε (List Value)
  | [] => return []
  | node :: rest => do
    let first ← load shape .null node
    let tail ← loadItems load shape rest
    return first.toList ++ tail

/-- Loads a node that is no alias. -/
def loadNode (load : Loader ε) (shape : Shape) (base : Value) (node : Node) :
    Load ε (Option Value) :=
  match node with
  | .scalar _ tag plain text => do
    match ← Load.orFault caller (scalarContent tag plain text shape) with
    | .null => return nullIn shape
    | .value content => return some content
    | .misfit => Load.misfit
  | .sequence _ _ items => match shape with
    | .list item => do
      let values ← loadItems load item items
      return some (.list values)
    | .dynamic => do
      let values ← loadItems load .dynamic items
      return some (.list values)
    | .document => do
      let records ← loadItems load fieldShape items
      return some (.document (fieldsOf records))
    | _ => Load.misfit
  | .mapping _ _ pairs =>
    if repeatsKey pairs then Load.misfit else loadMapping caller anchors load shape base pairs
  | _ => Load.misfit

/-- Loads a node into a shape on top of what is there; nothing is left behind by a node that does
not fit.  Only the tag of null keeps a node from being read as a document or in place of nothing. -/
def load : Nat → Shape → Value → Node → Load ε (Option Value)
  | 0, _, _, _ => throw (caller.fault .nestedTooDeeply)
  | fuel + 1, shape, base, node => do
    Load.count caller
    match node with
    | .alias _ _ target => Load.insideAlias (load fuel shape base target)
    | .enclosing _ name number =>
      match shape, (anchors.find? fun a => a.number = number).bind Anchor.node? with
      | .dynamic, _ => throw (caller.fault (.containsItself name))
      | _, some target => Load.insideAlias (load fuel shape base target)
      | _, none => throw (caller.fault (.unknownAnchor name))
    | _ =>
      let null := node.shortTag = StandardTag.null.short
      match shape with
      | .optional inner =>
        if null then loadNode caller anchors (load fuel) shape base node
        else loadNode caller anchors (load fuel) inner base node
      | .document =>
        if null then loadNode caller anchors (load fuel) shape base node
        else match caller.document node with
          | .ok d => return some d
          | .error e => throw e
      | _ => loadNode caller anchors (load fuel) shape base node

end

/-- Loads the first document of a text into a shape; null if it has none. -/
def loadText {ε : Type} (caller : Caller ε) (shape : Shape) (text : String) : Except ε Value :=
  match read text with
  | .error fault => .error (caller.fault fault)
  | .ok none => .ok .null
  | .ok (some tree) =>
    let fuel := 8 * text.length + 64
    match (load caller tree.anchors fuel shape .null tree.root).run {} with
    | .error e => .error e
    | .ok (content?, state) =>
      if state.fits then .ok (content?.getD .null) else .error (caller.fault .mismatch)

/-- A caller that asks for no document. -/
def plainCaller : Caller Fault := ⟨id, fun _ => .error .mismatch⟩

/-! ## Loaded records -/

/-- The field of a loaded record. -/
def field? (name : String) : Value → Option Value
  | .map fields => Keyed.lookup name fields
  | _ => none

/-- The text of a field, empty if it is missing. -/
def textField (name : String) (v : Value) : String :=
  match field? name v with
  | some (.text t) => t
  | _ => ""

/-- The truth value of a field, false if it is missing. -/
def boolField (name : String) (v : Value) : Bool :=
  match field? name v with
  | some (.bool b) => b
  | _ => false

/-- The items of a field, none if it is missing or null. -/
def listField? (name : String) (v : Value) : Option (List Value) :=
  match field? name v with
  | some (.list items) => some items
  | _ => none

/-- The record in a field; an empty one if it is missing. -/
def recordField (name : String) (v : Value) : Value := (field? name v).getD .null

end DocTable.Yaml
