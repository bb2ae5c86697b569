import DocTable.Attribute.Encode
import DocTable.Text.Blank

/-!
# Request parameters

The parameters of a request by name.  Two of them hold placeholders: the names and the values of
expressions.  Merging parameters replaces all others and joins these two.  A file gives the
placeholders as plain maps, which `Params.normalize` turns into typed ones.

An option sets parameters for one request.  A projection gives each different name on its paths an
alias, numbered in the order in which the names first occur.
-/

namespace DocTable

set_option autoImplicit false

/-- The parameters of a request. -/
abbrev Params := Fields Value

namespace Params

/-- The parameter with the names of placeholders. -/
def namesKey : String := "ExpressionAttributeNames"

/-- The parameter with the values of placeholders. -/
def valuesKey : String := "ExpressionAttributeValues"

/-! ## Merging -/

/-- The value of a parameter that is set on top of another value. -/
def combine (key : String) (below above : Value) : Value :=
  match below, above with
  | .textMap a, .textMap b => if key = namesKey then .textMap (Keyed.insertAll a b) else above
  | .attributes (some a), .attributes (some b) =>
    if key = valuesKey then .attributes (some (Keyed.insertAll a b)) else above
  | .attributes none, .attributes (some []) => if key = valuesKey then below else above
  | .attributes (some a), .attributes none =>
    if key = valuesKey then .attributes (some a) else above
  | _, _ => above

/-- Sets a parameter on top of others. -/
def set (p : Params) (key : String) (value : Value) : Params :=
  match Keyed.lookup key p with
  | some below => Keyed.insert key (combine key below value) p
  | none => Keyed.insert key value p

/-- Sets parameters on top of others. -/
def merge (p other : Params) : Params :=
  other.foldl (fun p entry => p.set entry.1 entry.2) p

/-! ## Placeholders -/

/-- Why parameters have no typed placeholders. -/
inductive Fault where
  | name (token typeName : String)
  | names (typeName : String)
  | value (token : String) (cause : EncodeError)
  | values (typeName : String)
  deriving Repr

/-- The wording of a fault. -/
def Fault.message : Fault → String
  | .name token typeName =>
    namesKey ++ " " ++ Text.quoted token ++ ": expected a string, got " ++ typeName
  | .names typeName => namesKey ++ ": unsupported type " ++ typeName
  | .value token cause => valuesKey ++ " " ++ Text.quoted token ++ ": " ++ cause.message
  | .values typeName => valuesKey ++ ": unsupported type " ++ typeName

/-- The names of a plain map. -/
def typedNames : List (String × Value) → Except Fault (Fields String)
  | [] => .ok []
  | (token, value) :: rest => match value.text? with
    | some name => do
      let tail ← typedNames rest
      return (token, name) :: tail
    | none => .error (.name token value.typeName)

/-- The values of a plain map. -/
def typedValues : List (String × Value) → Except Fault (Fields AttributeValue)
  | [] => .ok []
  | (token, value) :: rest => do
    let first ← match value with
      | .attributeValue v => .ok v
      | other => match other.encode with
        | .ok v => .ok v
        | .error cause => .error (.value token cause)
    let tail ← typedValues rest
    return (token, first) :: tail

/-- Types the names of placeholders. -/
def normalizeNames (p : Params) : Except Fault Params :=
  match Keyed.lookup namesKey p with
  | none | some .null | some (.textMap _) => .ok p
  | some (.map fields) => do
    let names ← typedNames fields
    return Keyed.insert namesKey (.textMap names) p
  | some other => .error (.names other.typeName)

/-- Types the values of placeholders. -/
def normalizeValues (p : Params) : Except Fault Params :=
  match Keyed.lookup valuesKey p with
  | none | some .null | some (.attributes _) => .ok p
  | some (.map fields) => do
    let values ← typedValues fields
    return Keyed.insert valuesKey (.attributes (some values)) p
  | some other => .error (.values other.typeName)

/-- Types the placeholders. -/
def normalize (p : Params) : Except Fault Params := do
  let p ← p.normalizeNames
  p.normalizeValues

/-- The typed names of placeholders, empty if there are none. -/
def names (p : Params) : Fields String :=
  match Keyed.lookup namesKey p with
  | some (.textMap names) => names
  | _ => []

/-- The typed values of placeholders, empty if there are none. -/
def values (p : Params) : Fields AttributeValue :=
  match Keyed.lookup valuesKey p with
  | some (.attributes (some values)) => values
  | _ => []

/-- The text of a parameter, empty if it is none. -/
def text (p : Params) (key : String) : String := ((Keyed.lookup key p).bind Value.text?).getD ""

/-- The attributes of a parameter, if it has any. -/
def attributes? (p : Params) (key : String) : Option Item :=
  match Keyed.lookup key p with
  | some (.attributes item?) => item?
  | _ => none

end Params

/-! ## Projections -/

/-- Why a projection cannot be written. -/
inductive ProjectionError where
  | empty
  | unsetName
  | invalidName
  deriving DecidableEq, Repr

/-- The wording of a projection error. -/
def ProjectionError.message : ProjectionError → String
  | .empty => "projection needs at least one attribute"
  | .unsetName => "build projection: BuildOperand error: unset parameter: NameBuilder"
  | .invalidName => "build projection: BuildOperand error: invalid parameter: NameBuilder"

namespace Aliases

/-- The alias of a number. -/
def token (n : Nat) : String := "#" ++ toString n

/-- A step of a path without its index in brackets, and that index. -/
def splitStep (step : List Char) : Except ProjectionError (List Char × List Char) :=
  match step.getLast? with
  | none => .error .invalidName
  | some last =>
    let upToBracket := step.takeWhile (· != ']')
    if upToBracket.length + 1 < step.length then .error .invalidName
    else if last = ']' then
      let name := step.takeWhile (· != '[')
      if name.isEmpty then .error .invalidName else .ok (name, step.dropWhile (· != '['))
    else .ok (step, [])

/-- The alias of a name among the names so far, which it joins if it is new. -/
def find (names : List String) (name : String) : List String × String :=
  if names.contains name then (names, token (names.idxOf name))
  else (names ++ [name], token names.length)

/-- The steps of a path by their aliases. -/
def steps (names : List String) :
    List (List Char) → Except ProjectionError (List String × List String)
  | [] => .ok (names, [])
  | step :: rest => do
    let (name, index) ← splitStep step
    let (names, found) := find names (String.ofList name)
    let (names, tail) ← steps names rest
    return (names, (found ++ String.ofList index) :: tail)

/-- Paths by the aliases of their steps. -/
def paths (names : List String) :
    List String → Except ProjectionError (List String × List String)
  | [] => .ok (names, [])
  | path :: rest =>
    if path = "" then .error .unsetName
    else do
      let (names, found) ← steps names (Text.splitChars '.' path.toList)
      let (names, tail) ← paths names rest
      return (names, ".".intercalate found :: tail)

/-- The aliases of numbered names. -/
def numbered (start : Nat) : List String → List (String × String)
  | [] => []
  | name :: rest => (token start, name) :: numbered (start + 1) rest

end Aliases

/-- The expression of a projection, and the names of its aliases. -/
def projectionExpression (attributes : List String) :
    Except ProjectionError (String × Fields String) :=
  if attributes.isEmpty then .error .empty
  else do
    let (names, paths) ← Aliases.paths [] attributes
    return (", ".intercalate paths, Keyed.ofList (Aliases.numbered 0 names))

/-! ## Options -/

/-- What a caller asks for with one request. -/
inductive RequestOption where
  | limit (n : Int)
  | consistentRead (value : Bool)
  | scanIndexForward (value : Bool)
  | returnValues (value : String)
  | returnConsumedCapacity (value : String)
  | indexName (name : String)
  | exclusiveStartKey (key : Option Item)
  | projection (attributes : List String)
  | params (p : Params)
  deriving Repr

namespace RequestOption

/-- Sets the parameters of an option. -/
def apply (p : Params) : RequestOption → Except ProjectionError Params
  | .limit n => .ok (Keyed.insert "Limit" (.integer .int32 n) p)
  | .consistentRead value => .ok (Keyed.insert "ConsistentRead" (.bool value) p)
  | .scanIndexForward value => .ok (Keyed.insert "ScanIndexForward" (.bool value) p)
  | .returnValues value => .ok (Keyed.insert "ReturnValues" (.text value) p)
  | .returnConsumedCapacity value => .ok (Keyed.insert "ReturnConsumedCapacity" (.text value) p)
  | .indexName name => .ok (Keyed.insert "IndexName" (.text name) p)
  | .exclusiveStartKey key => .ok (Keyed.insert "ExclusiveStartKey" (.attributes key) p)
  | .projection attributes => do
    let (expression, aliases) ← projectionExpression attributes
    let p := Keyed.insert "ProjectionExpression" (.text expression) p
    return Keyed.insert Params.namesKey (.textMap (Keyed.insertAll (Params.names p) aliases)) p
  | .params other => .ok (Keyed.insertAll p other)

/-- Sets the parameters of options in order. -/
def applyAll (p : Params) : List RequestOption → Except ProjectionError Params
  | [] => .ok p
  | option :: rest => do
    let p ← option.apply p
    applyAll p rest

end RequestOption

end DocTable
