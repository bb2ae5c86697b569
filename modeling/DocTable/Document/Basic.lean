import DocTable.Value.Basic

/-!
# Documents

A document lists named values in the order in which they were written.  As a filter, each field is
a term: a value to be matched by equality, or a comparison if the value is an object whose only key
names an operator.  As an update, a document whose keys start with `$` holds directives; any other
document is an item that replaces the whole.
-/

namespace DocTable

set_option autoImplicit false

/-! ## Resolved filter values -/

/-- A filter value: an operand and the comparison with it, equality if none is named. -/
structure Resolved where
  operator? : Option Operator
  operand : Value
  deriving Repr, Inhabited

namespace Resolved

/-- The comparison that the only key of an object names, or the object itself as an operand. -/
def ofFields (raw : Value) : List (String × Value) → Resolved
  | [(key, operand)] => match Operator.ofKey? key with
    | some operator => ⟨some operator, operand⟩
    | none => ⟨none, raw⟩
  | _ => ⟨none, raw⟩

/-- Resolves a raw value.  Only an object whose one key names an operator is a comparison; a value
that is resolved already stays as it is. -/
def ofValue (raw : Value) : Resolved :=
  match raw with
  | .literal operand => ⟨none, operand⟩
  | .comparison operator operand => ⟨some operator, operand⟩
  | .map fields => ofFields raw fields
  | .document fields => ofFields raw fields
  | _ => ⟨none, raw⟩

/-- A resolved value as a raw one. -/
def toValue (r : Resolved) : Value :=
  match r.operator? with
  | some operator => .comparison operator r.operand
  | none => .literal r.operand

/-- The symbol of the comparison. -/
def symbol (r : Resolved) : String :=
  match r.operator? with
  | some operator => operator.symbol
  | none => Operator.eq.symbol

/-- Whether the value is matched by equality. -/
def isEquality (r : Resolved) : Bool := r.operator?.getD .eq == .eq

/-- The key of the named comparison, empty for a plain operand. -/
def operatorKey (r : Resolved) : String :=
  match r.operator? with
  | some operator => operator.key
  | none => ""

end Resolved

/-! ## Fields of a document -/

namespace Document

/-- The names of the fields in order. -/
def keys (d : Document) : List String := d.map Prod.fst

/-- Whether a field of a name exists. -/
def has (d : Document) (name : String) : Bool := d.any fun field => field.1 = name

/-- The value of the first field of a name. -/
def get? (d : Document) (name : String) : Option Value :=
  (d.find? fun field => field.1 = name).map Prod.snd

/-- The document with a field in front. -/
def prepend (d : Document) (name : String) (value : Value) : Document := (name, value) :: d

/-- The fields of a map as a document, in the order of their names. -/
def ofMap (fields : List (String × Value)) : Document := fields

/-- The map of the fields; the last field of a name stays. -/
def toMap (d : Document) : List (String × Value) := Keyed.ofList d

/-- The terms of a filter. -/
def terms (d : Document) : List (String × Resolved) :=
  d.map fun field => (field.1, Resolved.ofValue field.2)

/-- Whether a document is meant as directives. -/
def hasDirectives (d : Document) : Bool := d.any fun field => field.1.toList.head? == some '$'

end Document

end DocTable
