import DocTable.Attribute.Basic
import DocTable.Number.Extended
import DocTable.Text.Quoted

/-!
# Comparing and combining attribute values

Numbers are compared by value, with 64 binary digits of precision; sets by their members, whatever
the order; texts and byte strings by their octets.  Values of different kinds are never equal and
have no order, and only texts, numbers and byte strings are ordered at all.

Adding adds numbers and joins sets, deleting takes members out of a set.
-/

namespace DocTable

set_option autoImplicit false

open Number

/-! ## Sets -/

/-- The members of a list followed by those of another that it does not have. -/
def union (a : List String) : List String → List String
  | [] => a
  | member :: rest => if a.contains member then union a rest else union (a ++ [member]) rest

/-- The members of a list that another does not have. -/
def difference (a b : List String) : List String := a.filter fun member => !b.contains member

/-- Whether two lists have the same members. -/
def sameSet (a b : List String) : Bool := a.length == b.length && (union a b).length == a.length

/-! ## Equality and order -/

/-- The order of two numbers by their texts, if both are numbers. -/
def compareNumbers? (a b : String) : Option Ordering := do
  let x ← Extended.read? a
  let y ← Extended.read? b
  return x.cmp y

/-- The order of two byte strings. -/
def compareBytes : Bytes → Bytes → Ordering
  | [], [] => .eq
  | [], _ :: _ => .lt
  | _ :: _, [] => .gt
  | a :: rest, b :: others => if a < b then .lt else if b < a then .gt else compareBytes rest others

namespace AttributeValue

mutual
/-- Whether two values are equal. -/
def equal : AttributeValue → AttributeValue → Bool
  | .s x, .s y => x == y
  | .raw x, .raw y => x == y
  | .n x, .n y => compareNumbers? x y == some .eq
  | .b x, .b y => x == y
  | .bool x, .bool y => x == y
  | .null _, .null _ => true
  | .m x, .m y => x.length == y.length && equalFields x y
  | .l x, .l y => equalItems x y
  | .ss x, .ss y => sameSet x y
  | .ns x, .ns y => sameSet x y
  | .unset, .unset => true
  | _, _ => false

/-- Whether every named value has an equal one of its name among others. -/
def equalFields : List (String × AttributeValue) → List (String × AttributeValue) → Bool
  | [], _ => true
  | (k, v) :: rest, others =>
    (match Keyed.lookup k others with
      | some w => equal v w
      | none => false) && equalFields rest others

/-- Whether listed values are equal one by one. -/
def equalItems : List AttributeValue → List AttributeValue → Bool
  | [], [] => true
  | v :: rest, w :: others => equal v w && equalItems rest others
  | _, _ => false
end

/-- The order of two values of one kind that has an order. -/
def compare? : AttributeValue → AttributeValue → Option Ordering
  | .n x, .n y => compareNumbers? x y
  | .b x, .b y => some (compareBytes x y)
  | v, w => do
    let x ← v.textOctets?
    let y ← w.textOctets?
    return compareBytes x y

end AttributeValue

/-! ## Comparators -/

/-- The comparisons of a condition. -/
inductive Comparator where
  | eq | ne | lt | le | gt | ge
  deriving DecidableEq, Repr, Inhabited

namespace Comparator

/-- The symbol of a comparison. -/
def symbol : Comparator → String
  | .eq => "="
  | .ne => "<>"
  | .lt => "<"
  | .le => "<="
  | .gt => ">"
  | .ge => ">="

/-- The comparison of a symbol. -/
def ofSymbol? (symbol : String) : Option Comparator :=
  [Comparator.eq, .ne, .lt, .le, .gt, .ge].find? fun c => c.symbol = symbol

/-- Whether an order is one that a comparison accepts. -/
def accepts : Comparator → Ordering → Bool
  | .eq, order => order == .eq
  | .ne, order => order != .eq
  | .lt, order => order == .lt
  | .le, order => order != .gt
  | .gt, order => order == .gt
  | .ge, order => order != .lt

/-- Whether a comparison holds of two values. -/
def holds (c : Comparator) (got want : AttributeValue) : Bool :=
  match c with
  | .eq => got.equal want
  | .ne => !got.equal want
  | _ => match got.compare? want with
    | some order => c.accepts order
    | none => false

end Comparator

/-! ## Adding and deleting -/

/-- Why two values cannot be combined. -/
inductive CombineError where
  | invalidNumber (text : String)
  | notAddable (delta current : String)
  | notDeletable (removed current : String)
  /-- An infinite number and its negative have no sum. -/
  | oppositeInfinities
  deriving DecidableEq, Repr

/-- The wording of a combining error. -/
def CombineError.message : CombineError → String
  | .invalidNumber text => "invalid number " ++ Text.quoted text
  | .notAddable delta current => "cannot add " ++ delta ++ " to " ++ current
  | .notDeletable removed current => "cannot delete " ++ removed ++ " from " ++ current
  | .oppositeInfinities => "addition of infinities with opposite signs"

namespace AttributeValue

/-- The sum of two numbers by their texts. -/
def addNumbers (current delta : String) : Except CombineError AttributeValue :=
  match Extended.read? current with
  | none => .error (.invalidNumber current)
  | some x => match Extended.read? delta with
    | none => .error (.invalidNumber delta)
    | some y => match x.add? y with
      | some sum => .ok (.n sum.text)
      | none => .error .oppositeInfinities

/-- Adds to a number or a set. -/
def add (current delta : AttributeValue) : Except CombineError AttributeValue :=
  match current, delta with
  | .n x, .n y => addNumbers x y
  | .ss x, .ss y => .ok (.ss (union x y))
  | .ns x, .ns y => .ok (.ns (union x y))
  | _, _ => .error (.notAddable delta.typeName current.typeName)

/-- A set, unless it has no members. -/
def setOf? (make : List String → AttributeValue) (members : List String) : Option AttributeValue :=
  if members.isEmpty then none else some (make members)

/-- Deletes members from a set; nothing is left of a set without members. -/
def delete (current removed : AttributeValue) : Except CombineError (Option AttributeValue) :=
  match current, removed with
  | .ss x, .ss y => .ok (setOf? .ss (difference x y))
  | .ns x, .ns y => .ok (setOf? .ns (difference x y))
  | _, _ => .error (.notDeletable removed.typeName current.typeName)

end AttributeValue

end DocTable
