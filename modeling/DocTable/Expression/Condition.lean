import DocTable.Expression.Context

/-!
# Conditions

A condition is a list of comparisons that must all hold, written `path comparator value` with the
word `AND` between them.  A comparison fails if the item has nothing at its path.
-/

namespace DocTable

set_option autoImplicit false

/-- One comparison of a condition. -/
structure Comparison where
  path : Path
  comparator : Comparator
  value : AttributeValue
  deriving Repr

namespace Condition

/-- The groups of words between the conjunctions; `group` is the one read so far. -/
def groupsFrom (group : List String) : List String → List (List String)
  | [] => [group]
  | word :: rest =>
    if Text.equalFold word "AND" then group :: groupsFrom [] rest
    else groupsFrom (group ++ [word]) rest

/-- The groups of words between the conjunctions. -/
def groups (words : List String) : List (List String) := groupsFrom [] words

/-- Reads one comparison from its words. -/
def comparison (c : Context) (group : List String) : Except ExpressionError Comparison :=
  match group with
  | [left, symbol, right] => match Comparator.ofSymbol? symbol with
    | none => .error (.unsupportedComparator symbol (" ".intercalate group))
    | some comparator => do
      let path ← c.path left
      let value ← c.value right
      return ⟨path, comparator, value⟩
  | _ => .error (.unsupportedCondition (" ".intercalate group))

/-- Reads comparisons in order, up to the first fault. -/
def comparisons (c : Context) : List (List String) → Except ExpressionError (List Comparison)
  | [] => .ok []
  | group :: rest => do
    let first ← comparison c group
    let tail ← comparisons c rest
    return first :: tail

/-- Reads a condition; a blank text has no comparisons. -/
def parse (text : String) (c : Context) : Except ExpressionError (List Comparison) :=
  if Text.isBlankText text then .ok [] else comparisons c (groups (Text.words text))

/-- Whether a comparison holds of an item. -/
def holds (item : Item) (t : Comparison) : Bool :=
  match Path.get? item t.path with
  | some got => t.comparator.holds got t.value
  | none => false

/-- Whether all comparisons hold of an item. -/
def allHold (terms : List Comparison) (item : Item) : Bool := terms.all (holds item)

/-- Whether a condition holds of an item; a missing one does. -/
def eval (text? : Option String) (c : Context) (item : Item) : Except ExpressionError Bool :=
  match text? with
  | none => .ok true
  | some text => do
    let terms ← parse text c
    return allHold terms item

end Condition

end DocTable
