import DocTable.Expression.Context

/-!
# Projections

A projection keeps the places of an item that its paths name, with the maps around them.  A path
that the item does not have adds nothing.
-/

namespace DocTable

set_option autoImplicit false

namespace Projection

/-- Copies the value at a path, if there is one. -/
def keep (item out : Item) (path : Path) : Except ExpressionError Item :=
  match Path.get? item path with
  | none => .ok out
  | some value => match Path.set out value path with
    | .ok out => .ok out
    | .error step => .error (.notAMap step)

/-- Copies the values at the paths of texts, in order. -/
def keepAll (c : Context) (item out : Item) : List String → Except ExpressionError Item
  | [] => .ok out
  | text :: rest => do
    let path ← c.path (Text.trim text)
    let out ← keep item out path
    keepAll c item out rest

/-- The texts of the paths of a projection; a missing or blank projection has none. -/
def texts? (text? : Option String) : Option (List String) :=
  match text? with
  | none => none
  | some text => if Text.isBlankText text then none else some (Text.split ',' text)

end Projection

/-- The part of an item that a projection names; a missing or blank projection names all of it. -/
def Item.project (text? : Option String) (c : Context) (item : Item) :
    Except ExpressionError Item :=
  match Projection.texts? text? with
  | none => .ok item
  | some texts => Projection.keepAll c item [] texts

end DocTable
