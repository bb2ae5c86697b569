import DocTable.Attribute.Basic

/-!
# Paths into nested maps

A path names a place in a record of values: every step but the last leads through a map.  Reading
fails where a step is missing or is no map; writing creates the maps that are missing and fails
only where something else than a map stands in the way; removing what is not there does nothing.

The operations need to know of a value only whether it is a map, so they work for any `Nested` type.
-/

namespace DocTable

set_option autoImplicit false

/-- Types of values some of which are maps of such values. -/
class Nested (α : Type) where
  /-- The fields of a map. -/
  fields? : α → Option (List (String × α))
  /-- The map of some fields. -/
  ofFields : List (String × α) → α

/-- The fields of an attribute value that is a map. -/
def AttributeValue.fields? : AttributeValue → Option (List (String × AttributeValue))
  | .m fields => some fields
  | _ => none

instance : Nested AttributeValue := ⟨AttributeValue.fields?, .m⟩

/-- The steps to a place, from the outermost to the innermost. -/
abbrev Path := List String

namespace Path

variable {α : Type} [Nested α]

/-- The value at a path. -/
def get? (fields : List (String × α)) : Path → Option α
  | [] => none
  | [last] => Keyed.lookup last fields
  | step :: rest => match Keyed.lookup step fields with
    | none => none
    | some value => match Nested.fields? value with
      | none => none
      | some inner => get? inner rest

/-- Puts a value at a path; the error is the step where something else than a map stands. -/
def set (fields : List (String × α)) (value : α) : Path → Except String (List (String × α))
  | [] => .ok fields
  | [last] => .ok (Keyed.insert last value fields)
  | step :: rest => match Keyed.lookup step fields with
    | none => match set [] value rest with
      | .ok inner => .ok (Keyed.insert step (Nested.ofFields inner) fields)
      | .error blocked => .error blocked
    | some there => match Nested.fields? there with
      | none => .error step
      | some below => match set below value rest with
        | .ok inner => .ok (Keyed.insert step (Nested.ofFields inner) fields)
        | .error blocked => .error blocked

/-- Takes away the value at a path. -/
def remove (fields : List (String × α)) : Path → List (String × α)
  | [] => fields
  | [last] => Keyed.erase last fields
  | step :: rest => match Keyed.lookup step fields with
    | none => fields
    | some there => match Nested.fields? there with
      | none => fields
      | some below => Keyed.insert step (Nested.ofFields (remove below rest)) fields

/-- A path as its steps joined by points. -/
def dotted (path : Path) : String := ".".intercalate path

end Path

end DocTable
