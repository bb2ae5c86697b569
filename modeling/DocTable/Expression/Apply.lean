import DocTable.Expression.Update

/-!
# Carrying out updates

The actions of an update change an item one after the other.  A map that an action puts somewhere
stays the map of its placeholder: if two actions put it at two places, a later action that writes
below one of them changes it at both.  A `Draft` therefore holds such a map once, under its
placeholder, and the places have links to it; `Draft.finish` puts the maps in place of the links.
-/

namespace DocTable

set_option autoImplicit false

/-- A value of a draft. -/
inductive Shared where
  | leaf (value : AttributeValue)
  | map (fields : List (String × Shared))
  /-- The map of a placeholder. -/
  | link (token : String)
  deriving Repr, Inhabited

namespace Shared

/-- The fields of a map of its own. -/
def fields? : Shared → Option (List (String × Shared))
  | .map fields => some fields
  | _ => none

instance : Nested Shared := ⟨fields?, .map⟩

mutual
/-- A value without links. -/
def ofValue : AttributeValue → Shared
  | .m fields => .map (ofFields fields)
  | value => .leaf value

/-- Fields without links. -/
def ofFields : List (String × AttributeValue) → List (String × Shared)
  | [] => []
  | (k, v) :: rest => (k, ofValue v) :: ofFields rest
end

mutual
/-- The value with a map in place of every link. -/
def reveal (linked : String → AttributeValue) : Shared → AttributeValue
  | .leaf value => value
  | .map fields => .m (revealFields linked fields)
  | .link token => linked token

/-- The fields with a map in place of every link. -/
def revealFields (linked : String → AttributeValue) :
    List (String × Shared) → List (String × AttributeValue)
  | [] => []
  | (k, v) :: rest => (k, reveal linked v) :: revealFields linked rest
end

/-- A value as far as actions look at it: of a map they only see that it is one. -/
def surface : Shared → AttributeValue
  | .leaf value => value
  | _ => .m []

end Shared

/-- An item in the course of an update, with the maps that placeholders stand for. -/
structure Draft where
  item : Fields Shared
  maps : Fields (Fields Shared)
  deriving Repr, Inhabited

namespace Draft

/-- A draft of an item. -/
def ofItem (item : Item) : Draft := ⟨Shared.ofFields item, []⟩

/-- The map of a placeholder; `depth` bounds how many links lead into each other. -/
def linked (maps : Fields (Fields Shared)) : Nat → String → AttributeValue
  | 0, _ => .m []
  | depth + 1, token =>
    .m (Shared.revealFields (linked maps depth) ((Keyed.lookup token maps).getD []))

/-- The item of a draft. -/
def finish (d : Draft) : Item :=
  Shared.revealFields (linked d.maps d.maps.length) d.item

/-- The map that a path ends in, by its placeholder unless it is in the item itself, and the rest of
the path inside it. -/
def home (maps : Fields (Fields Shared)) (token? : Option String) (walked : Path)
    (fields : Fields Shared) : Path → Option String × Path
  | [] => (token?, walked)
  | step :: rest => match rest, Keyed.lookup step fields with
    | _ :: _, some (.map inner) => home maps token? (walked ++ [step]) inner rest
    | _ :: _, some (.link token) =>
      home maps (some token) [] ((Keyed.lookup token maps).getD []) rest
    | _, _ => (token?, walked ++ step :: rest)

/-- The fields of the item or of the map of a placeholder. -/
def fieldsOf (d : Draft) : Option String → Fields Shared
  | none => d.item
  | some token => (Keyed.lookup token d.maps).getD []

/-- Replaces the fields of the item or of the map of a placeholder. -/
def withFields (d : Draft) (fields : Fields Shared) : Option String → Draft
  | none => { d with item := fields }
  | some token => { d with maps := Keyed.insert token fields d.maps }

/-- The value at a path. -/
def get? (d : Draft) (path : Path) : Option Shared :=
  let (token?, rest) := home d.maps none [] d.item path
  Path.get? (d.fieldsOf token?) rest

/-- Puts a value at a path. -/
def put (d : Draft) (path : Path) (value : Shared) : Except ExpressionError Draft :=
  let (token?, rest) := home d.maps none [] d.item path
  match Path.set (d.fieldsOf token?) value rest with
  | .ok fields => .ok (d.withFields fields token?)
  | .error step => .error (.notAMap step)

/-- Takes away the value at a path. -/
def remove (d : Draft) (path : Path) : Draft :=
  let (token?, rest) := home d.maps none [] d.item path
  d.withFields (Path.remove (d.fieldsOf token?) rest) token?

/-- Puts the value of an action at its path; a map is linked to. -/
def putOperand (d : Draft) (a : UpdateAction) : Except ExpressionError Draft :=
  match a.operand? with
  | some ⟨token, .m fields⟩ =>
    let maps :=
      if Keyed.contains token d.maps then d.maps
      else Keyed.insert token (Shared.ofFields fields) d.maps
    { d with maps := maps }.put a.path (.link token)
  | _ => d.put a.path (.leaf a.value)

/-- Carries out one action. -/
def act (d : Draft) (a : UpdateAction) : Except ExpressionError Draft :=
  match a.kind with
  | .set => d.putOperand a
  | .remove => .ok (d.remove a.path)
  | .add => match d.get? a.path with
    | none => d.putOperand a
    | some current => match current.surface.add a.value with
      | .error cause => .error (.combine .add a.path cause)
      | .ok sum => d.put a.path (.leaf sum)
  | .delete => match d.get? a.path with
    | none => .ok d
    | some current => match current.surface.delete a.value with
      | .error cause => .error (.combine .delete a.path cause)
      | .ok none => .ok (d.remove a.path)
      | .ok (some rest) => d.put a.path (.leaf rest)

/-- Carries out actions in order. -/
def actAll (d : Draft) : List UpdateAction → Except ExpressionError Draft
  | [] => .ok d
  | a :: rest => do
    let d ← d.act a
    d.actAll rest

end Draft

namespace UpdateAction

/-- Carries out actions on an item. -/
def apply (actions : List UpdateAction) (item : Item) : Except ExpressionError Item := do
  let d ← (Draft.ofItem item).actAll actions
  return d.finish

/-- The attributes of an item that actions name. -/
def touched (actions : List UpdateAction) (item : Item) : Item :=
  actions.foldl (fun out a => match a.path with
    | [] => out
    | first :: _ => match Keyed.lookup first item with
      | some value => Keyed.insert first value out
      | none => out) []

end UpdateAction

end DocTable
