import DocTable.Value.Basic
import DocTable.Yaml.Document

/-!
# Shapes and the state of loading

A shape says what a caller wants a node to hold: a text, a truth value, a list, a record with known
fields, a map, a document, or whatever stands there.  Loading a node goes on after a node that does
not fit, so that graver faults still come to light, and it counts the nodes it loads: once most of
them are loaded again and again through aliases, it gives up.
-/

namespace DocTable.Yaml

set_option autoImplicit false

/-- What a node is asked to hold. -/
inductive Shape where
  | text
  | bool
  | list (item : Shape)
  | record (fields : List (String × Shape))
  /-- Something, or null for nothing. -/
  | optional (inner : Shape)
  /-- Dynamic values by text keys. -/
  | map
  /-- Dynamic values by keys of any type. -/
  | keyedMap
  /-- Whatever stands there. -/
  | dynamic
  /-- A document, which the caller reads by itself. -/
  | document
  deriving Repr, Inhabited

/-- How far loading has come. -/
structure LoadState where
  /-- The number of nodes loaded, the one that holds the root included. -/
  loaded : Nat := 1
  /-- How many of them were loaded through an alias. -/
  repeated : Nat := 0
  /-- The number of aliases around the current node. -/
  aliases : Nat := 0
  /-- Whether every node has fitted its shape. -/
  fits : Bool := true
  /-- The keys that a mapping being merged must not set again. -/
  settled? : Option (List Value) := none

/-- How a caller words faults and reads documents. -/
structure Caller (ε : Type) where
  fault : Fault → ε
  document : Node → Except ε Value

/-- Loading steps can fail and count. -/
abbrev Load (ε : Type) := StateT LoadState (Except ε)

namespace LoadState

/-- Whether aliases make up too much of what has been loaded: more than 99 in a hundred of up to
400,000 nodes, more than one in ten from 4,000,000 nodes on, and in between a share that falls
evenly. -/
def isExcessive (s : LoadState) : Bool :=
  100 < s.repeated && 1000 < s.loaded &&
    if s.loaded ≤ 400000 then decide (99 * s.loaded < 100 * s.repeated)
    else if 4000000 ≤ s.loaded then decide (s.loaded < 10 * s.repeated)
    else decide (s.loaded * (99 * 3600000 - 89 * (s.loaded - 400000)) < 360000000 * s.repeated)

/-- One more node is loaded. -/
def count (s : LoadState) : LoadState :=
  { s with loaded := s.loaded + 1, repeated := if 0 < s.aliases then s.repeated + 1 else s.repeated }

end LoadState

namespace Load

variable {ε : Type}

/-- Counts a node. -/
def count (caller : Caller ε) : Load ε Unit := do
  modify LoadState.count
  let s ← get
  if s.isExcessive then throw (caller.fault .excessiveAliases)

/-- Notes that a node does not fit. -/
def misfit : Load ε (Option Value) := do
  modify fun s => { s with fits := false }
  return none

/-- Loads inside an alias. -/
def insideAlias {α : Type} (load : Load ε α) : Load ε α := do
  modify fun s => { s with aliases := s.aliases + 1 }
  let result ← load
  modify fun s => { s with aliases := s.aliases - 1 }
  return result

/-- Fails with a fault where there is one. -/
def orFault {α : Type} (caller : Caller ε) : Except Fault α → Load ε α
  | .ok result => return result
  | .error fault => throw (caller.fault fault)

end Load

end DocTable.Yaml
