import DocTable.Text.Bytes
import DocTable.Text.Case

/-!
# Suggestions

Which names are close to a mistyped one: those that start with it, and those that at most two
changes of an octet (put in, left out or replaced) make equal to it.  Letter case does not count.
-/

namespace DocTable.Command

set_option autoImplicit false

/-- The rest of a row of the distance table, from the row above it. -/
def nextDistances (x : UInt8) : Nat → Nat → Bytes → List Nat → List Nat
  | diagonal, left, y :: ys, above :: row =>
    let here := if x = y then diagonal else 1 + min diagonal (min left above)
    here :: nextDistances x above here ys row
  | _, _, _, _ => []

/-- The row of the distance table below a row. -/
def nextRow (word : Bytes) (row : List Nat) (x : UInt8) : List Nat := match row with
  | [] => []
  | first :: rest => (first + 1) :: nextDistances x first (first + 1) word rest

/-- How many octets have to change to make two words equal. -/
def distance (a b : Bytes) : Nat :=
  (a.foldl (nextRow b) (List.range (b.length + 1))).getLastD 0

/-- Whether a name is close to what was typed. -/
def isClose (typed name : String) : Bool :=
  let typed := Text.utf8 (Text.lower typed)
  let name := Text.utf8 (Text.lower name)
  distance typed name ≤ 2 || typed.isPrefixOf name

end DocTable.Command
