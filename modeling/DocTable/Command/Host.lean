import DocTable.Log.Record
import DocTable.Store.Basic
import DocTable.Text.Quoted

/-!
# The host of a command

What a command asks of the machine that it runs on: the files around it, the directories in which
stores keep their entries, octets for identifiers, and a place for log records.  Commands are
written for any host, so they can run in memory as well.
-/

namespace DocTable.Command

set_option autoImplicit false

/-- What is at a location. -/
inductive FileKind where
  | missing
  | file
  | directory
  /-- A step of the location is a file, so nothing can be below it. -/
  | blocked
  deriving DecidableEq, Repr

/-- Why a file cannot be read. -/
structure ReadFault where
  location : String
  kind : FileKind
  deriving DecidableEq, Repr

/-- The wording of a read fault. -/
def ReadFault.message (f : ReadFault) : String := match f.kind with
  | .missing => "open " ++ f.location ++ ": no such file or directory"
  | .directory => "read " ++ f.location ++ ": is a directory"
  | .blocked => "open " ++ f.location ++ ": not a directory"
  | .file => "read " ++ f.location

/-- The services of a machine. -/
class Host (m : Type → Type) where
  /-- The directory that relative locations start from. -/
  workingDirectory : m String
  /-- What is at a location. -/
  kind : String → m FileKind
  /-- The text of a file. -/
  read : String → m String
  /-- The steps of every file below a directory, in any order. -/
  filesBelow : String → m (List (List String))
  /-- The entries of the store that is kept in a directory. -/
  entries : String → m (List (Bytes × StoredItem))
  /-- Keeps the entries of a store in a directory. -/
  keep : String → List (Bytes × StoredItem) → m Unit
  /-- The octets of the next identifiers. -/
  identifiers : m (Nat → Bytes)
  /-- Tells how many identifiers were used. -/
  used : Nat → m Unit
  /-- Writes a record. -/
  log : Log.Logger → Log.Record → m Unit

variable {m : Type → Type} [Monad m] [Host m]

/-- Reads a file, or tells why that cannot be. -/
def readFile (location : String) : m (Except ReadFault String) := do
  match ← Host.kind location with
  | .file => return .ok (← Host.read location)
  | kind => return .error ⟨location, kind⟩

end DocTable.Command
