import DocTable.Command.Execute

/-!
# A host in memory

A machine that is a value: files with their texts, the entries of the stores by directory, and a
source of octets.  Executing a command on it gives the machine afterwards, so that a run of several
commands can be followed without touching any file.
-/

namespace DocTable.Command

set_option autoImplicit false

/-- A machine in memory. -/
structure Sandbox where
  directory : String
  /-- The steps of absolute locations, with the texts of the files there. -/
  files : List (List String × String)
  /-- The entries of the stores, by the absolute locations of their directories. -/
  stores : List (String × List (Bytes × StoredItem)) := []
  source : Nat → Bytes
  drawn : Nat := 0

namespace Sandbox

/-- Whether steps lead to a directory: one that holds a file or a store, or the working directory. -/
def isDirectory (s : Sandbox) (steps : List String) : Bool :=
  s.files.any (fun file => steps.isPrefixOf file.1 && steps != file.1) ||
    steps.isPrefixOf (Location.steps s.directory) ||
    s.stores.any fun store => steps.isPrefixOf (Location.steps store.1)

/-- What is at the end of further steps from a directory, which is given by its steps from the last
to the first. -/
def follow (s : Sandbox) (taken : List String) : List String → FileKind
  | [] => .directory
  | step :: rest =>
    let taken := Location.push true taken step
    if s.isDirectory taken.reverse then follow s taken rest
    else if (s.files.any fun file => file.1 = taken.reverse) then
      if rest.isEmpty then .file else .blocked
    else .missing

/-- The steps of a location, seen from the working directory. -/
def stepsOf (s : Sandbox) (location : String) : List String :=
  Location.steps (Location.resolve s.directory location)

/-- What is at a location. -/
def kind (s : Sandbox) (location : String) : FileKind :=
  if location = "" then .missing
  else s.follow
    (if Location.isAbsolute location then [] else (Location.steps s.directory).reverse)
    (Text.split '/' location)

/-- The text of a file. -/
def read (s : Sandbox) (location : String) : String :=
  (Keyed.lookup (s.stepsOf location) s.files).getD ""

/-- The steps of the files below a directory. -/
def filesBelow (s : Sandbox) (location : String) : List (List String) :=
  let above := s.stepsOf location
  s.files.filterMap fun file =>
    if above.isPrefixOf file.1 then some (file.1.drop above.length) else none

instance : Host (StateM Sandbox) where
  workingDirectory := return (← get).directory
  kind location := return (← get).kind location
  read location := return (← get).read location
  filesBelow location := return (← get).filesBelow location
  entries directory := return (Keyed.lookup directory (← get).stores).getD []
  keep directory entries := modify fun s =>
    { s with stores := Keyed.insert directory entries s.stores }
  identifiers := return (fun s n => s.source (s.drawn + n)) (← get)
  used count := modify fun s => { s with drawn := s.drawn + count }
  log _ _ := pure ()

/-- Executes the program on a machine. -/
def execute (s : Sandbox) (arguments : List String) : Except CommandError String × Sandbox :=
  (Command.execute arguments : ExceptT CommandError (StateM Sandbox) String).run.run s

end Sandbox

end DocTable.Command
