import DocTable.Command.Execute
import DocTable.Store.Archive

/-!
# The program

Executes a command on this machine, prints its answer, and reports a failure on the error stream.
-/

namespace DocTable.Command

set_option autoImplicit false

/-- The file in which a directory keeps the entries of a store. -/
def entriesFile (directory : String) : String := Location.join directory "entries"

/-- Whether a step of a location is something other than a directory. -/
def isBlocked (location : String) : IO Bool := do
  let start ← IO.currentDir
  let mut above := Location.parent location
  for _ in Location.steps location do
    if (← (start / above).pathExists) && !(← (start / above).isDir) then return true
    above := Location.parent above
  return false

/-- What is at a location. -/
def kindOf (location : String) : IO FileKind := do
  let place := (← IO.currentDir) / location
  if ← place.isDir then return .directory
  else if ← place.pathExists then return .file
  else if ← isBlocked location then return .blocked
  else return .missing

/-- The steps of the files below a directory. -/
def listFiles (directory : String) : IO (List (List String)) := do
  let top := (← IO.currentDir) / directory
  let depth := (Location.steps top.toString).length
  let places ← top.walkDir fun place =>
    return !(Source.skipped.contains (place.fileName.getD ""))
  let files ← places.toList.filterM fun place => return !(← place.isDir)
  return files.map fun place => (Location.steps place.toString).drop depth

/-- The entries of the store in a directory. -/
def readEntries (directory : String) : IO (List (Bytes × StoredItem)) := do
  match ← kindOf (entriesFile directory) with
  | .file => match Archive.read? (← IO.FS.readFile (entriesFile directory)) with
    | some entries => return entries
    | none => throw (IO.userError (entriesFile directory ++ " is damaged"))
  | _ => return []

instance : Host IO where
  workingDirectory := return (← IO.currentDir).toString
  kind := kindOf
  read location := IO.FS.readFile location
  filesBelow := listFiles
  entries := readEntries
  keep directory entries := do
    IO.FS.createDirAll directory
    IO.FS.writeFile (entriesFile directory) (Archive.write entries)
  identifiers := do
    let octets := (← IO.getRandomBytes 16).toList
    return fun _ => octets
  used _ := return ()
  log logger record := do
    if logger.admits record then
      (← IO.getStderr).putStr (logger.line (toString (← IO.monoMsNow)) record)

end DocTable.Command

open DocTable.Command in
/-- Executes the program with its arguments. -/
def main (arguments : List String) : IO UInt32 := do
  match ← (execute arguments : ExceptT CommandError IO String).run with
  | .ok text =>
    (← IO.getStdout).putStr text
    return 0
  | .error e =>
    (← IO.getStderr).putStrLn (programName ++ ": " ++ e.message)
    return 1
