import DocTable.Text.Blank

/-!
# Locations of files

A location is a text of steps with slashes between them.  `clean` gives the shortest location with
the same meaning: it drops empty steps and single points, and lets a double point cancel the step
before it.  A location that starts with a slash is absolute, and nothing lies above its root.
-/

namespace DocTable.Location

set_option autoImplicit false

/-- Whether a location starts at the root. -/
def isAbsolute (location : String) : Bool := location.toList.head? == some '/'

/-- One step more, on steps that are listed from the last to the first. -/
def push (absolute : Bool) (taken : List String) (step : String) : List String :=
  if step = "" ∨ step = "." then taken
  else if step = ".." then
    match taken with
    | [] => if absolute then [] else [".."]
    | last :: before => if last = ".." then ".." :: taken else before
  else step :: taken

/-- The steps of a clean location. -/
def steps (location : String) : List String :=
  ((Text.split '/' location).foldl (push (isAbsolute location)) []).reverse

/-- The location made of steps. -/
def ofSteps (absolute : Bool) (steps : List String) : String :=
  if absolute then "/" ++ "/".intercalate steps
  else if steps.isEmpty then "."
  else "/".intercalate steps

/-- The shortest location with the same meaning. -/
def clean (location : String) : String := ofSteps (isAbsolute location) (steps location)

/-- A location below another. -/
def join (above below : String) : String :=
  if above = "" then (if below = "" then "" else clean below)
  else if below = "" then clean above
  else clean (above ++ "/" ++ below)

/-- A location seen from a directory. -/
def resolve (directory location : String) : String :=
  if isAbsolute location then clean location else join directory location

/-- The location of the directory that a location lies in. -/
def parent (location : String) : String :=
  let above := (location.toList.reverse.dropWhile (· != '/')).reverse
  clean (String.ofList above)

end DocTable.Location
