import DocTable.Json.Basic
import DocTable.Log.Template
import DocTable.Number.Integer
import DocTable.Text.Case

/-!
# Log records

A record has a level, named texts and a message.  A logger passes on the records that reach its own
level, and writes each of them on a line: as an object of the interchange format, or, for a
terminal, in colours.
-/

namespace DocTable.Log

set_option autoImplicit false

/-! ## Levels -/

/-- The weight of a record; a logger's level is the least weight that it passes on. -/
structure Level where
  number : Int
  deriving DecidableEq, Repr, Inhabited

namespace Level

def trace : Level := ⟨-1⟩
def debug : Level := ⟨0⟩
def info : Level := ⟨1⟩
def warn : Level := ⟨2⟩
def error : Level := ⟨3⟩
def fatal : Level := ⟨4⟩
def critical : Level := ⟨5⟩
def unmarked : Level := ⟨6⟩
def disabled : Level := ⟨7⟩

/-- The levels that have a name. -/
def named : List (Level × String) :=
  [(trace, "trace"), (debug, "debug"), (info, "info"), (warn, "warn"), (error, "error"),
    (fatal, "fatal"), (critical, "panic"), (disabled, "disabled"), (unmarked, "")]

/-- The name of a level; a level without a name goes by its number. -/
def name (l : Level) : String := match Keyed.lookup l named with
  | some text => text
  | none => toString l.number

/-- The level that a text names, by a name in any letter case or by a number of eight bits. -/
def ofText? (text : String) : Option Level :=
  match named.find? fun entry => Text.equalFold text entry.2 with
  | some entry => some entry.1
  | none => match Number.readSigned 64 text with
    | .ok n => if -128 ≤ n ∧ n ≤ 127 then some ⟨n⟩ else none
    | .error _ => none

/-- The level of a configuration; anything unknown stands for `info`. -/
def ofConfig (text : String) : Level :=
  if text = "" then info else (ofText? (Text.lower text)).getD info

end Level

/-! ## Records -/

/-- An entry of a log. -/
structure Record where
  level : Level
  fields : List (String × String)
  message : String
  deriving DecidableEq, Repr

namespace Record

/-- A message of the storage engine, written from a template and without line ends behind it. -/
def ofEngine (level : Level) (template : String) (arguments : List Value) : Record where
  level := level
  fields := [("component", "badger")]
  message := String.ofList
    ((fill template arguments).toList.reverse.dropWhile (· == '\n')).reverse

/-- A record as an object, with the time if one is given; an empty message is left out. -/
def json (time? : Option String) (r : Record) : Json :=
  .object (("level", .string r.level.name) :: Keyed.mapValues .string r.fields ++
    (time?.toList.map fun time => ("time", .string time)) ++
    if r.message = "" then [] else [("message", .string r.message)])

/-! ## The terminal form -/

/-- A text between the code of a colour or a weight and the code that ends it. -/
def styled (code : Nat) (text : String) : String :=
  "\x1b[" ++ toString code ++ "m" ++ text ++ "\x1b[0m"

/-- The three letters of a level in its colour. -/
def badge (l : Level) : String :=
  if l = .trace then styled 34 "TRC"
  else if l = .debug then "DBG"
  else if l = .info then styled 32 "INF"
  else if l = .warn then styled 33 "WRN"
  else if l = .error then styled 31 "ERR"
  else if l = .fatal then styled 31 "FTL"
  else if l = .critical then styled 31 "PNC"
  else l.name

/-- The message in the terminal form: bold from `info` on. -/
def banner (r : Record) : String :=
  if r.message = "" then ""
  else if Level.info.number ≤ r.level.number ∧ r.level.number ≤ Level.critical.number then
    styled 1 r.message
  else r.message

/-- Whether a text is quoted in the terminal form. -/
def needsQuotes (text : String) : Bool :=
  text.toList.any fun c => c ≤ ' ' || '~' < c || c = '\\' || c = '\x22'

/-- A named text in the terminal form. -/
def column (field : String × String) : String :=
  styled 36 (field.1 ++ "=") ++ if needsQuotes field.2 then Text.quoted field.2 else field.2

/-- A record in the terminal form: time, level, message and the named texts in order. -/
def console (time : String) (r : Record) : String :=
  " ".intercalate (([styled 90 time, badge r.level, r.banner] ++
    (Keyed.ofList r.fields).map column).filter (· ≠ "")) ++ "\n"

end Record

/-! ## Loggers -/

/-- How a program logs. -/
structure Config where
  enabled : Bool := false
  level : String := ""
  format : String := ""
  deriving DecidableEq, Repr, Inhabited

/-- Passes on records from a level on. -/
structure Logger where
  enabled : Bool
  level : Level
  console : Bool
  deriving DecidableEq, Repr

namespace Logger

/-- The logger of a configuration. -/
def ofConfig (c : Config) : Logger where
  enabled := c.enabled
  level := .ofConfig c.level
  console := c.enabled && c.format = "console"

/-- Whether a record is passed on. -/
def admits (l : Logger) (r : Record) : Bool := l.enabled && l.level.number ≤ r.level.number

/-- The line of a record that was made at a time. -/
def line (l : Logger) (time : String) (r : Record) : String :=
  if l.console then r.console time else (r.json (some time)).compact ++ "\n"

end Logger

end DocTable.Log
