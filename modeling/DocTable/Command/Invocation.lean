import DocTable.Command.Flags
import DocTable.Command.Suggestion

/-!
# Invocations

From the arguments of the program to a command with its flags.  The command is the first argument
that is neither a flag nor, as far as the flags of the program tell, the value of one; it is taken
out of the arguments, and the rest is read with the flags of the command.
-/

namespace DocTable.Command

set_option autoImplicit false

/-- The name of the program. -/
def programName : String := "ddb"

/-- The version of the program. -/
def version : String := "0.1.0"

/-- The commands of the program; `root` is the program without a command. -/
inductive Name where
  | root | compile | run | tables | help | completion
  deriving DecidableEq, Repr

namespace Name

/-- The word of a command. -/
def word : Name → String
  | .root => programName
  | .compile => "compile"
  | .run => "run"
  | .tables => "tables"
  | .help => "help"
  | .completion => "completion"

/-- The command of a word. -/
def ofWord? (word : String) : Option Name :=
  [compile, run, tables, help, completion].find? fun c => c.word = word

/-- The commands that are suggested for a mistyped word. -/
def suggestions (typed : String) : List String :=
  ([compile, run, tables, completion].filter fun c => isClose typed c.word).map word

/-- The flags of all commands. -/
def commonFlags : List Flag := [⟨"schema", none, false⟩, ⟨"log-level", none, false⟩]

/-- The flags that give a table and documents. -/
def documentFlags : List Flag :=
  [⟨"table", some 't', false⟩, ⟨"op", some 'o', false⟩, ⟨"doc", some 'd', false⟩,
    ⟨"update", some 'u', false⟩]

/-- The flags that choose a store. -/
def storeFlags : List Flag := [⟨"db", none, false⟩, ⟨"memory", none, true⟩, ⟨"aws", none, true⟩]

/-- The flags that a command knows. -/
def flags (c : Name) : List Flag :=
  commonFlags ++ [⟨"help", some 'h', true⟩] ++ match c with
    | .root => [⟨"version", some 'v', true⟩]
    | .compile => documentFlags
    | .run => documentFlags ++ storeFlags
    | _ => []

/-- The flags without which a command does not run. -/
def required : Name → List String
  | .compile | .run => ["table"]
  | _ => []

/-- Pairs of flags of which only one may be given. -/
def exclusive : Name → List (String × String)
  | .run => [("aws", "db"), ("aws", "memory")]
  | _ => []

end Name

/-- Why arguments are refused. -/
inductive UsageError where
  | unknownCommand (word path : String) (suggestions : List String)
  | flag (fault : FlagFault)
  | required (names : List String)
  | exclusive (first second : String)
  deriving DecidableEq, Repr

/-- The wording of a usage error. -/
def UsageError.message : UsageError → String
  | .unknownCommand word path suggestions =>
    "unknown command " ++ Text.quoted word ++ " for " ++ Text.quoted path ++
      if suggestions.isEmpty then ""
      else "\n\nDid you mean this?\n" ++ String.join (suggestions.map fun s => "\t" ++ s ++ "\n")
  | .flag fault => fault.message
  | .required names => "required flag(s) \"" ++ "\", \"".intercalate names ++ "\" not set"
  | .exclusive first second =>
    let both := "[" ++ first ++ " " ++ second ++ "]"
    "if any flags in the group " ++ both ++ " are set none of the others can be; " ++ both ++
      " were all set"

/-! ## Finding the command -/

/-- Whether an argument is a flag whose value is the next argument.  Only the flags of all commands
are known here, and none of them is a switch. -/
def takesNext (argument : String) : Bool := match argument.toList with
  | '-' :: '-' :: body => !body.contains '='
  | ['-', letter] => letter != '=' && letter.toNat < 128
  | _ => false

/-- The first argument that is no flag and no value of one. -/
def firstWord? : List String → Option String
  | [] => none
  | argument :: rest =>
    if argument = "--" then none
    else if takesNext argument then
      match rest with
      | _ :: next :: others => firstWord? (next :: others)
      | _ => none
    else if argument.toList.head?.all (· == '-') then firstWord? rest
    else some argument

/-- Takes the first occurrence of a word out of arguments. -/
def without (word : String) : List String → List String
  | [] => []
  | argument :: rest =>
    if argument = "--" then argument :: rest
    else if takesNext argument then
      match rest with
      | value :: others => argument :: value :: without word others
      | [] => [argument]
    else if argument = word then rest
    else argument :: without word rest

/-- A command with its command line. -/
structure Invocation where
  name : Name
  line : Line
  deriving DecidableEq, Repr

namespace Invocation

/-- The command that arguments name, and the arguments without its word. -/
def locate (arguments : List String) : Except UsageError (Name × List String) :=
  match firstWord? arguments with
  | none => .ok (.root, arguments)
  | some word => match Name.ofWord? word with
    | some name => .ok (name, without word arguments)
    | none => .error (.unknownCommand word programName (Name.suggestions word))

/-- The invocation that arguments stand for. -/
def ofArguments (arguments : List String) : Except UsageError Invocation := do
  let (name, rest) ← locate arguments
  let line ← (Line.read name.flags rest).mapError .flag
  return ⟨name, line⟩

/-- No command takes an argument that is not a flag. -/
def checkArguments (i : Invocation) : Except UsageError Unit :=
  match i.line.arguments with
  | [] => .ok ()
  | word :: _ => .error (.unknownCommand word (programName ++ " " ++ i.name.word) [])

/-- Checks that required flags were given, and that no two exclusive ones were. -/
def checkFlags (i : Invocation) : Except UsageError Unit :=
  match i.name.required.filter fun name => !i.line.isSet name with
  | [] => match i.name.exclusive.find? fun pair => i.line.isSet pair.1 && i.line.isSet pair.2 with
    | some (first, second) => .error (.exclusive first second)
    | none => .ok ()
  | missing => .error (.required missing)

end Invocation

end DocTable.Command
