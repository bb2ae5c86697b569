import DocTable.Fields
import DocTable.Number.Integer
import DocTable.Text.Bytes
import DocTable.Text.Quoted

/-!
# Flags

The flags of a command line.  A flag is given by its name after two dashes or by its letter after
one; its value follows an equals sign, or is the next argument, or, after a letter, the rest of the
same argument.  A switch has a truth value and needs none to be written.  Two dashes alone end the
flags, and flags may stand between the other arguments.

`Line.read` takes the arguments one by one.  A flag that still lacks its value is carried along,
together with the fault to report if no argument follows.
-/

namespace DocTable.Command

set_option autoImplicit false

/-- A flag that a command knows. -/
structure Flag where
  name : String
  letter? : Option Char := none
  isSwitch : Bool := false
  deriving DecidableEq, Repr

/-- How a message names a flag. -/
def Flag.shown (f : Flag) : String := match f.letter? with
  | some letter => "-" ++ String.singleton letter ++ ", --" ++ f.name
  | none => "--" ++ f.name

/-- Why arguments cannot be read. -/
inductive FlagFault where
  | malformed (argument : String)
  | unknown (name : String)
  | unknownLetter (letters : String)
  | withoutValue (argument : String)
  | letterWithoutValue (letters : String)
  | value (flag : Flag) (text : String)
  deriving DecidableEq, Repr

/-- The first octet of a text as a character. -/
def firstOctet (text : String) : Char := match Text.utf8 text with
  | b :: _ => Char.ofNat b.toNat
  | [] => '\x00'

/-- The wording of a fault. -/
def FlagFault.message : FlagFault → String
  | .malformed argument => "bad flag syntax: " ++ argument
  | .unknown name => "unknown flag: --" ++ name
  | .unknownLetter letters =>
    "unknown shorthand flag: " ++ Text.quotedCharacter (firstOctet letters) ++ " in -" ++ letters
  | .withoutValue argument => "flag needs an argument: " ++ argument
  | .letterWithoutValue letters =>
    "flag needs an argument: " ++ Text.quotedCharacter (firstOctet letters) ++ " in -" ++ letters
  | .value flag text =>
    "invalid argument " ++ Text.quoted text ++ " for " ++ Text.quoted flag.shown ++
      " flag: strconv.ParseBool: parsing " ++ Text.quoted text ++ ": invalid syntax"

/-- A command line that has been read: the values of the flags, and the other arguments. -/
structure Line where
  values : Fields String := []
  arguments : List String := []
  deriving DecidableEq, Repr

/-- A flag that still lacks its value, and the fault to report if none follows. -/
structure Waiting where
  flag : Flag
  fault : FlagFault

namespace Line

/-- Gives a flag a value. -/
def set (l : Line) (f : Flag) (text : String) : Except FlagFault Line :=
  if f.isSwitch then
    match Number.readBool? text with
    | some value =>
      .ok { l with values := Keyed.insert f.name (if value then "true" else "false") l.values }
    | none => .error (.value f text)
  else .ok { l with values := Keyed.insert f.name text l.values }

/-- Whether a flag was given. -/
def isSet (l : Line) (name : String) : Bool := Keyed.contains name l.values

/-- The text of a flag, or a default. -/
def text (l : Line) (name default : String) : String := (Keyed.lookup name l.values).getD default

/-- Whether a switch is on. -/
def isOn (l : Line) (name : String) : Bool := l.text name "false" = "true"

/-- Reads a name with what follows it up to the end of its argument. -/
def readName (flags : List Flag) (l : Line) (argument : String) (body : List Char) :
    Except FlagFault (Line × Option Waiting) :=
  match body with
  | [] | '-' :: _ | '=' :: _ => .error (.malformed argument)
  | _ =>
    let name := String.ofList (body.takeWhile (· != '='))
    match flags.find? fun f => f.name = name with
    | none => .error (.unknown name)
    | some flag => match body.dropWhile (· != '=') with
      | _ :: value => do
        let l ← l.set flag (String.ofList value)
        return (l, none)
      | [] =>
        if flag.isSwitch then do
          let l ← l.set flag "true"
          return (l, none)
        else return (l, some ⟨flag, .withoutValue argument⟩)

/-- Reads letters up to the end of their argument. -/
def readLetters (flags : List Flag) (l : Line) : List Char →
    Except FlagFault (Line × Option Waiting)
  | [] => .ok (l, none)
  | letter :: rest =>
    match flags.find? fun f => f.letter? = some letter with
    | none => .error (.unknownLetter (String.ofList (letter :: rest)))
    | some flag =>
      if rest.head? = some '=' ∧ 1 < rest.length then do
        let l ← l.set flag (String.ofList rest.tail)
        return (l, none)
      else if flag.isSwitch then do
        let l ← l.set flag "true"
        readLetters flags l rest
      else if rest.isEmpty then
        .ok (l, some ⟨flag, .letterWithoutValue (String.singleton letter)⟩)
      else do
        let l ← l.set flag (String.ofList rest)
        return (l, none)

/-- Reads arguments, the first of which may be the value of a flag. -/
def readFrom (flags : List Flag) (l : Line) : Option Waiting → List String → Except FlagFault Line
  | none, [] => .ok l
  | some waiting, [] => .error waiting.fault
  | some waiting, value :: rest => do
    let l ← l.set waiting.flag value
    readFrom flags l none rest
  | none, argument :: rest => match argument.toList with
    | ['-', '-'] => .ok { l with arguments := l.arguments ++ rest }
    | '-' :: '-' :: body => do
      let (l, waiting?) ← readName flags l argument body
      readFrom flags l waiting? rest
    | '-' :: letter :: letters =>
      if "test.".toList.isPrefixOf (letter :: letters) then readFrom flags l none rest
      else do
        let (l, waiting?) ← readLetters flags l (letter :: letters)
        readFrom flags l waiting? rest
    | _ => readFrom flags { l with arguments := l.arguments ++ [argument] } none rest

/-- Reads the arguments of a command that knows the given flags.  Arguments for a test run, which
start with `-test.`, are passed over. -/
def read (flags : List Flag) (arguments : List String) : Except FlagFault Line :=
  readFrom flags {} none arguments

end Line

end DocTable.Command
