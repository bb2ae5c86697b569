import DocTable.Json.Basic
import DocTable.Number.Numeral
import DocTable.Text.Blank
import DocTable.Text.Quoted

/-!
# Reading JSON

A text is walked over once, from its first value to its end, and a fault names the character that
does not fit and the place it stands in.  A value is not taken apart any further than its reader
needs: `Json.members` gives the members of an object with the text of each value as it was written.
-/

namespace DocTable

set_option autoImplicit false

/-- What stands where it does not belong, or an end that comes too early. -/
inductive JsonFault where
  | character (c : Char) (place : String)
  /-- Octets from a backslash on that are no escape. -/
  | escape (octets : Bytes)
  | endOfText
  | nestedTooDeeply
  | notAnObject (kind : String)
  deriving DecidableEq, Repr

namespace JsonFault

/-- An escape as a fault shows it: between grave accents, or quoted if something in it could not be
seen there. -/
def shownEscape (octets : Bytes) : String :=
  let chars := Text.charsFrom 0 octets
  let hidden (c : Char) : Bool :=
    c == '\x60' || c == Text.replacement || Text.isBlank c || !Text.isPrintable c
  if chars.any hidden then Text.quotedBytes octets
  else "\x60" ++ String.ofList chars ++ "\x60"

/-- The wording of a fault. -/
def message : JsonFault → String
  | .character c place => "invalid character " ++ Text.quotedCharacter c ++ " " ++ place
  | .escape octets => "invalid escape sequence " ++ shownEscape octets ++ " in string"
  | .endOfText => "unexpected end of JSON input"
  | .nestedTooDeeply => "exceeded max depth"
  | .notAnObject kind => "json: cannot unmarshal " ++ kind ++ " into an object"

end JsonFault

namespace Json.Reader

open Number

/-- The fault of the next character. -/
def fault (place : String) : List Char → JsonFault
  | [] => .endOfText
  | c :: _ => .character c place

/-- Whether a character is a blank of the format. -/
def isSpace (c : Char) : Bool := c == ' ' || c == '\t' || c == '\n' || c == '\r'

/-- What follows the blanks. -/
def dropSpaces (cs : List Char) : List Char := cs.dropWhile isSpace

/-! ## Words and numbers -/

/-- What follows the remaining letters of a word. -/
def skipWord (word : String) : List Char → List Char → Except JsonFault (List Char)
  | [], cs => .ok cs
  | expected :: letters, cs =>
    let place := "in literal " ++ word ++ " (expecting '" ++ String.singleton expected ++ "')"
    match cs with
    | c :: rest => if c = expected then skipWord word letters rest else .error (.character c place)
    | [] => .error .endOfText

/-- What follows digits, of which there must be one. -/
def skipDigits (cs : List Char) : Except JsonFault (List Char) :=
  match cs with
  | c :: _ => if isDigit c then .ok (cs.dropWhile isDigit) else .error (fault "in numeric literal" cs)
  | [] => .error .endOfText

/-- What follows an exponent, if there is one. -/
def skipExponent (cs : List Char) : Except JsonFault (List Char) :=
  match cs with
  | c :: rest => if c == 'e' || c == 'E' then skipDigits (takeSign rest).2 else .ok cs
  | [] => .ok []

/-- What follows a fraction and an exponent, if there are any. -/
def skipFraction (cs : List Char) : Except JsonFault (List Char) :=
  match cs with
  | '.' :: rest => do
    let rest ← skipDigits rest
    skipExponent rest
  | _ => skipExponent cs

/-- What follows a number without its sign. -/
def skipNumber (cs : List Char) : Except JsonFault (List Char) :=
  match cs with
  | '0' :: rest => skipFraction rest
  | _ => do
    let rest ← skipDigits cs
    skipFraction rest

/-! ## Strings -/

/-- The character that a letter after a backslash stands for. -/
def simpleEscape? : Char → Option Char
  | 'b' => some '\x08'
  | 'f' => some '\x0c'
  | 'n' => some '\n'
  | 'r' => some '\r'
  | 't' => some '\t'
  | '\\' => some '\\'
  | '/' => some '/'
  | '\x22' => some '\x22'
  | _ => none

/-- The first octets of characters after a backslash, the backslash included. -/
def escapeOctets (count : Nat) (cs : List Char) : Bytes :=
  (Text.utf8 (String.ofList ('\\' :: cs.take count))).take count

/-- The unit of 16 bits that four hexadecimal digits give. -/
def hexUnit? (cs : List Char) : Option Nat :=
  if cs.length < 4 then none
  else (cs.take 4).foldl (fun n c => do return 16 * (← n) + (← Text.hexValue? c)) (some 0)

/-- The unit of an escape by digits, from its letter on, and what follows it.  An escape that the end
of the text cuts off may still have been one. -/
def unitEscape (cs : List Char) : Except JsonFault (Nat × List Char) :=
  let digits := cs.drop 1
  match hexUnit? digits with
  | some unit => .ok (unit, digits.drop 4)
  | none =>
    if digits.length < 4 && digits.all fun c => (Text.hexValue? c).isSome then .error .endOfText
    else .error (.escape (escapeOctets 6 cs))

/-- The code units of a string up to its closing quote, and what follows it.  An escape gives a unit
of 16 bits, any other character itself. -/
def stringUnits : Nat → List Char → Except JsonFault (List Nat × List Char)
  | 0, _ => .error .endOfText
  | _ + 1, [] => .error .endOfText
  | _ + 1, '\x22' :: rest => .ok ([], rest)
  | fuel + 1, '\\' :: rest => match rest with
    | 'u' :: _ => do
      let (unit, rest) ← unitEscape rest
      let (units, rest) ← stringUnits fuel rest
      return (unit :: units, rest)
    | c :: after => match simpleEscape? c with
      | some meant => do
        let (units, rest) ← stringUnits fuel after
        return (meant.toNat :: units, rest)
      | none => .error (.escape (escapeOctets 2 rest))
    | [] => .error .endOfText
  | fuel + 1, c :: rest =>
    if c.toNat < 0x20 then .error (.character c "in string")
    else do
      let (units, rest) ← stringUnits fuel rest
      return (c.toNat :: units, rest)

/-- The characters of code units: a pair of surrogates is one character, a lone one is replaced. -/
def ofUnits : List Nat → List Char
  | [] => []
  | high :: rest =>
    if 0xD800 ≤ high ∧ high < 0xDC00 then
      match rest with
      | low :: after =>
        if 0xDC00 ≤ low ∧ low < 0xE000 then
          Char.ofNat (0x10000 + (high - 0xD800) * 0x400 + (low - 0xDC00)) :: ofUnits after
        else Text.replacement :: ofUnits (low :: after)
      | [] => [Text.replacement]
    else if 0xDC00 ≤ high ∧ high < 0xE000 then Text.replacement :: ofUnits rest
    else Char.ofNat high :: ofUnits rest

/-- The text of a string after its opening quote, and what follows it. -/
def string (cs : List Char) : Except JsonFault (String × List Char) := do
  let (units, rest) ← stringUnits (cs.length + 1) cs
  return (String.ofList (ofUnits units), rest)

/-! ## Values -/

/-- The place where a value starts. -/
def valuePlace : String := "looking for beginning of value"

/-- The place where a member starts. -/
def memberPlace : String := "looking for beginning of object key string"

/-- What follows the colon after a member's name, with the name. -/
def memberName (cs : List Char) : Except JsonFault (String × List Char) :=
  match dropSpaces cs with
  | '\x22' :: rest => do
    let (name, rest) ← string rest
    match dropSpaces rest with
    | ':' :: rest => return (name, rest)
    | other => throw (fault "after object key" other)
  | other => .error (fault memberPlace other)

/-- How deeply objects and arrays may be nested. -/
def maximalDepth : Nat := 10000

mutual
/-- What follows a value inside `depth` objects and arrays. -/
def skipValue : Nat → Nat → List Char → Except JsonFault (List Char)
  | 0, _, _ => .error .endOfText
  | fuel + 1, depth, cs => match dropSpaces cs with
    | '\x7b' :: rest =>
      if maximalDepth ≤ depth then .error .nestedTooDeeply
      else match dropSpaces rest with
        | '\x7d' :: rest => .ok rest
        | _ => do
          let (_, rest) ← members fuel (depth + 1) rest
          return rest
    | '[' :: rest =>
      if maximalDepth ≤ depth then .error .nestedTooDeeply
      else match dropSpaces rest with
        | ']' :: rest => .ok rest
        | _ => skipItems fuel (depth + 1) rest
    | '\x22' :: rest => do
      let (_, rest) ← string rest
      return rest
    | '-' :: rest => skipNumber rest
    | 't' :: rest => skipWord "true" "rue".toList rest
    | 'f' :: rest => skipWord "false" "alse".toList rest
    | 'n' :: rest => skipWord "null" "ull".toList rest
    | c :: rest =>
      if isDigit c then skipNumber (c :: rest) else .error (.character c valuePlace)
    | [] => .error .endOfText

/-- What follows the items of an array and its bracket. -/
def skipItems : Nat → Nat → List Char → Except JsonFault (List Char)
  | 0, _, _ => .error .endOfText
  | fuel + 1, depth, cs => do
    let rest ← skipValue fuel depth cs
    match dropSpaces rest with
    | ',' :: rest => skipItems fuel depth rest
    | ']' :: rest => return rest
    | other => throw (fault "after array element" other)

/-- The members of an object with the texts of their values, and what follows its brace. -/
def members : Nat → Nat → List Char → Except JsonFault (List (String × String) × List Char)
  | 0, _, _ => .error .endOfText
  | fuel + 1, depth, cs => do
    let (name, afterColon) ← memberName cs
    let start := dropSpaces afterColon
    let rest ← skipValue fuel depth start
    let written := String.ofList (start.take (start.length - rest.length))
    match dropSpaces rest with
    | ',' :: rest => do
      let (more, rest) ← members fuel depth rest
      return ((name, written) :: more, rest)
    | '\x7d' :: rest => return ([(name, written)], rest)
    | other => throw (fault "after object key:value pair" other)
end

/-- Accepts only blanks. -/
def finish (cs : List Char) : Except JsonFault Unit :=
  match dropSpaces cs with
  | [] => .ok ()
  | c :: _ => .error (.character c "after top-level value")

/-- The word for the kind of value that starts with a character. -/
def kindOf : List Char → String
  | '[' :: _ => "array"
  | '\x22' :: _ => "string"
  | 't' :: _ | 'f' :: _ => "bool"
  | _ => "number"

end Json.Reader

/-- The members of the object that a text holds, each with the text of its value; none for null. -/
def Json.members (text : String) : Except JsonFault (Option (List (String × String))) := do
  let cs := text.toList
  let rest ← Json.Reader.skipValue (2 * cs.length + 2) 0 cs
  Json.Reader.finish rest
  match Json.Reader.dropSpaces cs with
  | '\x7b' :: inner => match Json.Reader.dropSpaces inner with
    | '\x7d' :: _ => return some []
    | _ => do
      let (found, _) ← Json.Reader.members (2 * cs.length + 2) 1 inner
      return some found
  | 'n' :: _ => return none
  | other => throw (.notAnObject (Json.Reader.kindOf other))

end DocTable
