import DocTable.Text.Quoted

/-!
# Laid-out text

How a value is to be written inside a message: with how many characters, on which side of them, with
which signs and marks.  A verb, one letter, chooses the form; a form that a verb does not have is
none.  This module lays out truth values, whole numbers, characters and texts.
-/

namespace DocTable.Text

set_option autoImplicit false

/-- What is asked of the written form of a value. -/
structure Layout where
  /-- The alternate form: marks of the base, kept decimal points, grave accents. -/
  alternate : Bool := false
  zero : Bool := false
  plus : Bool := false
  left : Bool := false
  space : Bool := false
  /-- Values stand as they would in a program, with their types. -/
  source : Bool := false
  /-- Fields stand with their names. -/
  labelled : Bool := false
  width? : Option Nat := none
  precision? : Option Nat := none
  deriving DecidableEq, Repr, Inhabited

namespace Layout

/-! ## Filling and cutting -/

/-- The layout without zeros in front. -/
def blank (l : Layout) : Layout := { l with zero := false }

/-- What fills a text up: zeros only in front of it. -/
def filler (l : Layout) : Char := if l.zero && !l.left then '0' else ' '

/-- A text filled up to the width. -/
def pad (l : Layout) (text : String) : String :=
  let missing := String.ofList (List.replicate (l.width?.getD 0 - text.length) l.filler)
  if l.left then text ++ missing else missing ++ text

/-- A text cut to the precision. -/
def cut (l : Layout) (text : String) : String := match l.precision? with
  | none => text
  | some n => String.ofList (text.toList.take n)

/-- Octets cut to as many characters as the precision allows. -/
def cutOctets (l : Layout) (bytes : Bytes) : Bytes := match l.precision? with
  | none => bytes
  | some n => leadingOctets n bytes

/-! ## Whole numbers -/

/-- The sign of a number. -/
def sign (l : Layout) (negative : Bool) : String :=
  if negative then "-" else if l.plus then "+" else if l.space then " " else ""

/-- How many digits a number has at least: the precision, or else the width less the sign. -/
def leastDigits (l : Layout) (negative : Bool) : Nat := match l.precision? with
  | some p => p
  | none => if l.zero && !l.left then l.width?.getD 0 - (l.sign negative).length else 0

/-- What marks the base of a number. -/
def baseMark (l : Layout) (verb : Char) (base : Nat) (digits : List Char) : String :=
  let own := if verb = 'O' then "0o" else ""
  if !l.alternate then own
  else if base = 2 then own ++ "0b"
  else if base = 8 then own ++ (if digits.head? = some '0' then "" else "0")
  else if base = 16 then own ++ (if verb = 'X' then "0X" else "0x")
  else own

/-- A whole number in a base; a zero with no digits asked for is empty. -/
def inBase (l : Layout) (verb : Char) (base : Nat) (n : Int) : String :=
  if l.precision? = some 0 ∧ n = 0 then l.blank.pad ""
  else
    let negative : Bool := n < 0
    let plain := Nat.toDigits base n.natAbs
    let cased := if verb = 'X' then plain.map Char.toUpper else plain
    let digits := List.replicate (l.leastDigits negative - cased.length) '0' ++ cased
    l.blank.pad (l.sign negative ++ l.baseMark verb base digits ++ String.ofList digits)

/-- The character of a number, replaced if there is none. -/
def character (n : Int) : Char :=
  if n.toNat.isValidChar ∧ 0 ≤ n then Char.ofNat n.toNat else replacement

/-- The code point of a number, in 64 bits, and behind it the character if it is visible and asked
for. -/
def codePoint (l : Layout) (n : Int) : String :=
  let code := (n % 0x10000000000000000).toNat
  let digits := (Nat.toDigits 16 code).map Char.toUpper
  let zeros := List.replicate (max 4 (l.precision?.getD 0) - digits.length) '0'
  let shown := if l.alternate && code.isValidChar && isPrintable (Char.ofNat code) then
    " '" ++ String.singleton (Char.ofNat code) ++ "'" else ""
  l.blank.pad ("U+" ++ String.ofList (zeros ++ digits) ++ shown)

/-- A whole number by a verb. -/
def integer? (l : Layout) (signed : Bool) (n : Int) (verb : Char) : Option String :=
  match verb with
  | 'v' => if l.source && !signed then some ({ l with alternate := true }.inBase 'v' 16 n)
    else some (l.inBase 'v' 10 n)
  | 'd' => some (l.inBase 'd' 10 n)
  | 'b' => some (l.inBase 'b' 2 n)
  | 'o' => some (l.inBase 'o' 8 n)
  | 'O' => some (l.inBase 'O' 8 n)
  | 'x' => some (l.inBase 'x' 16 n)
  | 'X' => some (l.inBase 'X' 16 n)
  | 'c' => some (l.pad (String.singleton (character n)))
  | 'q' => some (l.pad (quotedCharacterIn l.plus (character n)))
  | 'U' => some (l.codePoint n)
  | _ => none

/-- A truth value by a verb. -/
def truth? (l : Layout) (value : Bool) (verb : Char) : Option String :=
  if verb = 't' ∨ verb = 'v' then some (l.pad (if value then "true" else "false")) else none

/-! ## Texts -/

/-- Octets between quotes, or between grave accents if the alternate form is asked for and possible. -/
def quotes (l : Layout) (bytes : Bytes) : String :=
  let kept := l.cutOctets bytes
  if l.alternate && standsRaw kept then l.pad ("\x60" ++ ofBytes kept ++ "\x60")
  else l.pad (quotedBytesIn l.plus kept)

/-- The octets, as many as the precision allows, as hexadecimal digits: in one piece, or octet by
octet. -/
def hexadecimal (l : Layout) (upper : Bool) (bytes : Bytes) : String :=
  let kept := match l.precision? with
    | none => bytes
    | some n => bytes.take n
  let mark := if l.alternate then "0x" else ""
  let digits := if kept.isEmpty then ""
    else if l.space then " ".intercalate (kept.map fun b => mark ++ hexNat 2 b.toNat)
    else mark ++ hex kept
  l.pad (if upper then digits.toUpper else digits)

/-- A text by a verb. -/
def text? (l : Layout) (text : String) (verb : Char) : Option String :=
  match verb with
  | 'v' => some (if l.source then l.quotes (utf8 text) else l.pad (l.cut text))
  | 's' => some (l.pad (l.cut text))
  | 'q' => some (l.quotes (utf8 text))
  | 'x' => some (l.hexadecimal false (utf8 text))
  | 'X' => some (l.hexadecimal true (utf8 text))
  | _ => none

/-- Octets by one of the verbs that take them for a text. -/
def octets? (l : Layout) (bytes : Bytes) (verb : Char) : Option String :=
  match verb with
  | 's' => some (l.pad (ofBytes (l.cutOctets bytes)))
  | 'q' => some (l.quotes bytes)
  | 'x' => some (l.hexadecimal false bytes)
  | 'X' => some (l.hexadecimal true bytes)
  | _ => none

/-- Octets that are no text by one of the verbs of texts. -/
def raw? (l : Layout) (raw : Raw) (verb : Char) : Option String :=
  l.octets? raw.octets (if verb = 'v' then if l.source then 'q' else 's' else verb)

/-- The place that nothing is stored at, by a verb: what a reference to nothing refers to. -/
def nowhere? (l : Layout) (type : String) (verb : Char) : Option String :=
  match verb with
  | 'v' => some (if l.source then "(" ++ type ++ ")(nil)" else l.pad "<nil>")
  | 'p' => some ({ l with alternate := !l.alternate }.inBase 'v' 16 0)
  | 'b' | 'o' | 'd' | 'x' | 'X' => l.integer? false 0 verb
  | _ => none

/-! ## Composed forms -/

/-- A report that a verb does not fit a value. -/
def misfit (verb : Char) (type shown : String) : String :=
  "%!" ++ String.singleton verb ++ "(" ++ type ++ "=" ++ shown ++ ")"

/-- A form by a verb, or a report with the form that suits every value. -/
def fit (type : String) (form? : Char → Option String) (verb : Char) : String :=
  match form? verb with
  | some text => text
  | none => misfit verb type ((form? 'v').getD "")

/-- What stands between the parts of a composed form. -/
def separator (l : Layout) : String := if l.source then ", " else " "

/-- Parts between braces. -/
def braced (l : Layout) (parts : List String) : String :=
  "\x7b" ++ l.separator.intercalate parts ++ "\x7d"

/-- The form of a list. -/
def listed (l : Layout) (type : String) (items : List String) : String :=
  if l.source then type ++ l.braced items else "[" ++ l.separator.intercalate items ++ "]"

/-- The form of a map, its entries in order. -/
def mapped (l : Layout) (type : String) (entries : List (String × String)) : String :=
  let parts := entries.map fun e => e.1 ++ ":" ++ e.2
  if l.source then type ++ l.braced parts else "map[" ++ l.separator.intercalate parts ++ "]"

/-- The form of a record. -/
def record (l : Layout) (type : String) (fields : List (String × String)) : String :=
  let parts := fields.map fun f => if l.source || l.labelled then f.1 ++ ":" ++ f.2 else f.2
  (if l.source then type else "") ++ l.braced parts

end Layout

end DocTable.Text
