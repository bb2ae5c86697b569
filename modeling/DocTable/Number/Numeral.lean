/-!
# Numerals

The written forms of numbers: decimal digits with a point and an exponent, hexadecimal digits with
a binary exponent, underscores between digits, and the names of infinity and not-a-number.  A
numeral is read into the exact number it denotes; rounding is a later step.
-/

namespace DocTable.Number

set_option autoImplicit false

/-- The value of a digit in bases up to 36, letters of either case. -/
def digitValue? (c : Char) : Option Nat :=
  if '0' ≤ c ∧ c ≤ '9' then some (c.toNat - 48)
  else if 'a' ≤ c ∧ c ≤ 'z' then some (c.toNat - 87)
  else if 'A' ≤ c ∧ c ≤ 'Z' then some (c.toNat - 55)
  else none

/-- The value of a digit of a base. -/
def digitOf? (base : Nat) (c : Char) : Option Nat :=
  match digitValue? c with
  | some d => if d < base then some d else none
  | none => none

/-- Whether a character is a decimal digit. -/
def isDigit (c : Char) : Bool := '0' ≤ c && c ≤ '9'

/-- A letter in lower case, other characters unchanged. -/
def lowerLetter (c : Char) : Char :=
  if 'A' ≤ c ∧ c ≤ 'Z' then Char.ofNat (c.toNat + 32) else c

/-! ## Signs and separators -/

/-- Takes an optional sign off, and tells whether it was a minus. -/
def takeSign : List Char → Bool × List Char
  | '-' :: rest => (true, rest)
  | '+' :: rest => (false, rest)
  | cs => (false, cs)

/-- What stood before a character, as far as separators are concerned. -/
inductive Before where
  | start
  | digit
  | separator
  | other
  deriving DecidableEq

/-- Whether every underscore stands between two digits. -/
def separatorsBetween (hexadecimal : Bool) : Before → List Char → Bool
  | before, [] => before != .separator
  | before, c :: rest =>
    if isDigit c || (hexadecimal && (digitOf? 16 c).isSome) then
      separatorsBetween hexadecimal .digit rest
    else if c = '_' then
      before == .digit && separatorsBetween hexadecimal .separator rest
    else before != .separator && separatorsBetween hexadecimal .other rest

/-- Whether the underscores of a numeral are placed well; a base mark counts as a digit. -/
def separatorsOk (cs : List Char) : Bool :=
  match (takeSign cs).2 with
  | '0' :: mark :: rest =>
    let m := lowerLetter mark
    if m = 'b' ∨ m = 'o' ∨ m = 'x' then separatorsBetween (m = 'x') .digit rest
    else separatorsBetween false .start ('0' :: mark :: rest)
  | body => separatorsBetween false .start body

/-! ## Exact readings -/

/-- The exact number `± mantissa · radix ^ exponent`. -/
structure Numeral where
  negative : Bool
  mantissa : Nat
  radix : Nat
  exponent : Int
  deriving DecidableEq, Repr

/-- What a text that is meant as a number denotes. -/
inductive Literal where
  | notANumber
  | infinite (negative : Bool)
  | finite (numeral : Numeral)
  deriving DecidableEq, Repr

/-- The digits read so far: their value, how many followed the point, and whether there was a digit
or a point at all. -/
structure Mantissa where
  value : Nat
  places : Nat
  digits : Bool
  point : Bool

/-- Reads digits of a base with at most one point; underscores are skipped. -/
def readMantissa (base : Nat) (m : Mantissa) : List Char → Mantissa × List Char
  | [] => (m, [])
  | c :: rest =>
    if c = '_' then readMantissa base m rest
    else if c = '.' then
      if m.point then (m, c :: rest) else readMantissa base { m with point := true } rest
    else match digitOf? base c with
      | some d =>
        readMantissa base
          { m with
            value := m.value * base + d
            places := if m.point then m.places + 1 else m.places
            digits := true } rest
      | none => (m, c :: rest)

/-- Reads the digits of an exponent; digits beyond the fifth change nothing, for no number that is
written with them is in range. -/
def readExponentDigits (e : Nat) : List Char → Nat × List Char
  | [] => (e, [])
  | c :: rest =>
    if c = '_' then readExponentDigits e rest
    else if isDigit c then
      readExponentDigits (if e < 10000 then e * 10 + (c.toNat - 48) else e) rest
    else (e, c :: rest)

/-- Reads an exponent after its mark: an optional sign and at least one digit, the first of which
is no underscore. -/
def readExponent? (cs : List Char) : Option (Int × List Char) :=
  let (negative, rest) := takeSign cs
  match rest with
  | c :: _ =>
    if isDigit c then
      let (e, rest) := readExponentDigits 0 rest
      some (if negative then -(e : Int) else e, rest)
    else none
  | [] => none

/-- Reads a numeral that must be the whole text. -/
def readNumeral? (cs : List Char) : Option Numeral :=
  let (negative, body) := takeSign cs
  let (base, mark, body) : Nat × Char × List Char :=
    match body with
    | '0' :: x :: c :: rest => if lowerLetter x = 'x' then (16, 'p', c :: rest) else (10, 'e', body)
    | _ => (10, 'e', body)
  let (m, rest) := readMantissa base ⟨0, 0, false, false⟩ body
  let wellSeparated := !cs.contains '_' || separatorsOk cs
  if !m.digits || !wellSeparated then none
  else
    let places : Int := if base = 16 then 4 * (m.places : Int) else m.places
    let radix := if base = 16 then 2 else 10
    match rest with
    | [] => if base = 16 then none else some ⟨negative, m.value, radix, -places⟩
    | c :: rest =>
      if lowerLetter c = mark then
        match readExponent? rest with
        | some (e, []) => some ⟨negative, m.value, radix, e - places⟩
        | _ => none
      else none

/-- Reads a number in any of its written forms. -/
def readLiteral? (text : String) : Option Literal :=
  let cs := text.toList
  let (negative, body) := takeSign cs
  let name := String.ofList (body.map lowerLetter)
  if name = "inf" ∨ name = "infinity" then some (.infinite negative)
  else if String.ofList (cs.map lowerLetter) = "nan" then some .notANumber
  else (readNumeral? cs).map .finite

end DocTable.Number
