import DocTable.Number.Binary
import DocTable.Text.Layout

/-!
# Laid-out binary numbers

A binary number can be written with an exponent, without one, in whichever of the two is shorter, or
in base two: with hexadecimal digits, or as its mantissa and exponent.  The number of digits is given
or is the least that tells the number from its neighbours.  All digits are those of the exact value,
rounded to nearest and to even.
-/

namespace DocTable.Number

set_option autoImplicit false

attribute [local instance] Number.corePower

/-! ## Digits -/

/-- The decimal digits of `0.d₁d₂… · 10 ^ point`, without a zero at the end; zero has none. -/
structure Digits where
  digits : List Char
  point : Int
  deriving DecidableEq, Repr

namespace Digits

/-- The digits of zero. -/
def zero : Digits := ⟨[], 0⟩

/-- The digits of a decimal. -/
def ofDecimal (d : Decimal) : Digits :=
  if d.digits = 0 then zero
  else ⟨(d.chars.reverse.dropWhile (· == '0')).reverse, d.point⟩

/-- The first `count` of some digits, with zeros behind them up to that number. -/
def filled (count : Nat) (digits : List Char) : List Char :=
  digits.take count ++ List.replicate (count - digits.length) '0'

/-- Digits behind a decimal point, which is left out with them. -/
def fraction (digits : List Char) : String :=
  if digits.isEmpty then "" else "." ++ String.ofList digits

/-- An exponent behind its mark, with a sign and at least two digits. -/
def exponent (mark : String) (e : Int) : String :=
  let digits := toString e.natAbs
  mark ++ (if e < 0 then "-" else "+") ++ (if digits.length < 2 then "0" else "") ++ digits

/-- With an exponent and `places` digits behind the point. -/
def scientific (places : Nat) (d : Digits) : String :=
  String.singleton (d.digits.headD '0') ++ fraction (filled places (d.digits.drop 1)) ++
    exponent "e" (if d.digits.isEmpty then 0 else d.point - 1)

/-- Without an exponent and with `places` digits behind the point. -/
def positional (places : Nat) (d : Digits) : String :=
  let whole := if d.point ≤ 0 then ['0'] else filled d.point.toNat d.digits
  let behind := List.replicate (-d.point).toNat '0' ++ d.digits.drop d.point.toNat
  String.ofList whole ++ fraction (filled places behind)

/-- With an exponent if it is below -4 or reaches `limit`, and without zeros at the end. -/
def general (limit : Int) (d : Digits) : String :=
  let count := d.digits.length
  if d.point - 1 < -4 ∨ limit ≤ d.point - 1 then d.scientific (count - 1)
  else d.positional ((count : Int) - d.point).toNat

end Digits

/-! ## Magnitudes -/

namespace Format

/-- More digits than a finite magnitude of a format has. -/
def mostDigits : Nat := 1100

/-- A magnitude as a quotient. -/
def quotient (f : Format) (magnitude : Nat) : Nat × Nat :=
  let (m, e) := f.magnitude magnitude
  (m * 2 ^ e.toNat, 2 ^ (-e).toNat)

/-- The multiple of `10 ^ exponent` nearest to a magnitude. -/
def onGrid (f : Format) (magnitude : Nat) (exponent : Int) : Digits :=
  let (num, den) := f.quotient magnitude
  .ofDecimal ⟨roundDiv (num * 10 ^ (-exponent).toNat) (den * 10 ^ exponent.toNat), exponent⟩

/-- A magnitude rounded to a number of digits. -/
def significant (f : Format) (count magnitude : Nat) : Digits :=
  let (num, den) := f.quotient magnitude
  if magnitude = 0 then .zero
  else f.onGrid magnitude (decimalPoint num den - (min count mostDigits : Nat))

/-- A magnitude rounded to a number of digits behind the point. -/
def rounded (f : Format) (places magnitude : Nat) : Digits :=
  f.onGrid magnitude (-(min places mostDigits : Nat))

/-- The fewest digits that tell a magnitude from its neighbours. -/
def fewest (f : Format) (magnitude : Nat) : Digits :=
  if magnitude = 0 then .zero else .ofDecimal (f.shortest magnitude)

/-- The shorter form of a magnitude: with an exponent from the millions on, or if there are more
digits before the point than the precision allows. -/
def compact (f : Format) (precision? : Option Nat) (magnitude : Nat) : String :=
  match precision? with
  | none => (f.fewest magnitude).general 6
  | some p =>
    let p := max p 1
    let d := f.significant p magnitude
    let count := d.digits.length
    d.general (if count < p ∧ d.point ≤ count then count else p)

/-- A magnitude in base two with hexadecimal digits behind its first bit. -/
def hexadecimal (f : Format) (precision? : Option Nat) (magnitude : Nat) : String :=
  let (m, e) := f.magnitude magnitude
  let top : Nat := Nat.log2 m
  let unit : Nat := 0x1000000000000000
  let mantissa : Nat := m * 2 ^ (60 - top)
  let (mantissa, carry) : Nat × Int := match precision? with
    | none => (mantissa, 0)
    | some p =>
      let step : Nat := 2 ^ (60 - 4 * p)
      let near := roundDiv mantissa step * step
      if near < 2 * unit then (near, 0) else (near / 2, 1)
  let digits := (Text.hexNat 15 (mantissa % unit)).toList
  let behind := match precision? with
    | none => (digits.reverse.dropWhile (· == '0')).reverse
    | some p => Digits.filled p digits
  "0x" ++ toString (mantissa / unit) ++ Digits.fraction behind ++
    Digits.exponent "p" (if m = 0 then 0 else e + top + carry)

/-- A magnitude as its mantissa and the exponent of its last bit. -/
def scaled (f : Format) (magnitude : Nat) : String :=
  let (m, e) := f.magnitude magnitude
  toString m ++ "p" ++ (if e < 0 then "-" else "+") ++ toString e.natAbs

/-- A finite magnitude by a verb. -/
def unsigned? (f : Format) (precision? : Option Nat) (magnitude : Nat) (verb : Char) :
    Option String :=
  let places := precision?.getD 6
  match verb with
  | 'v' | 'g' => some (f.compact precision? magnitude)
  | 'G' => some (f.compact precision? magnitude).toUpper
  | 'e' => some ((f.significant (places + 1) magnitude).scientific places)
  | 'E' => some ((f.significant (places + 1) magnitude).scientific places).toUpper
  | 'f' | 'F' => some ((f.rounded places magnitude).positional places)
  | 'x' => some (f.hexadecimal precision? magnitude)
  | 'X' => some (f.hexadecimal precision? magnitude).toUpper
  | 'b' => some (f.scaled magnitude)
  | _ => none

end Format

end DocTable.Number

/-! ## Layout -/

namespace DocTable.Text.Layout

set_option autoImplicit false

open Number

/-- A written magnitude with its point, and with zeros up to the number of digits that the verb keeps
in the alternate form. -/
def pointed (l : Layout) (verb : Char) (body : String) : String :=
  let isMark (c : Char) : Bool :=
    c == 'p' || c == 'P' || ((c == 'e' || c == 'E') && verb != 'x' && verb != 'X')
  let head := body.toList.takeWhile (!isMark ·)
  let tail := body.toList.dropWhile (!isMark ·)
  let kept :=
    if verb = 'v' ∨ verb = 'g' ∨ verb = 'G' ∨ verb = 'x' then l.precision?.getD 6 else 0
  let counted := ((head.filter (· != '.')).dropWhile (· == '0')).length
  let counted := if head = ['0'] then counted + 1 else counted
  let point := if head.contains '.' then [] else ['.']
  String.ofList (head ++ point ++ List.replicate (kept - counted) '0' ++ tail)

/-- A written magnitude behind its sign; zeros stand between the two. -/
def signed (l : Layout) (negative : Bool) (body : String) : String :=
  let sign := l.sign negative
  if l.zero && !l.left && sign != "" then
    let room := l.width?.getD 0 - sign.length - body.length
    sign ++ String.ofList (List.replicate room '0') ++ body
  else l.pad (sign ++ body)

/-- A binary number by a verb. -/
def float? (l : Layout) (f : Format) (bits : Nat) (verb : Char) : Option String :=
  match f.unsigned? l.precision? (f.magnitudePart bits) verb with
  | none => none
  | some body =>
    let negative := f.isNegative bits
    if f.isNaN bits then some (l.blank.pad (l.sign false ++ "NaN"))
    else if f.isInfinite bits then
      let sign := if negative then "-" else if l.space && !l.plus then " " else "+"
      some (l.blank.pad (sign ++ "Inf"))
    else some (l.signed negative (if l.alternate && verb != 'b' then l.pointed verb body else body))

end DocTable.Text.Layout
