import DocTable.Number.Rounding

/-!
# The fewest decimal digits

A number on a binary grid is the nearest grid point to every real of an interval around it.  Its
shortest decimal is the decimal with the fewest digits in that interval, and of those the nearest
to the number, the even one of two.  Numbers are given over a common denominator, so everything
here is exact arithmetic on natural numbers.
-/

namespace DocTable.Number

set_option autoImplicit false

attribute [local instance] Number.corePower

/-- The decimal `digits · 10 ^ exponent`. -/
structure Decimal where
  digits : Nat
  exponent : Int
  deriving DecidableEq, Repr, Inhabited

/-- The reals `low / den … high / den` that belong to `value / den`. -/
structure Interval where
  low : Nat
  value : Nat
  high : Nat
  den : Nat
  closed : Bool
  /-- Whether an open upper end that is the next point on some grid rules out the decimals above the
  value on all finer grids. -/
  guarded : Bool := false

/-- Looks for the least `k` with `value / den < 10 ^ k`, starting at `k`. -/
def decimalPointFrom (value den : Nat) : Nat → Int → Int
  | 0, k => k
  | fuel + 1, k =>
    let below :=
      if 0 ≤ k then value < den * 10 ^ k.toNat else value * 10 ^ (-k).toNat < den
    if below then k else decimalPointFrom value den fuel (k + 1)

/-- The least `k` with `value / den < 10 ^ k`, for a positive value. -/
def decimalPoint (value den : Nat) : Int :=
  let bits : Int := (Nat.log2 value : Int) - (Nat.log2 den : Int)
  decimalPointFrom value den 64 (bits * 30103 / 100000 - 2)

/-- The nearest decimal of the interval on the grid of step `10 ^ exponent`, if there is one; one
above the value only if `rising`. -/
def Interval.onGrid? (i : Interval) (rising : Bool) (exponent : Int) : Option Decimal :=
  let scale := 10 ^ (-exponent).toNat
  let unit := i.den * 10 ^ exponent.toNat
  let q := i.value * scale / unit
  let r := i.value * scale % unit
  let down := if i.closed then i.low * scale ≤ q * unit else i.low * scale < q * unit
  let up := rising ∧
    if i.closed then (q + 1) * unit ≤ i.high * scale else (q + 1) * unit < i.high * scale
  if r = 0 then some ⟨q, exponent⟩
  else if down ∧ up then
    if 2 * r < unit ∨ (2 * r = unit ∧ q % 2 = 0) then some ⟨q, exponent⟩
    else some ⟨q + 1, exponent⟩
  else if down then some ⟨q, exponent⟩
  else if up then some ⟨q + 1, exponent⟩
  else none

/-- Whether the upper end is the next point above the value on the grid of step `10 ^ exponent`. -/
def Interval.endsOn (i : Interval) (exponent : Int) : Bool :=
  let scale := 10 ^ (-exponent).toNat
  let unit := i.den * 10 ^ exponent.toNat
  i.high * scale == (i.value * scale / unit + 1) * unit

/-- Tries finer and finer grids. -/
def Interval.shortestFrom (i : Interval) : Nat → Bool → Int → Decimal
  | 0, _, exponent => ⟨i.value * 10 ^ (-exponent).toNat / (i.den * 10 ^ exponent.toNat), exponent⟩
  | fuel + 1, rising, exponent =>
    match i.onGrid? rising exponent with
    | some d => d
    | none =>
      i.shortestFrom fuel (rising && !(i.guarded && i.endsOn exponent)) (exponent - 1)

/-- Drops trailing zeros of the digits. -/
def Decimal.trimFrom : Nat → Decimal → Decimal
  | 0, d => d
  | fuel + 1, d =>
    if d.digits ≠ 0 ∧ d.digits % 10 = 0 then trimFrom fuel ⟨d.digits / 10, d.exponent + 1⟩ else d

/-- The decimal with the fewest digits in an interval around a positive value. -/
def Interval.shortest (i : Interval) : Decimal :=
  let d := i.shortestFrom 64 true (decimalPoint i.value i.den - 1)
  Decimal.trimFrom 64 d

/-! ## Written forms -/

/-- The digits of a decimal as characters. -/
def Decimal.chars (d : Decimal) : List Char := (toString d.digits).toList

/-- The position of the decimal point counted from the first digit. -/
def Decimal.point (d : Decimal) : Int := (d.chars.length : Int) + d.exponent

/-- Positional notation without an exponent: `0.001`, `12.5`, `1200`. -/
def Decimal.positional (d : Decimal) : String :=
  let cs := d.chars
  let point := d.point
  if point ≤ 0 then
    "0." ++ String.ofList (List.replicate (-point).toNat '0') ++ String.ofList cs
  else if (cs.length : Int) ≤ point then
    String.ofList cs ++ String.ofList (List.replicate (point.toNat - cs.length) '0')
  else
    String.ofList (cs.take point.toNat) ++ "." ++ String.ofList (cs.drop point.toNat)

/-- Scientific notation, the exponent with a sign and at least `width` digits. -/
def Decimal.scientific (width : Nat) (d : Decimal) : String :=
  let cs := d.chars
  let exponent := d.point - 1
  let fraction := if cs.length ≤ 1 then "" else "." ++ String.ofList (cs.drop 1)
  let digits := toString exponent.natAbs
  let pad := String.ofList (List.replicate (width - digits.length) '0')
  String.ofList (cs.take 1) ++ fraction ++ "e" ++ (if exponent < 0 then "-" else "+") ++ pad ++ digits

end DocTable.Number
