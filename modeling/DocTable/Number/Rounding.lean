import DocTable.Number.Power

/-!
# Rounding to nearest, ties to even

Every inexact number of the library comes from one rule: the nearest value on a grid, and of two
nearest ones the one with the even mantissa.  This module states that rule for quotients of natural
numbers and for numbers of the form `mantissa · 2 ^ exponent`.
-/

namespace DocTable.Number

set_option autoImplicit false

attribute [local instance] Number.corePower

/-- The natural number nearest to `num / den`, the even one of two. -/
def roundDiv (num den : Nat) : Nat :=
  let q := num / den
  let r := num % den
  if 2 * r < den then q
  else if den < 2 * r then q + 1
  else if q % 2 = 0 then q
  else q + 1

/-- The number nearest to `num / (den · 2 ^ exponent)`. -/
def roundScaled (num den : Nat) (exponent : Int) : Nat :=
  if 0 ≤ exponent then roundDiv num (den * 2 ^ exponent.toNat)
  else roundDiv (num * 2 ^ (-exponent).toNat) den

/-- The exponent at which a positive quotient `num / den` has a mantissa of `precision` bits. -/
def mantissaExponent (precision num den : Nat) : Int :=
  let e : Int := (Nat.log2 num : Int) - (Nat.log2 den : Int) - (precision : Int)
  let q :=
    if 0 ≤ e then num / (den * 2 ^ e.toNat) else num * 2 ^ (-e).toNat / den
  if q < 2 ^ precision then e else e + 1

/-- A positive number `mantissa · 2 ^ exponent` on the grid of `precision` significant bits, again
as a mantissa of exactly that many bits and an exponent. -/
def roundBits (precision mantissa : Nat) (exponent : Int) : Nat × Int :=
  let length := Nat.log2 mantissa + 1
  if length ≤ precision then
    (mantissa * 2 ^ (precision - length), exponent - ((precision - length : Nat) : Int))
  else
    let shift := length - precision
    let q := roundDiv mantissa (2 ^ shift)
    if q = 2 ^ precision then (2 ^ (precision - 1), exponent + (shift : Int) + 1)
    else (q, exponent + (shift : Int))

/-- A positive quotient `num · 2 ^ exponent / den` on the grid of `precision` significant bits.  The
quotient is taken with bits to spare, and a last odd bit stands for what is left over. -/
def roundQuotient (precision num den : Nat) (exponent : Int) : Nat × Int :=
  let spare := precision + 2 + Nat.log2 den
  let q := num * 2 ^ spare / den
  let rest := if num * 2 ^ spare % den = 0 then 0 else 1
  roundBits precision (2 * q + rest) (exponent - (spare : Int) - 1)

end DocTable.Number
