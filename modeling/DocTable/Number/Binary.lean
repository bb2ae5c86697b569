import DocTable.Number.Rounding
import DocTable.Number.Shortest
import DocTable.Number.Numeral

/-!
# Binary interchange numbers

The double and single formats by their bits.  A format has a precision and a number of exponent
bits; the bits of a finite magnitude `mantissa · 2 ^ exponent` are the number
`(exponent - least) · 2 ^ (precision - 1) + mantissa`, for normal and subnormal numbers alike, so
the order of magnitudes is the order of their bits.
-/

namespace DocTable.Number

set_option autoImplicit false

attribute [local instance] Number.corePower

/-- A binary format: significant bits and exponent bits. -/
structure Format where
  precision : Nat
  exponentBits : Nat

namespace Format

/-- The double format. -/
def double : Format := ⟨53, 11⟩

/-- The single format. -/
def single : Format := ⟨24, 8⟩

/-- The exponent of the last bit of the least magnitudes. -/
def leastExponent (f : Format) : Int :=
  3 - ((2 ^ (f.exponentBits - 1) : Nat) : Int) - (f.precision : Int)

/-- The bits of the infinite magnitude. -/
def infinityBits (f : Format) : Nat := (2 ^ f.exponentBits - 1) * 2 ^ (f.precision - 1)

/-- The bits of the sign. -/
def signBits (f : Format) : Nat := 2 ^ (f.exponentBits + f.precision - 1)

/-- The bits of the magnitude nearest to `num / den`, or none if it is beyond every finite one. -/
def magnitudeBits? (f : Format) (num den : Nat) : Option Nat :=
  if num = 0 then some 0
  else
    let exponent := max (mantissaExponent f.precision num den) f.leastExponent
    let mantissa := roundScaled num den exponent
    let bits := (exponent - f.leastExponent).toNat * 2 ^ (f.precision - 1) + mantissa
    if bits < f.infinityBits then some bits else none

/-- The mantissa and exponent of a finite magnitude. -/
def magnitude (f : Format) (bits : Nat) : Nat × Int :=
  let unit := 2 ^ (f.precision - 1)
  let field := bits / unit
  if field = 0 then (bits, f.leastExponent)
  else (unit + bits % unit, f.leastExponent + (field : Int) - 1)

/-- The reals nearest to a positive finite magnitude.  Below a power of two the grid is finer. -/
def interval (f : Format) (bits : Nat) : Interval :=
  let (m, e) := f.magnitude bits
  let boundary : Bool := m == 2 ^ (f.precision - 1) && f.leastExponent < e
  let scale := 2 ^ e.toNat
  let den := 4 * 2 ^ (-e).toNat
  { low := (4 * m - if boundary then 1 else 2) * scale
    value := 4 * m * scale
    high := (4 * m + 2) * scale
    den := den
    closed := m % 2 == 0 }

/-- The shortest decimal of a positive finite magnitude. -/
def shortest (f : Format) (bits : Nat) : Decimal := (f.interval bits).shortest

end Format

/-! ## Doubles and singles -/

/-- A number of the double format. -/
structure Binary64 where
  bits : UInt64
  deriving DecidableEq, Repr, Inhabited

/-- A number of the single format. -/
structure Binary32 where
  bits : UInt32
  deriving DecidableEq, Repr, Inhabited

/-- Why a text does not give a number of a format. -/
inductive Fault where
  | malformed
  | outOfRange
  deriving DecidableEq, Repr

/-- The wording of a fault. -/
def Fault.message : Fault → String
  | .malformed => "invalid syntax"
  | .outOfRange => "value out of range"

namespace Format

/-- The bits of a numeral rounded to the format. -/
def numeralBits? (f : Format) (n : Numeral) : Option Nat :=
  let power := n.radix ^ n.exponent.natAbs
  let bits? :=
    if 0 ≤ n.exponent then f.magnitudeBits? (n.mantissa * power) 1
    else f.magnitudeBits? n.mantissa power
  bits?.map fun bits => if n.negative then f.signBits + bits else bits

/-- The bits of a text read as a number of the format. -/
def read (f : Format) (text : String) : Except Fault Nat :=
  match readLiteral? text with
  | none => .error .malformed
  | some .notANumber => .ok (f.infinityBits + 2 ^ (f.precision - 2) + 1)
  | some (.infinite negative) =>
    .ok (if negative then f.signBits + f.infinityBits else f.infinityBits)
  | some (.finite n) =>
    match f.numeralBits? n with
    | some bits => .ok bits
    | none => .error .outOfRange

/-- The bits without the sign. -/
def magnitudePart (f : Format) (bits : Nat) : Nat := bits % f.signBits

/-- Whether bits stand for not-a-number. -/
def isNaN (f : Format) (bits : Nat) : Bool := f.infinityBits < f.magnitudePart bits

/-- Whether bits stand for an infinity. -/
def isInfinite (f : Format) (bits : Nat) : Bool := f.magnitudePart bits == f.infinityBits

/-- Whether the sign is set. -/
def isNegative (f : Format) (bits : Nat) : Bool := f.signBits ≤ bits

/-- Writes a number with a printer for the shortest decimal of a positive finite magnitude. -/
def write (f : Format) (finite : Decimal → String) (bits : Nat) : String :=
  if f.isNaN bits then "NaN"
  else if f.isInfinite bits then if f.isNegative bits then "-Inf" else "+Inf"
  else
    let magnitude := f.magnitudePart bits
    let body := if magnitude = 0 then "0" else finite (f.shortest magnitude)
    if f.isNegative bits then "-" ++ body else body

/-- Positional notation. -/
def positional (f : Format) (bits : Nat) : String := f.write Decimal.positional bits

/-- General notation, as a value is displayed: positional for decimal exponents from -4 to 5,
scientific otherwise. -/
def general (f : Format) (bits : Nat) : String :=
  f.write (fun d =>
    let exponent := d.point - 1
    if exponent < -4 ∨ 6 ≤ exponent then d.scientific 2 else d.positional) bits

/-- Interchange notation: positional from one millionth up to 10^21, scientific otherwise with an
exponent as short as possible. -/
def interchange (f : Format) (bits : Nat) : String :=
  f.write (fun d =>
    let exponent := d.point - 1
    if exponent < -6 ∨ 21 ≤ exponent then d.scientific (if exponent < 0 then 1 else 2)
    else d.positional) bits

end Format

namespace Binary64

/-- The double nearest to a text. -/
def read (text : String) : Except Fault Binary64 :=
  (Format.double.read text).map fun bits => ⟨UInt64.ofNat bits⟩

/-- Whether a double is not a number. -/
def isNaN (x : Binary64) : Bool := Format.double.isNaN x.bits.toNat

/-- Whether a double is an infinity. -/
def isInfinite (x : Binary64) : Bool := Format.double.isInfinite x.bits.toNat

/-- Whether the sign of a double is set. -/
def isNegative (x : Binary64) : Bool := Format.double.isNegative x.bits.toNat

/-- Whether a double is finite. -/
def isFinite (x : Binary64) : Bool := !x.isNaN && !x.isInfinite

/-- Whether two doubles are the same number: the zeros are, and not-a-number is not even itself. -/
def sameNumber (x y : Binary64) : Bool :=
  !x.isNaN && !y.isNaN &&
    (x.bits == y.bits || Format.double.magnitudePart (x.bits ||| y.bits).toNat == 0)

/-- A double without an exponent, in the fewest digits. -/
def positional (x : Binary64) : String := Format.double.positional x.bits.toNat

/-- A double as a displayed value. -/
def general (x : Binary64) : String := Format.double.general x.bits.toNat

/-- A double as a JSON number. -/
def interchange (x : Binary64) : String := Format.double.interchange x.bits.toNat

/-- The integer part of a finite double, toward zero. -/
def truncate (x : Binary64) : Int :=
  let (m, e) := Format.double.magnitude (Format.double.magnitudePart x.bits.toNat)
  let n : Nat := if 0 ≤ e then m * 2 ^ e.toNat else m / 2 ^ (-e).toNat
  if x.isNegative then -(n : Int) else n

/-- The integer that a finite double is, if it is one. -/
def integer? (x : Binary64) : Option Int :=
  let (m, e) := Format.double.magnitude (Format.double.magnitudePart x.bits.toNat)
  if !x.isFinite then none
  else if 0 ≤ e ∨ m % 2 ^ (-e).toNat = 0 then some x.truncate
  else none

/-- The double nearest to an integer of at most 64 bits. -/
def ofInt (n : Int) : Binary64 :=
  match Format.double.magnitudeBits? n.natAbs 1 with
  | some bits => ⟨UInt64.ofNat (if n < 0 then Format.double.signBits + bits else bits)⟩
  | none => ⟨UInt64.ofNat Format.double.infinityBits⟩

end Binary64

namespace Binary32

/-- The single nearest to the double nearest to a text. -/
def read (text : String) : Except Fault Binary32 :=
  (Format.single.read text).map fun bits => ⟨UInt32.ofNat bits⟩

/-- The double of the same value. -/
def toDouble (x : Binary32) : Binary64 :=
  let f := Format.single
  let bits := x.bits.toNat
  let magnitude : Nat :=
    if f.isNaN bits then Format.double.infinityBits + 0x8000000000000 + 1
    else if f.isInfinite bits then Format.double.infinityBits
    else
      let (m, e) := f.magnitude (f.magnitudePart bits)
      let exact :=
        if 0 ≤ e then Format.double.magnitudeBits? (m * 2 ^ e.toNat) 1
        else Format.double.magnitudeBits? m (2 ^ (-e).toNat)
      exact.getD 0
  ⟨UInt64.ofNat (if f.isNegative bits then Format.double.signBits + magnitude else magnitude)⟩

/-- A single as a displayed value. -/
def general (x : Binary32) : String := Format.single.general x.bits.toNat

/-- A single as a JSON number. -/
def interchange (x : Binary32) : String := Format.single.interchange x.bits.toNat

end Binary32

end DocTable.Number
