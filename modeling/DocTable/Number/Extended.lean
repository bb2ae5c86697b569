import DocTable.Number.Rounding
import DocTable.Number.Shortest
import DocTable.Number.Numeral
import DocTable.Number.Integer

/-!
# Numbers with a 64-bit mantissa

The arithmetic of number attributes: a sign, a mantissa of exactly 64 bits and a wide exponent.
Comparison and addition of two such numbers are exact up to the one rounding of the result.  A
text is read with all its digits; a power of ten that it needs is applied as a power of five kept
to 128 bits, so the reading is correctly rounded as long as that power is exact.
-/

namespace DocTable.Number

set_option autoImplicit false

attribute [local instance] Number.corePower

/-- A number attribute's value.  A non-zero mantissa has its 64th bit set; the mantissa zero stands
for the two zeros. -/
inductive Extended where
  | finite (negative : Bool) (mantissa : Nat) (exponent : Int)
  | infinite (negative : Bool)
  deriving DecidableEq, Repr, Inhabited

namespace Extended

/-- The significant bits of a number. -/
def precision : Nat := 64

/-- The largest and, negated and less one, the smallest binary exponent. -/
def exponentLimit : Int := 2147483647

/-- A rounded mantissa with its exponent as a number: too large an exponent gives infinity, too
small a one zero. -/
def ofParts (negative : Bool) (parts : Nat × Int) : Extended :=
  let top := parts.2 + (precision : Int)
  if exponentLimit < top then .infinite negative
  else if top < -exponentLimit - 1 then .finite negative 0 0
  else .finite negative parts.1 parts.2

/-- The number nearest to `± mantissa · 2 ^ exponent`. -/
def round (negative : Bool) (mantissa : Nat) (exponent : Int) : Extended :=
  if mantissa = 0 then .finite negative 0 0
  else ofParts negative (roundBits precision mantissa exponent)

/-! ## Powers of five -/

/-- A positive number with a mantissa of a given precision, or the infinite one. -/
abbrev Power := Option (Nat × Int)

/-- The product of two powers, kept to `bits` bits. -/
def Power.mul (bits : Nat) (x y : Power) : Power := do
  let (m, e) ← x
  let (n, d) ← y
  let (q, f) := roundBits bits (m * n) (e + d)
  if exponentLimit < f + (bits : Int) then none else some (q, f)

/-- Multiplies `power` by `factor ^ n`, by repeated squaring of the factor. -/
def Power.mulPow : Nat → Nat → Power → Power → Power
  | 0, _, power, _ => power
  | fuel + 1, n, power, factor =>
    if n = 0 then power
    else
      let power := if n % 2 = 1 then Power.mul 128 power factor else power
      Power.mulPow fuel (n / 2) power (Power.mul 192 factor factor)

/-- Five to the power `n`, exact up to the 27th and kept to 128 bits beyond it. -/
def powerOfFive (n : Nat) : Power :=
  if n ≤ 27 then some (5 ^ n, 0)
  else Power.mulPow 64 (n - 27) (some (5 ^ (27 : Nat), 0)) (some (5, 0))

/-- The number nearest to `± mantissa · 2 ^ exponent · 5 ^ fives` with the power of five as above. -/
def scale (negative : Bool) (mantissa : Nat) (exponent fives : Int) : Extended :=
  if fives = 0 then round negative mantissa exponent
  else match powerOfFive fives.natAbs with
    | none => if fives < 0 then .finite negative 0 0 else .infinite negative
    | some (m, e) =>
      if fives < 0 then ofParts negative (roundQuotient precision mantissa m (exponent - e))
      else round negative (mantissa * m) (exponent + e)

/-! ## Reading -/

/-- The digits of a mantissa read so far, and what stood before the next character. -/
structure Progress where
  value : Nat
  count : Nat
  places : Nat
  point : Bool
  before : Before
  misplaced : Bool

/-- Reads the digits of a mantissa with at most one point, watching the separators. -/
def readDigitsWithPoint (base : Nat) (p : Progress) : List Char → Progress × List Char
  | [] => (p, [])
  | c :: rest =>
    if c = '.' ∧ !p.point then
      readDigitsWithPoint base
        { p with
          point := true
          before := .other
          misplaced := p.misplaced || p.before == .separator } rest
    else if c = '_' then
      readDigitsWithPoint base
        { p with before := .separator, misplaced := p.misplaced || p.before != .digit } rest
    else match digitOf? base c with
      | none => (p, c :: rest)
      | some d =>
        readDigitsWithPoint base
          { p with
            value := p.value * base + d
            count := p.count + 1
            places := if p.point then p.places + 1 else p.places
            before := .digit } rest

/-- The base that a mark chooses, whether a digit was read with it, and the characters after it. -/
def markedBase : List Char → Nat × Nat × List Char
  | '0' :: mark :: rest =>
    let m := lowerLetter mark
    if m = 'b' then (2, 0, rest)
    else if m = 'o' then (8, 0, rest)
    else if m = 'x' then (16, 0, rest)
    else (10, 1, mark :: rest)
  | '0' :: [] => (10, 1, [])
  | cs => (10, 0, cs)

/-- Whether a mantissa starts with the digit zero, which may be part of a mark. -/
def startsWithZero : List Char → Bool
  | '0' :: _ => true
  | _ => false

/-- Reads the mantissa: its value, base and number of places. -/
def readMantissa? (cs : List Char) : Option ((Nat × Nat × Nat) × List Char) :=
  let (base, count, body) := markedBase cs
  let before : Before := if startsWithZero cs then .digit else .other
  let (p, rest) := readDigitsWithPoint base ⟨0, count, 0, false, before, false⟩ body
  if p.misplaced || p.before == .separator || p.count = 0 then none
  else some ((p.value, base, p.places), rest)

/-- Checks that underscores of an exponent stand between digits. -/
def exponentSeparatorsOk (cs : List Char) : Bool := separatorsBetween false .start cs

/-- Reads an exponent that must end the text: its value and whether it is one of two. -/
def readPower? : List Char → Option (Int × Bool)
  | [] => some (0, false)
  | mark :: rest =>
    let m := lowerLetter mark
    if m = 'e' ∨ m = 'p' then
      let (negative, digits) := takeSign rest
      if digits.all (fun c => isDigit c || c == '_') && exponentSeparatorsOk digits then
        match signedOf 64 negative (readUnsigned 64 (digits.filter (· != '_'))) with
        | .ok e => some (e, m = 'p')
        | .error _ => none
      else none
    else none

/-- The bits that a digit of a base takes. -/
def digitBits (base : Nat) : Nat :=
  if base = 16 then 4 else if base = 8 then 3 else 1

/-- Reads a text other than the names of infinity. -/
def readFinite? (cs : List Char) : Option Extended := do
  let (negative, body) := takeSign cs
  let ((mantissa, base, places), rest) ← readMantissa? body
  let (power, binary) ← readPower? rest
  if mantissa = 0 then return .finite negative 0 0
  else
    let pointFives : Int := if base = 10 then -(places : Int) else 0
    let pointTwos : Int := -((places * digitBits base : Nat) : Int)
    let fives := if binary then pointFives else pointFives + power
    let twos := pointTwos + power
    let top := twos + (Nat.log2 mantissa : Int) + 1
    if exponentLimit < top ∨ top < -exponentLimit - 1 then none
    else return scale negative mantissa twos fives

/-- Reads a text as a number attribute's value. -/
def read? (text : String) : Option Extended :=
  if text = "Inf" ∨ text = "inf" ∨ text = "+Inf" ∨ text = "+inf" then some (.infinite false)
  else if text = "-Inf" ∨ text = "-inf" then some (.infinite true)
  else readFinite? text.toList

/-! ## Order -/

/-- Compares two magnitudes with 64-bit mantissas, zero below all others. -/
def compareMagnitude (m : Nat) (e : Int) (n : Nat) (d : Int) : Ordering :=
  if m = 0 ∨ n = 0 then compare m n
  else (compare e d).then (compare m n)

/-- Compares two numbers; the two zeros are equal. -/
def cmp : Extended → Extended → Ordering
  | .infinite a, .infinite b =>
    if a = b then .eq else if a then .lt else .gt
  | .infinite a, .finite .. => if a then .lt else .gt
  | .finite .., .infinite b => if b then .gt else .lt
  | .finite a m e, .finite b n d =>
    if m = 0 ∧ n = 0 then .eq
    else if m = 0 then if b then .gt else .lt
    else if n = 0 then if a then .lt else .gt
    else match a, b with
      | true, false => .lt
      | false, true => .gt
      | false, false => compareMagnitude m e n d
      | true, true => compareMagnitude n d m e

/-! ## Addition -/

/-- The signed integer of a finite number at the scale `2 ^ least`. -/
def aligned (least : Int) (negative : Bool) (m : Nat) (e : Int) : Int :=
  let n : Nat := m * 2 ^ (e - least).toNat
  if negative then -(n : Int) else n

/-- The sum of two numbers, rounded once; there is none for infinities of opposite signs. -/
def add? : Extended → Extended → Option Extended
  | .infinite a, .infinite b => if a = b then some (.infinite a) else none
  | .infinite a, .finite .. => some (.infinite a)
  | .finite .., .infinite b => some (.infinite b)
  | .finite a m e, .finite b n d =>
    if m = 0 ∧ n = 0 then some (.finite (a && b) 0 0)
    else if n = 0 then some (.finite a m e)
    else if m = 0 then some (.finite b n d)
    else
      let least := min e d
      let sum := aligned least a m e + aligned least b n d
      some (round (sum < 0) sum.natAbs least)

/-! ## Writing -/

/-- The reals nearest to a positive number. -/
def interval (m : Nat) (e : Int) : Interval :=
  let scale := 2 ^ e.toNat
  { low := (2 * m - 1) * scale
    value := 2 * m * scale
    high := (2 * m + 1) * scale
    den := 2 * 2 ^ (-e).toNat
    closed := m % 2 == 0
    guarded := true }

/-- The text of a number: positional, in the fewest digits. -/
def text : Extended → String
  | .infinite negative => if negative then "-Inf" else "+Inf"
  | .finite negative m e =>
    let body := if m = 0 then "0" else (interval m e).shortest.positional
    if negative then "-" ++ body else body

end Extended

end DocTable.Number
