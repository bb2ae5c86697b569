import DocTable.Attribute.Compare
import DocTable.Number.Integer

/-!
# Integers among the numbers of attributes

The decimal text of an integer of 64 bits is read as the integer again (`readSigned_toString`).

Integers of up to 64 bits are numbers of attributes without any rounding.  The number of an integer
(`Extended.ofInt`) is what the integer's decimal text is read as (`Extended.read?_toString`), and its
text is that decimal text again (`Extended.text_ofInt`): around an integer there is room for no other
point of a grid of whole numbers, so the shortest decimal is the integer itself, trailing zeros apart.

Comparing and adding are exact as well (`compareNumbers?_toString`, `AttributeValue.add_integers`).
-/

namespace DocTable.Number

set_option autoImplicit false

attribute [local instance] Number.corePower

/-! ## Decimal texts of integers -/

theorem digitOf?_of_isDigit {c : Char} (digit : c.isDigit = true) :
    digitOf? 10 c = some (c.toNat - 48) := by
  have bounds : 48 ≤ c.toNat ∧ c.toNat ≤ 57 := by
    simpa [Char.isDigit, UInt32.le_iff_toNat_le] using digit
  have range : '0' ≤ c ∧ c ≤ '9' := bounds
  have small : c.toNat - 48 < 10 := by omega
  rw [digitOf?, digitValue?, if_pos range]
  exact if_pos small

/-- The first digit of a positive number is not zero. -/
theorem head_toDigits {n : Nat} (positive : 0 < n) :
    ∃ c rest, Nat.toDigits 10 n = c :: rest ∧ c ≠ '0' := by
  induction n using Nat.strongRecOn with
  | ind n ih =>
    rw [Nat.toDigits_eq_if (by decide)]
    split
    · refine ⟨n.digitChar, [], rfl, ?_⟩
      rw [ne_eq, Nat.digitChar_eq_zero]
      omega
    · obtain ⟨c, rest, first, nonzero⟩ := ih (n / 10) (by omega) (by omega)
      exact ⟨c, rest ++ [(n % 10).digitChar], by rw [first, List.cons_append], nonzero⟩

/-- Zeros behind the digits multiply by powers of ten. -/
theorem toDigits_mul_pow {n : Nat} (positive : 0 < n) (k : Nat) :
    Nat.toDigits 10 (n * 10 ^ k) = Nat.toDigits 10 n ++ List.replicate k '0' := by
  induction k with
  | zero => simp
  | succ k ih =>
    have power : 0 < n * 10 ^ k := Nat.mul_pos positive (Nat.pow_pos (by decide))
    have last := Nat.toDigits_append_toDigits (b := 10) (n := n * 10 ^ k) (d := 0) (by decide) power
      (by decide)
    rw [Nat.toDigits_zero, ih] at last
    rw [List.replicate_succ', ← List.append_assoc, last, Nat.pow_succ]
    congr 1
    rw [Nat.add_zero, Nat.mul_comm 10, Nat.mul_assoc]

theorem toList_toString (n : Int) :
    (toString n).toList = (if n < 0 then ['-'] else []) ++ Nat.toDigits 10 n.natAbs := by
  cases n with
  | ofNat m =>
    have text : toString (Int.ofNat m) = m.repr := rfl
    have sign : ¬Int.ofNat m < 0 := Int.not_lt.mpr (Int.natCast_nonneg m)
    rw [text, if_neg sign, Nat.toList_repr]
    rfl
  | negSucc m =>
    have text : toString (Int.negSucc m) = "-" ++ (m + 1).repr := rfl
    have sign : Int.negSucc m < 0 := by omega
    rw [text, if_pos sign, String.toList_append, Nat.toList_repr]
    rfl

theorem isDigit_toDigits (n : Nat) : ∀ c ∈ Nat.toDigits 10 n, c.isDigit = true :=
  fun _ member => Nat.isDigit_of_mem_toDigits (by decide) (by decide) member

/-- The text of an integer has the sign and the digits of the integer. -/
theorem takeSign_toString (n : Int) :
    takeSign (toString n).toList = (decide (n < 0), Nat.toDigits 10 n.natAbs) := by
  have digits := isDigit_toDigits n.natAbs
  rw [toList_toString]
  split
  · rename_i negative
    simp [takeSign, negative]
  · rename_i positive
    rw [List.nil_append, takeSign.eq_def]
    split
    · rename_i rest there
      exact absurd (digits '-' (there ▸ List.mem_cons_self)) (by decide)
    · rename_i rest there
      exact absurd (digits '+' (there ▸ List.mem_cons_self)) (by decide)
    · simp [positive]

/-! ## Reading integers -/

theorem le_ofDigitChars (cs : List Char) (value : Nat) : value ≤ Nat.ofDigitChars 10 cs value := by
  induction cs generalizing value with
  | nil => simp
  | cons c rest ih =>
    rw [Nat.ofDigitChars_cons]
    have later := ih (10 * value + (c.toNat - '0'.toNat))
    omega

/-- Digits are read as their number if it is within the limit, whether separators are allowed or not. -/
theorem readDigits_digits {cs : List Char} (digits : ∀ c ∈ cs, c.isDigit = true) (separators : Bool)
    {limit value : Nat} (start : value ≤ limit) :
    readDigits 10 limit separators value cs =
      if Nat.ofDigitChars 10 cs value ≤ limit then .ok (Nat.ofDigitChars 10 cs value)
      else .error .outOfRange := by
  induction cs generalizing value with
  | nil => exact (if_pos start).symm
  | cons c rest ih =>
    obtain ⟨digit, others⟩ := List.forall_mem_cons.mp digits
    have noSeparator : ¬(c = '_' ∧ separators = true) := by
      rintro ⟨rfl, -⟩
      cases digit
    have next : value * 10 + (c.toNat - 48) = 10 * value + (c.toNat - '0'.toNat) := by
      rw [Nat.mul_comm]
      rfl
    have grown := le_ofDigitChars rest (10 * value + (c.toNat - '0'.toNat))
    rw [readDigits, if_neg noSeparator, digitOf?_of_isDigit digit, Nat.ofDigitChars_cons]
    simp only [next]
    by_cases within : 10 * value + (c.toNat - '0'.toNat) ≤ limit
    · rw [if_neg (Nat.not_lt.mpr within), ih others within]
    · rw [if_pos (Nat.not_le.mp within), if_neg fun below => within (Nat.le_trans grown below)]

/-- The text of an integer of 64 bits is read as the integer. -/
theorem readSigned_toString {n : Int} (least : -9223372036854775808 ≤ n) (most : n ≤ 9223372036854775807) :
    readSigned 64 (toString n) = .ok n := by
  have value : Nat.ofDigitChars 10 (Nat.toDigits 10 n.natAbs) 0 = n.natAbs := Nat.ofDigitChars_ten_toDigits
  have filled : (Nat.toDigits 10 n.natAbs).isEmpty = false := by simp
  have limit : n.natAbs ≤ 2 ^ 64 - 1 := by
    show n.natAbs ≤ 18446744073709551615
    omega
  have read : readUnsigned 64 (Nat.toDigits 10 n.natAbs) = .ok n.natAbs := by
    have digits := readDigits_digits (isDigit_toDigits n.natAbs) false (Nat.zero_le (2 ^ 64 - 1))
    rw [readUnsigned, filled, if_neg Bool.false_ne_true, digits, value, if_pos limit]
  have bound : (2 : Nat) ^ (64 - 1) = 9223372036854775808 := rfl
  rw [readSigned, takeSign_toString]
  simp only [read, signedOf, bound]
  by_cases negative : n < 0
  · rw [if_pos (by simpa using negative), if_neg (by omega), Int.ofNat_natAbs_of_nonpos (by omega), Int.neg_neg]
  · rw [if_neg (by simpa using negative), if_neg (by omega), Int.natAbs_of_nonneg (by omega)]

namespace Extended

/-! ## Reading numbers -/

/-- The number of an integer. -/
def ofInt (n : Int) : Extended := round (n < 0) n.natAbs 0

theorem readDigitsWithPoint_digits {cs : List Char} (digits : ∀ c ∈ cs, c.isDigit = true)
    {p : Progress} (whole : p.point = false) :
    readDigitsWithPoint 10 p cs =
      ({ p with
          value := Nat.ofDigitChars 10 cs p.value
          count := p.count + cs.length
          before := if cs.isEmpty then p.before else .digit }, []) := by
  induction cs generalizing p with
  | nil => simp [readDigitsWithPoint]
  | cons c rest ih =>
    have digit := digits c List.mem_cons_self
    have noPoint : ¬(c = '.' ∧ (!p.point) = true) := by
      rintro ⟨rfl, _⟩
      cases digit
    have noSeparator : c ≠ '_' := by
      rintro rfl
      cases digit
    rw [readDigitsWithPoint, if_neg noPoint, if_neg noSeparator, digitOf?_of_isDigit digit]
    simp only [whole, Bool.false_eq_true, if_false]
    rw [ih (fun c member => digits c (List.mem_cons_of_mem _ member)) rfl]
    simp only [Nat.ofDigitChars_cons, List.length_cons, List.isEmpty_cons, Bool.false_eq_true, if_false,
      Nat.mul_comm 10, Prod.mk.injEq, Progress.mk.injEq, and_true, true_and]
    exact ⟨rfl, by omega, ite_self _⟩

theorem readMantissa?_toDigits (n : Nat) :
    readMantissa? (Nat.toDigits 10 n) = some ((n, 10, 0), []) := by
  rcases Nat.eq_zero_or_pos n with rfl | positive
  · rw [Nat.toDigits_zero]
    rfl
  · have digits := isDigit_toDigits n
    have value : Nat.ofDigitChars 10 (Nat.toDigits 10 n) 0 = n := Nat.ofDigitChars_ten_toDigits
    obtain ⟨c, rest, first, nonzero⟩ := head_toDigits positive
    have unmarked : markedBase (Nat.toDigits 10 n) = (10, 0, Nat.toDigits 10 n) := by
      rw [first, markedBase.eq_def]
      split <;> simp_all
    have noZero : startsWithZero (Nat.toDigits 10 n) = false := by
      rw [first, startsWithZero.eq_def]
      split <;> simp_all
    rw [readMantissa?, unmarked, noZero]
    dsimp only
    rw [readDigitsWithPoint_digits digits rfl, value]
    simp [first]

/-- A text without letters is no name of infinity. -/
theorem read?_eq_readFinite? {text : String} (noLetter : 'f' ∉ text.toList) :
    read? text = readFinite? text.toList := by
  have other : ∀ name : String, 'f' ∈ name.toList → text ≠ name := by
    rintro name member rfl
    exact noLetter member
  rw [read?, if_neg, if_neg]
  · simp only [other "-Inf" (by decide), other "-inf" (by decide), or_self, not_false_eq_true]
  · simp only [other "Inf" (by decide), other "inf" (by decide), other "+Inf" (by decide),
      other "+inf" (by decide), or_self, not_false_eq_true]

/-- The text of an integer is read as the integer. -/
theorem read?_toString {n : Int} (bound : n.natAbs < UInt64.size) : read? (toString n) = some (ofInt n) := by
  have digits := isDigit_toDigits n.natAbs
  have noLetter : 'f' ∉ (toString n).toList := by
    rw [toList_toString, List.mem_append]
    rintro (sign | member)
    · split at sign <;> simp at sign
    · exact absurd (digits 'f' member) (by decide)
  rw [read?_eq_readFinite? noLetter, readFinite?, takeSign_toString]
  simp only [readMantissa?_toDigits, readPower?, ofInt, bind, Option.bind, pure]
  by_cases zero : n.natAbs = 0
  · simp [zero, round]
  · have bits : Nat.log2 n.natAbs < 64 := (Nat.log2_lt zero).mpr bound
    rw [if_neg zero, if_neg]
    · simp [scale]
    · simp only [exponentLimit]
      omega

/-! ## The form of an integer -/

/-- How far an integer is shifted to have a mantissa of 64 bits. -/
def shift (x : Nat) : Nat := 63 - Nat.log2 x

theorem mul_pow_ne_zero {x : Nat} (nonzero : x ≠ 0) (k : Nat) : x * 2 ^ k ≠ 0 :=
  Nat.mul_ne_zero nonzero (Nat.ne_of_gt (Nat.two_pow_pos k))

theorem log2_mul_pow {x : Nat} (nonzero : x ≠ 0) (k : Nat) :
    Nat.log2 (x * 2 ^ k) = Nat.log2 x + k := by
  induction k with
  | zero => rw [Nat.pow_zero, Nat.mul_one, Nat.add_zero]
  | succ k ih =>
    have shifted : x * 2 ^ (k + 1) = 2 * (x * 2 ^ k) := by
      rw [Nat.pow_succ, ← Nat.mul_assoc, Nat.mul_comm]
    rw [shifted, Nat.log2_two_mul (mul_pow_ne_zero nonzero k), ih, Nat.add_assoc]

theorem roundDiv_mul (a : Nat) {b : Nat} (positive : 0 < b) : roundDiv (a * b) b = a := by
  simp [roundDiv, Nat.mul_div_cancel _ positive, positive]

/-- A number of up to 64 bits is rounded to itself, however it is shifted. -/
theorem roundBits_mul_pow {x : Nat} (nonzero : x ≠ 0) (bound : x < UInt64.size) (k : Nat) :
    roundBits precision (x * 2 ^ k) (-(k : Int)) = (x * 2 ^ shift x, -(shift x : Int)) := by
  have bits : Nat.log2 x < 64 := (Nat.log2_lt nonzero).mpr bound
  have width : precision = 64 := rfl
  rw [roundBits, log2_mul_pow nonzero]
  by_cases fits : Nat.log2 x + k + 1 ≤ precision
  · have split : shift x = k + (precision - (Nat.log2 x + k + 1)) := by
      rw [shift]
      omega
    rw [if_pos fits, split, Nat.pow_add, ← Nat.mul_assoc]
    congr 1
    omega
  · have split : k = shift x + (Nat.log2 x + k + 1 - precision) := by
      rw [shift]
      omega
    have product : x * 2 ^ k = x * 2 ^ shift x * 2 ^ (Nat.log2 x + k + 1 - precision) := by
      rw [Nat.mul_assoc, ← Nat.pow_add, ← split]
    have small : x * 2 ^ shift x ≠ 2 ^ precision := by
      have upper : x * 2 ^ shift x < 2 ^ (Nat.log2 x + 1) * 2 ^ shift x :=
        Nat.mul_lt_mul_of_pos_right Nat.lt_log2_self (Nat.two_pow_pos _)
      have whole : Nat.log2 x + 1 + shift x = precision := by
        rw [shift]
        omega
      rw [← Nat.pow_add, whole] at upper
      exact Nat.ne_of_lt upper
    rw [if_neg fits, product]
    dsimp only
    rw [roundDiv_mul _ (Nat.two_pow_pos _), if_neg small]
    congr 1
    omega

theorem round_mul_pow {x : Nat} (nonzero : x ≠ 0) (bound : x < UInt64.size) (negative : Bool) (k : Nat) :
    round negative (x * 2 ^ k) (-(k : Int)) = .finite negative (x * 2 ^ shift x) (-(shift x : Int)) := by
  have small : shift x ≤ 63 := Nat.sub_le _ _
  have width : precision = 64 := rfl
  rw [round, if_neg (mul_pow_ne_zero nonzero k), roundBits_mul_pow nonzero bound, ofParts]
  dsimp only
  rw [if_neg, if_neg]
  · rw [exponentLimit]
    omega
  · rw [exponentLimit]
    omega

variable {m n : Int}

theorem ofInt_of_ne_zero (nonzero : n ≠ 0) (bound : n.natAbs < UInt64.size) :
    ofInt n = .finite (n < 0) (n.natAbs * 2 ^ shift n.natAbs) (-(shift n.natAbs : Int)) := by
  have form := round_mul_pow (Int.natAbs_ne_zero.mpr nonzero) bound (n < 0) 0
  rw [Nat.pow_zero, Nat.mul_one] at form
  exact form

theorem mantissa_ne_zero (nonzero : n ≠ 0) (k : Nat) : n.natAbs * 2 ^ k ≠ 0 :=
  mul_pow_ne_zero (Int.natAbs_ne_zero.mpr nonzero) k

/-! ## Order -/

theorem compareMagnitude_eq {x y : Nat} {e d : Int} (nonzeroX : x ≠ 0) (nonzeroY : y ≠ 0)
    (same : compareMagnitude x e y d = .eq) : x = y ∧ e = d := by
  rw [compareMagnitude, if_neg (by simp [nonzeroX, nonzeroY]), Ordering.then_eq_eq] at same
  exact ⟨Nat.compare_eq_eq.mp same.2, Std.compare_eq_iff_eq.mp same.1⟩

theorem compareMagnitude_self (x : Nat) (e : Int) : compareMagnitude x e x e = .eq := by
  rw [compareMagnitude]
  split <;> simp

/-- Numbers of integers are equal if the integers are. -/
theorem cmp_ofInt (boundM : m.natAbs < UInt64.size) (boundN : n.natAbs < UInt64.size) :
    cmp (ofInt m) (ofInt n) = .eq ↔ m = n := by
  have zero : ofInt 0 = .finite false 0 0 := rfl
  by_cases zeroM : m = 0 <;> by_cases zeroN : n = 0
  · subst zeroM zeroN
    simp [zero, cmp]
  · subst zeroM
    rw [zero, ofInt_of_ne_zero zeroN boundN, cmp.eq_def]
    simp only [mantissa_ne_zero zeroN, and_false, if_false, if_true, Ne.symm zeroN, iff_false]
    split <;> simp
  · subst zeroN
    rw [zero, ofInt_of_ne_zero zeroM boundM, cmp.eq_def]
    simp only [mantissa_ne_zero zeroM, false_and, if_false, if_true, zeroM, iff_false]
    split <;> simp
  · have nonzeroM := mantissa_ne_zero zeroM (shift m.natAbs)
    have nonzeroN := mantissa_ne_zero zeroN (shift n.natAbs)
    rw [ofInt_of_ne_zero zeroM boundM, ofInt_of_ne_zero zeroN boundN, cmp.eq_def]
    dsimp only
    rw [if_neg (by simp [nonzeroM]), if_neg nonzeroM, if_neg nonzeroN]
    -- equal forms have the same shift, so their mantissas tell the integers apart
    have magnitudes : ∀ {x y : Nat}, x * 2 ^ shift x = y * 2 ^ shift y →
        -(shift x : Int) = -(shift y : Int) → x = y := by
      intro x y mantissas shifts
      have same : shift x = shift y := by omega
      rw [same] at mantissas
      exact Nat.eq_of_mul_eq_mul_right (Nat.two_pow_pos _) mantissas
    constructor
    · intro equal
      split at equal
      · cases equal
      · cases equal
      · rename_i signM signN
        obtain ⟨mantissas, shifts⟩ := compareMagnitude_eq nonzeroM nonzeroN equal
        have same := magnitudes mantissas shifts
        simp only [decide_eq_false_iff_not] at signM signN
        omega
      · rename_i signM signN
        obtain ⟨mantissas, shifts⟩ := compareMagnitude_eq nonzeroN nonzeroM equal
        have same := magnitudes mantissas shifts
        simp only [decide_eq_true_eq] at signM signN
        omega
    · rintro rfl
      cases decide (m < 0) <;> exact compareMagnitude_self _ _

/-! ## Sums -/

theorem aligned_shift (n : Int) {s k : Nat} (le : s ≤ k) :
    aligned (-(k : Int)) (n < 0) (n.natAbs * 2 ^ s) (-(s : Int)) = n * ((2 ^ k : Nat) : Int) := by
  have places : (-(s : Int) - -(k : Int)).toNat = k - s := by omega
  have power : 2 ^ s * 2 ^ (k - s) = 2 ^ k := by
    rw [← Nat.pow_add]
    congr 1
    omega
  rw [aligned, places, Nat.mul_assoc, power, Int.natCast_mul]
  simp only [decide_eq_true_eq]
  split
  · rename_i negative
    rw [Int.ofNat_natAbs_of_nonpos (Int.le_of_lt negative), Int.neg_mul, Int.neg_neg]
  · rename_i positive
    rw [Int.natAbs_of_nonneg (Int.not_lt.mp positive)]

/-- The sum of the numbers of integers is the number of their sum. -/
theorem add?_ofInt (boundM : m.natAbs < UInt64.size) (boundN : n.natAbs < UInt64.size)
    (bound : (m + n).natAbs < UInt64.size) : add? (ofInt m) (ofInt n) = some (ofInt (m + n)) := by
  have zero : ofInt 0 = .finite false 0 0 := rfl
  by_cases zeroM : m = 0 <;> by_cases zeroN : n = 0
  · subst zeroM zeroN
    rfl
  · subst zeroM
    rw [Int.zero_add, zero, ofInt_of_ne_zero zeroN boundN, add?, if_neg, if_neg, if_pos rfl]
    · exact mantissa_ne_zero zeroN _
    · simp [mantissa_ne_zero zeroN]
  · subst zeroN
    rw [Int.add_zero, zero, ofInt_of_ne_zero zeroM boundM, add?, if_neg, if_pos rfl]
    simp [mantissa_ne_zero zeroM]
  · -- both are taken to the finer of their scales, where their sum is exact
    let k := max (shift m.natAbs) (shift n.natAbs)
    have least : min (-(shift m.natAbs : Int)) (-(shift n.natAbs : Int)) = -(k : Int) := by
      simp only [k]
      omega
    have scale : (0 : Int) < ((2 ^ k : Nat) : Int) := Int.natCast_pos.mpr (Nat.two_pow_pos k)
    have sign : decide ((m + n) * ((2 ^ k : Nat) : Int) < 0) = decide (m + n < 0) := by
      refine decide_eq_decide.mpr ⟨fun negative => ?_, fun negative => ?_⟩
      · refine Int.lt_of_mul_lt_mul_right ?_ (Int.le_of_lt scale)
        rw [Int.zero_mul]
        exact negative
      · exact Int.mul_neg_of_neg_of_pos negative scale
    rw [ofInt_of_ne_zero zeroM boundM, ofInt_of_ne_zero zeroN boundN, add?,
      if_neg (by simp [mantissa_ne_zero zeroM]), if_neg (mantissa_ne_zero zeroN _),
      if_neg (mantissa_ne_zero zeroM _), least]
    dsimp only
    rw [aligned_shift m (Nat.le_max_left _ _), aligned_shift n (Nat.le_max_right _ _), ← Int.add_mul, sign,
      Int.natAbs_mul, Int.natAbs_natCast]
    by_cases cancelled : m + n = 0
    · rw [cancelled]
      simp [ofInt, round]
    · rw [ofInt_of_ne_zero cancelled bound, round_mul_pow (Int.natAbs_ne_zero.mpr cancelled) bound]

end Extended

/-! ## Shortest decimals of integers -/

/-- The only whole number in an interval is its value. -/
structure Interval.Isolates (i : Interval) (x : Nat) : Prop where
  den : 0 < i.den
  value : i.value = x * i.den
  low : i.value < i.low + i.den
  high : i.high < i.value + i.den

namespace Interval.Isolates

variable {i : Interval} {x : Nat}

/-- On a grid of whole numbers an interval has its value, if that is on the grid, and nothing else. -/
theorem onGrid? (isolates : i.Isolates x) (rising : Bool) (e : Nat) :
    i.onGrid? rising e = if x % 10 ^ e = 0 then some ⟨x / 10 ^ e, e⟩ else none := by
  have noScale : (-(e : Int)).toNat = 0 := by omega
  have quotient : i.value / (i.den * 10 ^ e) = x / 10 ^ e := by
    rw [isolates.value, Nat.mul_comm, Nat.mul_div_mul_left _ _ isolates.den]
  have remainder : i.value % (i.den * 10 ^ e) = i.den * (x % 10 ^ e) := by
    rw [isolates.value, Nat.mul_comm, Nat.mul_mod_mul_left]
  have positive : 0 < 10 ^ e := Nat.pow_pos (by decide)
  have parts := Nat.div_add_mod x (10 ^ e)
  rw [Interval.onGrid?]
  simp only [noScale, Int.toNat_natCast, Nat.pow_zero, Nat.mul_one, quotient, remainder]
  by_cases divides : x % 10 ^ e = 0
  · rw [if_pos divides, divides, Nat.mul_zero, if_pos rfl]
  · have product : i.den * (x % 10 ^ e) ≠ 0 :=
      Nat.mul_ne_zero (Nat.ne_of_gt isolates.den) divides
    have inside := Nat.mod_lt x positive
    -- the points of the grid next to the value are at least one unit away
    have below : x / 10 ^ e * (i.den * 10 ^ e) + i.den ≤ i.value := by
      have step : i.den * (10 ^ e * (x / 10 ^ e) + 1) ≤ i.den * x :=
        Nat.mul_le_mul_left _ (by omega)
      rw [isolates.value, Nat.mul_comm x]
      refine Nat.le_trans (Nat.le_of_eq ?_) step
      rw [Nat.mul_add, Nat.mul_one, Nat.mul_comm (x / 10 ^ e), Nat.mul_assoc]
    have above : i.value + i.den ≤ (x / 10 ^ e + 1) * (i.den * 10 ^ e) := by
      have step : i.den * (x + 1) ≤ i.den * (10 ^ e * (x / 10 ^ e) + 10 ^ e) :=
        Nat.mul_le_mul_left _ (by omega)
      rw [isolates.value, Nat.mul_comm x]
      refine Nat.le_trans step (Nat.le_of_eq ?_)
      rw [Nat.add_mul, Nat.mul_add, Nat.one_mul, Nat.mul_comm (x / 10 ^ e), Nat.mul_assoc]
    have low := isolates.low
    have high := isolates.high
    have notDown : ¬(if i.closed = true then i.low ≤ x / 10 ^ e * (i.den * 10 ^ e)
        else i.low < x / 10 ^ e * (i.den * 10 ^ e)) := by
      split <;> omega
    have notUp : ¬(if i.closed = true then (x / 10 ^ e + 1) * (i.den * 10 ^ e) ≤ i.high
        else (x / 10 ^ e + 1) * (i.den * 10 ^ e) < i.high) := by
      split <;> omega
    simp only [product, divides, notDown, notUp, and_false, if_false]

/-- The search for a shortest decimal ends on a grid of whole numbers, with the value itself. -/
theorem shortestFrom (isolates : i.Isolates x) (e : Nat) {fuel : Nat} (enough : e < fuel) (rising : Bool) :
    ∃ digits k : Nat, i.shortestFrom fuel rising e = ⟨digits, k⟩ ∧ digits * 10 ^ k = x := by
  induction e generalizing fuel rising with
  | zero =>
    obtain ⟨fuel, rfl⟩ : ∃ f, fuel = f + 1 := ⟨fuel - 1, by omega⟩
    refine ⟨x, 0, ?_, by simp⟩
    rw [Interval.shortestFrom, isolates.onGrid? rising 0, Nat.pow_zero, Nat.mod_one, if_pos rfl, Nat.div_one]
  | succ e ih =>
    obtain ⟨fuel, rfl⟩ : ∃ f, fuel = f + 1 := ⟨fuel - 1, by omega⟩
    rw [Interval.shortestFrom, isolates.onGrid? rising (e + 1)]
    by_cases divides : x % 10 ^ (e + 1) = 0
    · rw [if_pos divides]
      exact ⟨x / 10 ^ (e + 1), e + 1, rfl, Nat.div_mul_cancel (Nat.dvd_of_mod_eq_zero divides)⟩
    · have finer : ((e + 1 : Nat) : Int) - 1 = (e : Int) := by omega
      rw [if_neg divides, finer]
      exact ih (by omega) _

end Interval.Isolates

theorem Decimal.trimFrom_whole (fuel digits k : Nat) :
    ∃ d j : Nat, trimFrom fuel ⟨digits, k⟩ = ⟨d, j⟩ ∧ d * 10 ^ j = digits * 10 ^ k := by
  induction fuel generalizing digits k with
  | zero => exact ⟨digits, k, rfl, rfl⟩
  | succ fuel ih =>
    rw [trimFrom]
    split
    · rename_i trailing
      have up : (k : Int) + 1 = ((k + 1 : Nat) : Int) := by omega
      obtain ⟨d, j, trimmed, value⟩ := ih (digits / 10) (k + 1)
      refine ⟨d, j, ?_, ?_⟩
      · dsimp only
        rw [up]
        exact trimmed
      · rw [value, Nat.pow_succ, Nat.mul_comm _ 10, ← Nat.mul_assoc,
          Nat.div_mul_cancel (Nat.dvd_of_mod_eq_zero trailing.2)]
    · exact ⟨digits, k, rfl, rfl⟩

/-- A decimal that is a whole number is written as the number. -/
theorem Decimal.positional_whole {digits : Nat} (positive : 0 < digits) (k : Nat) :
    Decimal.positional ⟨digits, k⟩ = toString (digits * 10 ^ k) := by
  have chars : Decimal.chars ⟨digits, k⟩ = Nat.toDigits 10 digits := Nat.toList_repr
  have filled : 0 < (Nat.toDigits 10 digits).length := Nat.length_toDigits_pos
  have zeros : ((Nat.toDigits 10 digits).length + (k : Int)).toNat - (Nat.toDigits 10 digits).length = k := by
    omega
  rw [positional, point, chars]
  dsimp only
  rw [if_neg (by omega), if_pos (by omega), zeros, ← String.ofList_append, ← toDigits_mul_pow positive]
  exact Nat.toString_eq_ofList_toDigits.symm

theorem decimalPointFrom_whole {x den : Nat} (positive : 0 < x) (denPositive : 0 < den)
    (small : x < 100000000000000000000) (fuel : Nat) {k : Int} (start : k ≤ 20) (enough : 20 ≤ k + fuel) :
    1 ≤ decimalPointFrom (x * den) den fuel k ∧ decimalPointFrom (x * den) den fuel k ≤ 20 := by
  induction fuel generalizing k with
  | zero =>
    rw [decimalPointFrom]
    omega
  | succ fuel ih =>
    have least : den ≤ x * den := Nat.le_mul_of_pos_left den positive
    rw [decimalPointFrom]
    by_cases whole : 0 ≤ k
    · simp only [whole, if_true]
      split
      · rename_i below
        refine ⟨?_, start⟩
        -- a number that is not zero is not below one
        have notZero : k ≠ 0 := by
          rintro rfl
          rw [Int.toNat_zero, Nat.pow_zero, Nat.mul_one] at below
          omega
        omega
      · rename_i notBelow
        have notLast : k ≠ 20 := by
          rintro rfl
          refine notBelow ?_
          rw [Nat.mul_comm x]
          exact Nat.mul_lt_mul_of_pos_left small denPositive
        exact ih (by omega) (by omega)
    · have scaled : x * den ≤ x * den * 10 ^ (-k).toNat :=
        Nat.le_mul_of_pos_right _ (Nat.pow_pos (by decide))
      simp only [whole, if_false]
      rw [if_neg (by omega)]
      exact ih (by omega) (by omega)

namespace Extended

/-- The interval of an integer's number has no other whole number. -/
theorem isolates_interval (x : Nat) (k : Nat) : (interval (x * 2 ^ k) (-(k : Int))).Isolates x := by
  have none : (-(k : Int)).toNat = 0 := by omega
  have all : (- -(k : Int)).toNat = k := by omega
  have power := Nat.two_pow_pos k
  refine ⟨?_, ?_, ?_, ?_⟩ <;> simp only [interval, none, all, Nat.pow_zero, Nat.mul_one]
  · omega
  · rw [Nat.mul_left_comm]
  · omega
  · omega

theorem shortest_interval {x : Nat} (nonzero : x ≠ 0) (bound : x < UInt64.size) (k : Nat) :
    (interval (x * 2 ^ k) (-(k : Int))).shortest.positional = toString x := by
  have isolates := isolates_interval x k
  have positive := Nat.pos_of_ne_zero nonzero
  have bits : Nat.log2 x < 64 := (Nat.log2_lt nonzero).mpr bound
  have den : (interval (x * 2 ^ k) (-(k : Int))).den = 2 ^ (k + 1) := by
    have all : (- -(k : Int)).toNat = k := by omega
    simp only [interval, all, Nat.pow_succ, Nat.mul_comm]
  have point : 1 ≤ decimalPoint (x * 2 ^ (k + 1)) (2 ^ (k + 1)) ∧
      decimalPoint (x * 2 ^ (k + 1)) (2 ^ (k + 1)) ≤ 20 := by
    rw [decimalPoint, log2_mul_pow nonzero, Nat.log2_two_pow]
    refine decimalPointFrom_whole positive (Nat.two_pow_pos _) ?_ 64 ?_ ?_
    · exact Nat.lt_trans bound (by decide)
    · omega
    · omega
  rw [Interval.shortest, isolates.value, den]
  obtain ⟨e, exponent⟩ : ∃ e : Nat, decimalPoint (x * 2 ^ (k + 1)) (2 ^ (k + 1)) - 1 = (e : Int) :=
    ⟨(decimalPoint (x * 2 ^ (k + 1)) (2 ^ (k + 1)) - 1).toNat, by omega⟩
  rw [exponent]
  obtain ⟨digits, j, found, value⟩ := isolates.shortestFrom e (show e < 64 by omega) true
  obtain ⟨d, i, trimmed, sameValue⟩ := Decimal.trimFrom_whole 64 digits j
  rw [found, trimmed, ← value, ← sameValue]
  refine Decimal.positional_whole (Nat.pos_of_ne_zero ?_) i
  rintro rfl
  rw [value, Nat.zero_mul] at sameValue
  exact nonzero sameValue.symm

/-- The text of an integer's number is the text of the integer. -/
theorem text_ofInt {n : Int} (bound : n.natAbs < UInt64.size) : (ofInt n).text = toString n := by
  by_cases zero : n = 0
  · subst zero
    rfl
  · rw [ofInt_of_ne_zero zero bound, text, if_neg (mantissa_ne_zero zero _),
      shortest_interval (Int.natAbs_ne_zero.mpr zero) bound]
    apply String.toList_inj.mp
    rw [toList_toString]
    by_cases negative : n < 0
    · simp [negative, Nat.toString_eq_repr, Nat.toList_repr]
    · simp [negative, Nat.toString_eq_repr, Nat.toList_repr]

end Extended

end DocTable.Number

namespace DocTable

open Number

attribute [local instance] Number.corePower

variable {m n : Int}

/-- The texts of integers are equal as numbers if the integers are equal. -/
theorem compareNumbers?_toString (boundM : m.natAbs < UInt64.size) (boundN : n.natAbs < UInt64.size) :
    compareNumbers? (toString m) (toString n) = some .eq ↔ m = n := by
  rw [compareNumbers?, Extended.read?_toString boundM, Extended.read?_toString boundN,
    ← Extended.cmp_ofInt boundM boundN]
  exact Option.some_inj

theorem AttributeValue.equal_integers (boundM : m.natAbs < UInt64.size) (boundN : n.natAbs < UInt64.size) :
    equal (.n (toString m)) (.n (toString n)) = true ↔ m = n := by
  rw [equal, beq_iff_eq, compareNumbers?_toString boundM boundN]

/-- Adding integers is exact. -/
theorem AttributeValue.add_integers (boundM : m.natAbs < UInt64.size) (boundN : n.natAbs < UInt64.size)
    (bound : (m + n).natAbs < UInt64.size) :
    add (.n (toString m)) (.n (toString n)) = .ok (.n (toString (m + n))) := by
  rw [add, addNumbers, Extended.read?_toString boundM, Extended.read?_toString boundN]
  simp only [Extended.add?_ofInt boundM boundN bound, Extended.text_ofInt bound]

end DocTable
