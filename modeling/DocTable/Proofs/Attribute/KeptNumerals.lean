import DocTable.Attribute.Encode
import DocTable.Proofs.Number.ExponentNumerals
import DocTable.Proofs.Number.ShortestDoubles

/-!
# Numerals that keep their value

A numeral is encoded as a plain decimal.  Without an exponent it stays as it is; with an exponent it is read as a
double and written in the fewest digits that are nearest to this double (`Encode.plainDecimal_of_exponent`).  So its
value stays exactly if it is that decimal, or zero (`DecimalNumeral.IsKept`).  Decimals of at most fifteen digits are,
from the least double with all its bits on (`DecimalNumeral.isKept_of_hasDigits`).

The exponent must be read as it stands for this.  If only its first digits count, the number that is read has another
exponent, and no two such numbers are nearest to one double (`Format.Nearest.exponent_le`).
-/

namespace DocTable

set_option autoImplicit false

attribute [local instance] Number.corePower

namespace Number

/-! ## What is written -/

/-- What is written for a decimal, as a numeral. -/
theorem Decimal.exists_plainNumeral (x : Decimal) (negative : Bool) : ∃ p : PlainNumeral,
    (if negative then "-" ++ x.positional else x.positional) = p.text ∧ p.negative = negative ∧
      p.magnitude = x.value := by
  obtain ⟨digits, fraction?, text, nonempty, all, allBehind, value, places⟩ := x.exists_positional
  refine ⟨⟨signOf negative, digits, fraction?, signOf_mem negative, all, allBehind, .inl nonempty⟩, ?_, ?_, ?_⟩
  · rw [text, ofList_signOf]
    rfl
  · cases negative <;> rfl
  · have power : ((10 ^ (-x.exponent).toNat : Nat) : ℚ) ≠ 0 := (scale_pos x.exponent).ne'
    rw [PlainNumeral.magnitude, PlainNumeral.mantissa, PlainNumeral.places, value, places, Decimal.value,
      div_eq_iff power, mul_assoc, ten_zpow_mul_scale, Nat.cast_mul]

/-- What is written for a finite double, as a numeral. -/
theorem Binary64.exists_plainNumeral (negative : Bool) {bits : Nat} (finite : bits < Format.double.infinityBits) :
    ∃ p : PlainNumeral, (ofMagnitude negative bits).positional = p.text ∧ p.negative = negative ∧
      p.magnitude = if bits = 0 then 0 else (Format.double.shortest bits).value := by
  rw [positional_of_isFinite (isFinite_ofMagnitude finite), magnitudePart_ofMagnitude finite,
    isNegative_ofMagnitude finite]
  by_cases zero : bits = 0
  · obtain ⟨p, text, sign, magnitude⟩ := Decimal.exists_plainNumeral ⟨0, 0⟩ negative
    rw [if_pos zero, if_pos zero]
    refine ⟨p, text, sign, ?_⟩
    rw [magnitude, Decimal.value, Nat.cast_zero, zero_mul]
  · rw [if_neg zero, if_neg zero]
    exact Decimal.exists_plainNumeral _ negative

/-- Numbers with the same digits and different exponents are not nearest to one double. -/
theorem Format.Nearest.exponent_le {x : ℚ} {a b : ℤ} {bits : Nat} (nearest : double.Nearest (x * 10 ^ a) bits)
    (nearest' : double.Nearest (x * 10 ^ b) bits) (nonzero : bits ≠ 0) (positive : 0 < x) : a ≤ b := by
  have less := nearest'.lt_ten_mul (by decide) nearest nonzero (mul_pos positive (ten_zpow_pos b))
    (mul_pos positive (ten_zpow_pos a))
  have shifted : 10 * (x * 10 ^ b) = x * 10 ^ (b + 1) := by
    rw [zpow_add_one₀ (by norm_num)]
    ring
  rw [shifted, mul_lt_mul_iff_right₀ positive, zpow_lt_zpow_iff_right₀ (by norm_num)] at less
  exact Int.lt_add_one_iff.mp less

namespace DecimalNumeral

variable {d : DecimalNumeral} {bits : Nat}

/-! ## Kept numerals -/

/-- A numeral with an exponent is read as a number that is nearest to no finite double. -/
def OutOfRange (d : DecimalNumeral) : Prop :=
  d.exponent?.isSome ∧ ∃ bits, Format.double.Nearest d.readMagnitude bits ∧ Format.double.infinityBits ≤ bits

/-- A numeral has no exponent, or it is zero, or it has an exponent that is read as it stands and is the shortest
decimal of the nearest double. -/
def IsKept (d : DecimalNumeral) : Prop :=
  d.exponent? = none ∨ d.magnitude = 0 ∨ |d.exponent| < 100000 ∧
    ∃ bits count, IsShortest (fun y => Format.double.Nearest y bits) (Format.double.value bits) count d.magnitude

theorem outOfRange_iff : d.OutOfRange ↔ d.exponent?.isSome = true ∧ Binary64.read d.text = .error .outOfRange := by
  refine and_congr_right' ⟨?_, fun failed => ?_⟩
  · rintro ⟨bits, nearest, infinite⟩
    rw [d.read_text nearest, if_neg (Nat.not_lt.mpr infinite)]
  · obtain ⟨bits, nearest⟩ := Format.exists_nearest (f := Format.double) (by decide) d.readMagnitude_nonneg
    refine ⟨bits, nearest, Nat.not_lt.mp fun finite => ?_⟩
    rw [d.read_text nearest, if_pos finite] at failed
    cases failed

theorem magnitude_nonneg (d : DecimalNumeral) : 0 ≤ d.magnitude :=
  mul_nonneg d.plain.magnitude_nonneg (ten_zpow_pos _).le

theorem readMagnitude_of_abs_lt (small : |d.exponent| < 100000) : d.readMagnitude = d.magnitude := by
  rw [readMagnitude, magnitude, d.readExponent_eq_iff.mpr small]

/-- Both the numeral and what it is read as have the same nearest double only if its exponent is read as it stands. -/
theorem abs_exponent_lt (nearest : Format.double.Nearest d.magnitude bits)
    (nearest' : Format.double.Nearest d.readMagnitude bits) (nonzero : bits ≠ 0) : |d.exponent| < 100000 := by
  have positive : 0 < d.plain.magnitude := by
    refine lt_of_le_of_ne d.plain.magnitude_nonneg fun zero => nonzero ?_
    rwa [magnitude, ← zero, zero_mul, Format.nearest_zero_iff] at nearest
  exact d.readExponent_eq_iff.mp
    (le_antisymm (nearest'.exponent_le nearest nonzero positive) (nearest.exponent_le nearest' nonzero positive))

/-- The shortest decimal of the double that a numeral with an exponent is read as is the numeral itself exactly if the
numeral is kept. -/
theorem shortest_eq_magnitude_iff (marked : d.exponent? ≠ none) (nearest : Format.double.Nearest d.readMagnitude bits)
    (finite : bits < Format.double.infinityBits) :
    (if bits = 0 then 0 else (Format.double.shortest bits).value) = d.magnitude ↔ d.IsKept := by
  constructor
  · intro same
    by_cases zero : bits = 0
    · rw [if_pos zero] at same
      exact .inr (.inl same.symm)
    · obtain ⟨count, shortest⟩ := Format.isShortest_double zero finite
      rw [if_neg zero] at same
      rw [same] at shortest
      exact .inr (.inr ⟨abs_exponent_lt shortest.member nearest zero, bits, count, shortest⟩)
  · rintro (unmarked | zero | ⟨small, bits', count, shortest⟩)
    · exact absurd unmarked marked
    · have none : d.readMagnitude = 0 := by
        rw [readMagnitude, (mul_eq_zero.mp zero).resolve_right (ten_zpow_pos _).ne', zero_mul]
      rw [none, Format.nearest_zero_iff] at nearest
      rw [if_pos nearest, zero]
    · rw [readMagnitude_of_abs_lt small] at nearest
      obtain rfl : bits = bits' := nearest.unique shortest.member
      have nonzero : bits ≠ 0 := by
        rintro rfl
        exact shortest.fewest 0 (Format.nearest_zero_iff.mpr rfl) ⟨0, 0, Nat.pow_pos (by decide), by norm_num⟩
      obtain ⟨count', shortest'⟩ := Format.isShortest_double nonzero finite
      rw [if_neg nonzero]
      exact shortest'.unique shortest

/-- A numeral of at most fifteen digits is kept, unless it is less than the least double with all its bits. -/
theorem isKept_of_hasDigits (inRange : ¬d.OutOfRange) (digits : HasDigits 15 d.magnitude)
    (normal : leastNormal ≤ d.magnitude) (small : |d.exponent| < 100000) : d.IsKept := by
  by_cases unmarked : d.exponent? = none
  · exact .inl unmarked
  · obtain ⟨bits, nearest⟩ := Format.exists_nearest (f := Format.double) (by decide) d.magnitude_nonneg
    have finite : bits < Format.double.infinityBits := by
      by_contra infinite
      refine inRange ⟨Option.isSome_iff_ne_none.mpr unmarked, bits, ?_, Nat.not_lt.mp infinite⟩
      rwa [readMagnitude_of_abs_lt small]
    obtain ⟨count, shortest⟩ := digits.exists_isShortest normal nearest finite
    exact .inr (.inr ⟨small, bits, count, shortest⟩)

end DecimalNumeral

end Number

/-! ## Encoding -/

namespace Encode

open Number

theorem plainDecimal_of_not_decimal {text : String} (none : ∀ d : DecimalNumeral, d.text ≠ text) :
    plainDecimal text = .error (.notDecimal text) := by
  have malformed : isDecimal text = false := by
    rw [← Bool.not_eq_true, Number.Encode.isDecimal_iff]
    rintro ⟨d, same⟩
    exact none d same
  rw [plainDecimal, malformed]
  rfl

/-- A numeral with an exponent is written out through the nearest double. -/
theorem plainDecimal_of_exponent {d : DecimalNumeral} {bits : Nat} (marked : d.exponent? ≠ none)
    (nearest : Format.double.Nearest d.readMagnitude bits) :
    plainDecimal d.text =
      if bits < Format.double.infinityBits then .ok (Binary64.ofMagnitude d.plain.negative bits).positional
      else .error (.unreadable d.text .outOfRange) := by
  have decimal : isDecimal d.text = true := Number.Encode.isDecimal_iff.mpr ⟨d, rfl⟩
  rw [plainDecimal, decimal, if_neg (by decide), d.hasExponent_text, Option.isSome_iff_ne_none.mpr marked,
    if_neg (by decide), d.read_text nearest]
  by_cases finite : bits < Format.double.infinityBits
  · rw [if_pos finite, if_pos finite]
  · rw [if_neg finite, if_neg finite]

theorem plainDecimal_of_outOfRange {d : DecimalNumeral} (outOfRange : d.OutOfRange) :
    plainDecimal d.text = .error (.unreadable d.text .outOfRange) := by
  obtain ⟨marked, bits, nearest, infinite⟩ := outOfRange
  rw [plainDecimal_of_exponent (Option.isSome_iff_ne_none.mp marked) nearest, if_neg (Nat.not_lt.mpr infinite)]

/-- A numeral in range becomes a plain one with the same sign, and with the same digits exactly if it is kept. -/
theorem exists_plainNumeral_of_inRange {d : DecimalNumeral} (inRange : ¬d.OutOfRange) : ∃ p : PlainNumeral,
    plainDecimal d.text = .ok p.text ∧ p.negative = d.plain.negative ∧ (p.magnitude = d.magnitude ↔ d.IsKept) := by
  by_cases unmarked : d.exponent? = none
  · refine ⟨d.plain, ?_, rfl, iff_of_true ?_ (.inl unmarked)⟩
    · rw [plainDecimal, Number.Encode.isDecimal_iff.mpr ⟨d, rfl⟩, if_neg (by decide), d.hasExponent_text, unmarked,
        if_pos (by decide), DecimalNumeral.text, unmarked, Exponent.tail, List.append_nil, PlainNumeral.text]
    · rw [DecimalNumeral.magnitude, DecimalNumeral.exponent, unmarked, Option.map_none, Option.getD_none, zpow_zero,
        mul_one]
  · obtain ⟨bits, nearest⟩ := Format.exists_nearest (f := Format.double) (by decide) d.readMagnitude_nonneg
    have finite : bits < Format.double.infinityBits := by
      by_contra infinite
      exact inRange ⟨Option.isSome_iff_ne_none.mpr unmarked, bits, nearest, Nat.not_lt.mp infinite⟩
    obtain ⟨p, text, sign, magnitude⟩ := Binary64.exists_plainNumeral d.plain.negative finite
    refine ⟨p, ?_, sign, ?_⟩
    · rw [plainDecimal_of_exponent unmarked nearest, if_pos finite, text]
    · rw [magnitude, DecimalNumeral.shortest_eq_magnitude_iff unmarked nearest finite]

/-- What a numeral is encoded as.  A text that is no decimal fails, and so does a numeral with an exponent that is
beyond the doubles.  Any other numeral becomes a plain decimal, which has the value of the numeral exactly if the
numeral is kept; from the least double with all its bits on this holds up to fifteen digits. -/
theorem numeral_value_kept_iff (path text : String) :
    ((∀ d : DecimalNumeral, d.text ≠ text) →
      value path (.numeral text) = .error ⟨path, "json.Number", some (.notDecimal text)⟩) ∧
    ∀ d : DecimalNumeral, d.text = text →
      (d.OutOfRange → value path (.numeral text) =
        .error ⟨path, "json.Number", some (.unreadable text .outOfRange)⟩) ∧
      (¬d.OutOfRange → ∃ p : PlainNumeral, value path (.numeral text) = .ok (.n p.text) ∧
        (p.value = d.value ↔ d.IsKept) ∧
        (HasDigits 15 d.magnitude → leastNormal ≤ d.magnitude → |d.exponent| < 100000 → d.IsKept)) := by
  refine ⟨fun none => ?_, ?_⟩
  · rw [value, plainDecimal_of_not_decimal none]
  · rintro d rfl
    refine ⟨fun outOfRange => ?_, fun inRange => ?_⟩
    · rw [value, plainDecimal_of_outOfRange outOfRange]
    · obtain ⟨p, plain, sign, kept⟩ := exists_plainNumeral_of_inRange inRange
      refine ⟨p, by rw [value, plain], ?_, DecimalNumeral.isKept_of_hasDigits inRange⟩
      rw [← kept, PlainNumeral.value, DecimalNumeral.value, sign]
      split
      · exact neg_inj
      · exact Iff.rfl

theorem exists_scaledNumeral : ∃ d : DecimalNumeral, d.text = "1.5e3" ∧ d.exponent = 3 ∧ d.magnitude = 1500 ∧
    d.value = 1500 := by
  have magnitude : (15 : Nat) / (10 ^ 1 : Nat) * (10 : ℚ) ^ (3 : ℤ) = 1500 := by norm_num
  exact ⟨⟨⟨[], ['1'], some ['5'], by decide, List.all_eq_true.mp rfl, List.all_eq_true.mp rfl, .inl (by decide)⟩,
    some ⟨'e', [], ['3'], .inl rfl, by decide, by decide, List.all_eq_true.mp rfl⟩⟩, by decide, by decide, magnitude,
    magnitude⟩

theorem numeral_value_kept_of_scaled :
    ∃ p : PlainNumeral, value "" (.numeral "1.5e3") = .ok (.n p.text) ∧ p.value = 1500 := by
  obtain ⟨d, text, exponent, magnitude, value⟩ := exists_scaledNumeral
  have inRange : ¬d.OutOfRange := by
    rw [DecimalNumeral.outOfRange_iff, text]
    exact fun failed => absurd failed.2 (by decide +kernel)
  have digits : HasDigits 15 d.magnitude := ⟨15, 2, by decide, by rw [magnitude]; norm_num⟩
  have normal : leastNormal ≤ d.magnitude := by
    rw [magnitude, leastNormal]
    exact (zpow_le_one_of_nonpos₀ (by norm_num) (by decide)).trans (by norm_num)
  have small : |d.exponent| < 100000 := by
    rw [exponent]
    decide
  obtain ⟨p, encoded, kept, few⟩ := ((numeral_value_kept_iff "" "1.5e3").2 d text).2 inRange
  exact ⟨p, encoded, (kept.mpr (few digits normal small)).trans value⟩

/-- A whole number of 54 bits, with an exponent that changes nothing. -/
theorem exists_longNumeral :
    ∃ d : DecimalNumeral, d.text = "9007199254740993e0" ∧ d.value = 9007199254740993 := by
  have magnitude : (9007199254740993 : Nat) / (10 ^ 0 : Nat) * (10 : ℚ) ^ (0 : ℤ) = 9007199254740993 := by norm_num
  exact ⟨⟨⟨[], "9007199254740993".toList, none, by decide, List.all_eq_true.mp rfl, List.forall_mem_nil _,
    .inl (by decide)⟩, some ⟨'e', [], ['0'], .inl rfl, by decide, by decide, List.all_eq_true.mp rfl⟩⟩, by decide,
    magnitude⟩

/-- The double of a long number has other digits. -/
theorem numeral_value_lost : ∃ d : DecimalNumeral, d.text = "9007199254740993e0" ∧
    value "" (.numeral d.text) = .ok (.n "9007199254740992") ∧
    ∀ p : PlainNumeral, value "" (.numeral d.text) = .ok (.n p.text) → p.value ≠ d.value := by
  obtain ⟨d, text, value⟩ := exists_longNumeral
  have plain : plainDecimal d.text = .ok "9007199254740992" := by
    rw [text]
    decide +kernel
  have encoded : Encode.value "" (.numeral d.text) = .ok (.n "9007199254740992") := by
    rw [Encode.value, plain]
  refine ⟨d, text, encoded, fun p encoded' => ?_⟩
  have written : p.text = "9007199254740992" :=
    (AttributeValue.n.inj (Except.ok.inj (encoded.symm.trans encoded'))).symm
  -- the text has one reading
  have read : readLiteral? "9007199254740992" = some (.finite ⟨false, 9007199254740992, 10, 0⟩) := by decide +kernel
  have parts := p.readLiteral?_text
  rw [written, read] at parts
  obtain ⟨sign, mantissa, -, places⟩ := Numeral.mk.inj (Literal.finite.inj (Option.some.inj parts))
  have value' : p.value = 9007199254740992 := by
    rw [PlainNumeral.value, ← sign, if_neg (by decide), PlainNumeral.magnitude, ← mantissa,
      show p.places = 0 by omega]
    norm_num
  rw [value, value']
  norm_num

end Encode

end DocTable
