import DocTable.Proofs.Number.NearestMagnitudes
import DocTable.Proofs.Number.WrittenNumbers

/-!
# Doubles in order

A double stands for the number of its magnitude with its sign, and an infinity is beyond all others
(`Binary64.value`); the two zeros stand for one number.  The order of these numbers is that of the bits of the
magnitudes with their signs (`Binary64.value_lt_iff`), since the bits of a magnitude say where it stands among all
magnitudes (`Format.value_strictMono`).
-/

namespace DocTable.Number

set_option autoImplicit false

attribute [local instance] Number.corePower

namespace Format

/-- The number of a magnitude with a sign, by its bits with that sign. -/
def signedValue (f : Format) (bits : ℤ) : ℚ := bits.sign * f.value bits.natAbs

theorem signedValue_natCast (f : Format) (bits : Nat) : f.signedValue bits = f.value bits := by
  rcases Nat.eq_zero_or_pos bits with rfl | positive
  · rw [signedValue, Nat.cast_zero, Int.sign_zero, Int.cast_zero, zero_mul, value_zero]
  · rw [signedValue, Int.sign_eq_one_of_pos (Int.natCast_pos.mpr positive), Int.cast_one, one_mul, Int.natAbs_natCast]

theorem signedValue_neg (f : Format) (bits : ℤ) : f.signedValue (-bits) = -f.signedValue bits := by
  rw [signedValue, signedValue, Int.sign_neg, Int.natAbs_neg, Int.cast_neg, neg_mul]

theorem signedValue_strictMono (f : Format) : StrictMono f.signedValue := by
  refine strictMono_of_odd_strictMonoOn_nonneg f.signedValue_neg fun a nonneg b nonneg' less => ?_
  obtain ⟨m, rfl⟩ := Int.eq_ofNat_of_zero_le nonneg
  obtain ⟨n, rfl⟩ := Int.eq_ofNat_of_zero_le nonneg'
  rw [signedValue_natCast, signedValue_natCast]
  exact f.value_strictMono (Int.ofNat_lt.mp less)

end Format

namespace Binary64

variable {x y : Binary64}

/-- The bits of the magnitude of a double, with its sign. -/
def signedBits (x : Binary64) : ℤ :=
  if x.isNegative then -(Format.double.magnitudePart x.bits.toNat : ℤ)
  else Format.double.magnitudePart x.bits.toNat

theorem magnitudePart_lt_two_pow (x : Binary64) : Format.double.magnitudePart x.bits.toNat < 2 ^ 63 :=
  Nat.mod_lt _ (by decide)

theorem toNat_bits_eq (x : Binary64) : x.bits.toNat =
    if x.isNegative then 2 ^ 63 + Format.double.magnitudePart x.bits.toNat
    else Format.double.magnitudePart x.bits.toNat := by
  have word : x.bits.toNat < 2 ^ 64 := x.bits.toNat_lt
  have negative : x.isNegative = decide (2 ^ 63 ≤ x.bits.toNat) := rfl
  have magnitude : Format.double.magnitudePart x.bits.toNat = x.bits.toNat % 2 ^ 63 := rfl
  rw [negative, magnitude]
  simp only [decide_eq_true_eq]
  split_ifs <;> omega

/-- The number that a double stands for, unless it is not a number. -/
def value (x : Binary64) : WithBot (WithTop ℚ) :=
  let magnitude := Format.double.value (Format.double.magnitudePart x.bits.toNat)
  if x.isInfinite then if x.isNegative then ⊥ else ⊤
  else ((if x.isNegative then -magnitude else magnitude : ℚ) : WithTop ℚ)

/-- A double is one of the infinities, or between them. -/
theorem value_cases (isNumber : x.isNaN = false) :
    (x.value = ⊥ ∧ x.signedBits = -Format.double.infinityBits) ∨
    (x.value = ⊤ ∧ x.signedBits = Format.double.infinityBits) ∨
    (x.value = ((Format.double.signedValue x.signedBits : WithTop ℚ) : WithBot (WithTop ℚ)) ∧
      -(Format.double.infinityBits : ℤ) < x.signedBits ∧ x.signedBits < Format.double.infinityBits) := by
  have bound : Format.double.magnitudePart x.bits.toNat ≤ Format.double.infinityBits :=
    Nat.not_lt.mp (of_decide_eq_false isNumber)
  rcases bound.eq_or_lt with infinite | finite
  · have isInfinite : x.isInfinite = true := beq_iff_eq.mpr infinite
    rw [value, signedBits, infinite]
    cases x.isNegative <;> simp [isInfinite]
  · have isFinite : x.isInfinite = false := beq_eq_false_iff_ne.mpr finite.ne
    refine .inr (.inr ⟨?_, ?_⟩)
    · rw [value, signedBits]
      cases x.isNegative <;> simp [isFinite, Format.signedValue_neg, Format.signedValue_natCast]
    · rw [signedBits]
      split <;> omega

/-- Doubles are in the order of their bits with their signs. -/
theorem value_lt_iff (numberX : x.isNaN = false) (numberY : y.isNaN = false) :
    x.value < y.value ↔ x.signedBits < y.signedBits := by
  have positive : 0 < Format.double.infinityBits := by decide
  rcases value_cases numberX with ⟨valueX, bitsX⟩ | ⟨valueX, bitsX⟩ | ⟨valueX, lowX, highX⟩
  · rw [valueX, bot_lt_iff_ne_bot, bitsX]
    rcases value_cases numberY with ⟨valueY, bitsY⟩ | ⟨valueY, bitsY⟩ | ⟨valueY, lowY, highY⟩
    · exact iff_of_false (fun other => other valueY) (by omega)
    · exact iff_of_true (by simp [valueY]) (by omega)
    · exact iff_of_true (by simp [valueY]) lowY
  · have highest : y.signedBits ≤ Format.double.infinityBits := by
      rcases value_cases numberY with ⟨-, bitsY⟩ | ⟨-, bitsY⟩ | ⟨-, -, highY⟩ <;> omega
    rw [valueX, bitsX]
    exact iff_of_false not_top_lt (not_lt.mpr highest)
  · rw [valueX]
    rcases value_cases numberY with ⟨valueY, bitsY⟩ | ⟨valueY, bitsY⟩ | ⟨valueY, lowY, highY⟩
    · rw [valueY, bitsY]
      exact iff_of_false not_lt_bot (by omega)
    · rw [valueY, bitsY]
      exact iff_of_true (WithBot.coe_lt_coe.mpr (WithTop.coe_lt_top _)) highX
    · rw [valueY, WithBot.coe_lt_coe, WithTop.coe_lt_coe, Format.double.signedValue_strictMono.lt_iff_lt]

section OfMagnitude

variable {negative : Bool} {bits : Nat} (finite : bits < Format.double.infinityBits)

include finite

theorem isNaN_ofMagnitude : (ofMagnitude negative bits).isNaN = false := by
  have bounded := @isFinite_ofMagnitude negative bits finite
  rw [isFinite, Bool.and_eq_true, Bool.not_eq_true'] at bounded
  exact bounded.1

theorem signedBits_ofMagnitude :
    (ofMagnitude negative bits).signedBits = if negative then -(bits : ℤ) else bits := by
  rw [signedBits, isNegative_ofMagnitude finite, magnitudePart_ofMagnitude finite]

end OfMagnitude

end Binary64

end DocTable.Number
