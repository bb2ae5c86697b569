import DocTable.Proofs.Number.ShortestDecimals
import DocTable.Proofs.Number.WrittenNumbers

/-!
# Decimals and doubles

A finite double is written as the shortest of the decimals that are nearest to it (`Format.isShortest_double`).  So a
decimal survives being read and written exactly if it is the shortest one of its double.

A decimal of at most fifteen digits always is, as long as the double has all its bits: two such decimals are further
apart than the doubles around them (`HasDigits.eq_of_nearest`).  Numbers that are nearest to one double are never ten
times as far from zero as one another (`Format.Nearest.lt_ten_mul`).
-/

namespace DocTable.Number

set_option autoImplicit false

attribute [local instance] Number.corePower

theorem IsShortest.congr {belongs belongs' : ℚ → Prop} {center x : ℚ} {count : Nat}
    (shortest : IsShortest belongs center count x) (same : ∀ y, 0 ≤ y → (belongs y ↔ belongs' y)) :
    IsShortest belongs' center count x where
  member := (same x shortest.digits.nonneg).mp shortest.member
  digits := shortest.digits
  fewest y member digits := shortest.fewest y ((same y digits.nonneg).mpr member) digits
  nearest y member digits distinct :=
    shortest.nearest y ((same y digits.nonneg).mpr member) digits distinct

namespace Format

variable {f : Format} {b m : Nat} {e : ℤ} {x y : ℚ}

/-! ## Distances -/

/-- A number is at most half a step of the grid away from the nearest magnitude. -/
theorem Nearest.abs_sub_le (wide : 1 < f.precision) (nearest : f.Nearest x b) (positive : 0 < x)
    (places : f.Places b m e) : |x - f.value b| ≤ 2 ^ e / 2 := by
  have bits := (nearest_iff wide positive).mp nearest
  have upper := (bitsAt_le_iff (b := b) wide positive).mp bits.le
  have next : f.value (b + 1) = f.value b + 2 ^ e := by
    rw [places.value_succ, places.value_eq]
    ring
  rw [next] at upper
  rw [abs_le]
  constructor
  · rcases Nat.eq_zero_or_pos b with rfl | some
    · rw [value_zero]
      have := two_zpow_pos e
      linarith
    · obtain ⟨c, rfl⟩ : ∃ c, b = c + 1 := ⟨b - 1, by omega⟩
      have lower := mt (bitsAt_le_iff (b := c) wide positive).mpr (by omega)
      rw [not_or, not_lt] at lower
      have before : f.value (c + 1) - 2 ^ e ≤ f.value c := by
        have previous := f.places_magnitude c
        generalize (f.magnitude c).1 = m' at previous
        generalize (f.magnitude c).2 = e' at previous
        have step : f.value (c + 1) = f.value c + 2 ^ e' := by
          rw [previous.value_succ, previous.value_eq]
          ring
        have exponent : e' ≤ e := by
          rcases previous.succ with same | ⟨-, same⟩
          · have := (Prod.mk.inj (same.magnitude_eq.symm.trans places.magnitude_eq)).2
            omega
          · have := (Prod.mk.inj (same.magnitude_eq.symm.trans places.magnitude_eq)).2
            omega
        have := zpow_le_zpow_right₀ (one_le_two (α := ℚ)) exponent
        linarith
      linarith [lower.1]
  · rcases upper with less | ⟨middle, -⟩ <;> linarith

/-- Of two numbers that are nearest to one magnitude other than zero, neither is ten times the other. -/
theorem Nearest.lt_ten_mul (wide : 1 < f.precision) (nearest : f.Nearest x b) (nearest' : f.Nearest y b)
    (nonzero : b ≠ 0) (positive : 0 < x) (positive' : 0 < y) : y < 10 * x := by
  have places := f.places_magnitude b
  generalize (f.magnitude b).1 = m at places
  generalize (f.magnitude b).2 = e at places
  have first := abs_le.mp (nearest.abs_sub_le wide positive places)
  have second := abs_le.mp (nearest'.abs_sub_le wide positive' places)
  have step : (2 : ℚ) ^ e ≤ f.value b := by
    rw [places.value_eq]
    exact le_mul_of_one_le_left (two_zpow_pos e).le (by exact_mod_cast places.mantissa_pos nonzero)
  linarith [first.1, second.2]

end Format

/-! ## Fifteen digits -/

/-- Two decimals of a number of digits are not arbitrarily close. -/
theorem HasDigits.lt_mul_sub {count : Nat} {x y : ℚ} (digits : HasDigits count x) (digits' : HasDigits count y)
    (less : x < y) : x < 10 ^ count * (y - x) := by
  obtain ⟨n, k, few, rfl⟩ := digits
  obtain ⟨n', k', few', rfl⟩ := digits'
  -- the finer one of the two grids has both points
  rcases le_or_gt k k' with finer | coarser
  · obtain ⟨m, same⟩ := grid_point n' finer
    rw [same] at less ⊢
    calc (n : ℚ) * 10 ^ k < 10 ^ count * 10 ^ k :=
          mul_lt_mul_of_pos_right (by exact_mod_cast few) (ten_zpow_pos k)
      _ ≤ 10 ^ count * (m * 10 ^ k - n * 10 ^ k) := mul_le_mul_of_nonneg_left (step_le_sub less) (by positivity)
  · obtain ⟨m, same⟩ := grid_point n coarser.le
    rw [same] at less ⊢
    calc (m : ℚ) * 10 ^ k' < n' * 10 ^ k' := less
      _ < 10 ^ count * 10 ^ k' := mul_lt_mul_of_pos_right (by exact_mod_cast few') (ten_zpow_pos k')
      _ ≤ 10 ^ count * (n' * 10 ^ k' - m * 10 ^ k') := mul_le_mul_of_nonneg_left (step_le_sub less) (by positivity)

/-- The least magnitude of a double with all its bits. -/
def leastNormal : ℚ := 2 ^ (-1022 : ℤ)

theorem Format.Nearest.le_of_normal {x : ℚ} {b : Nat} (nearest : double.Nearest x b) (normal : leastNormal ≤ x) :
    2 ^ 52 ≤ b := by
  have places := double.places_magnitude b
  generalize (double.magnitude b).1 = m at places
  generalize (double.magnitude b).2 = e at places
  have distance := nearest.abs_sub_le (by decide) ((two_zpow_pos _).trans_le normal) places
  have full : 2 ^ 52 ≤ m := by
    by_contra! small
    have least : e = -1074 := by
      refine le_antisymm (not_lt.mp fun above => ?_) places.least
      exact absurd (places.full above) (Nat.not_le.mpr small)
    have upper := (abs_le.mp distance).2
    have below : (m : ℚ) + 1 ≤ 2 ^ 52 := by exact_mod_cast small
    have power : (2 : ℚ) ^ (-1074 : ℤ) * 2 ^ 52 = leastNormal := by
      rw [leastNormal, ← zpow_natCast, ← zpow_add₀ two_ne_zero]
      congr 1
    have step := two_zpow_pos (-1074)
    have scaled := mul_le_mul_of_nonneg_right below step.le
    rw [places.value_eq, least] at upper
    linarith
  rw [places.bits_eq]
  exact full.trans (Nat.le_add_left _ _)

/-- A number is nearest to a magnitude with all its bits in relative terms. -/
theorem Format.Nearest.abs_sub_le_of_le {x : ℚ} {b : Nat} (nearest : double.Nearest x b) (positive : 0 < x)
    (normal : 2 ^ 52 ≤ b) : |x - double.value b| ≤ double.value b / 2 ^ 53 := by
  have places := double.places_magnitude b
  generalize (double.magnitude b).1 = m at places
  generalize (double.magnitude b).2 = e at places
  have distance := nearest.abs_sub_le (by decide) positive places
  have full : 2 ^ 52 ≤ m := by
    rcases places.least.lt_or_eq with above | least
    · exact places.full above
    · have same := places.bits_eq
      rw [least, sub_self, Int.toNat_zero, Nat.zero_mul, Nat.zero_add] at same
      exact same ▸ normal
  have value : (2 : ℚ) ^ e * 2 ^ 52 ≤ double.value b := by
    rw [places.value_eq, mul_comm]
    exact mul_le_mul_of_nonneg_right (by exact_mod_cast full) (two_zpow_pos e).le
  linarith

/-- Decimals of at most fifteen digits with the same nearest double are equal, if the double has all its bits. -/
theorem HasDigits.eq_of_nearest {x y : ℚ} {b : Nat} (digits : HasDigits 15 x) (digits' : HasDigits 15 y)
    (nearest : Format.double.Nearest x b) (nearest' : Format.double.Nearest y b) (positive : 0 < x)
    (positive' : 0 < y) (normal : 2 ^ 52 ≤ b) : x = y := by
  have first := abs_le.mp (nearest.abs_sub_le_of_le positive normal)
  have second := abs_le.mp (nearest'.abs_sub_le_of_le positive' normal)
  have nonneg := Format.double.value_nonneg b
  rcases lt_trichotomy x y with less | same | greater
  · have gap := digits.lt_mul_sub digits' less
    linarith [first.1, second.2]
  · exact same
  · have gap := digits'.lt_mul_sub digits greater
    linarith [first.2, second.1]

namespace Format

theorem proper_interval {bits : Nat} (nonzero : bits ≠ 0) : (double.interval bits).Proper := by
  have places := double.places_magnitude bits
  have some := places.mantissa_pos nonzero
  have power := Nat.two_pow_pos (double.magnitude bits).2.toNat
  refine ⟨double.interval_den_pos bits, ?_, ?_, ?_, ?_⟩ <;> rw [interval_eq places]
  · exact Nat.mul_pos (by split <;> omega) power
  · exact Nat.mul_lt_mul_of_pos_right (by split <;> omega) power
  · exact Nat.mul_lt_mul_of_pos_right (by omega) power

theorem center_interval {bits : Nat} (nonzero : bits ≠ 0) : (double.interval bits).center = double.value bits := by
  have proper := proper_interval nonzero
  have den : ((double.interval bits).den : ℚ) ≠ 0 := by exact_mod_cast proper.den.ne'
  have number := Interval.center_mul_den proper
  rw [← double.interval_value bits] at number
  exact mul_right_cancel₀ den number

/-- A finite double is written as its shortest decimal. -/
theorem isShortest_double {bits : Nat} (nonzero : bits ≠ 0) (finite : bits < double.infinityBits) :
    ∃ count, IsShortest (fun y => double.Nearest y bits) (double.value bits) count (double.shortest bits).value := by
  have wide : 1 < double.precision := by decide
  have proper := proper_interval nonzero
  obtain ⟨m, e, parts, positive, high, lowest, highest⟩ := double_magnitude nonzero finite
  have places := double.places_magnitude bits
  rw [parts] at places
  have width : (2 : Nat) ^ double.precision = 2 ^ 53 := rfl
  rw [width] at high
  have power := Nat.two_pow_pos e.toNat
  have interval := interval_eq places
  have room : (double.interval bits).value ≤ 2 ^ 55 * ((double.interval bits).value - (double.interval bits).low) := by
    rw [interval]
    dsimp only
    rw [← Nat.sub_mul, ← Nat.mul_assoc]
    exact Nat.mul_le_mul_right _ (by split <;> omega)
  have small : |(Nat.log2 (double.interval bits).value : ℤ) - Nat.log2 (double.interval bits).den| ≤ 100000 := by
    have den : (double.interval bits).den = 2 ^ ((-e).toNat + 2) := by
      rw [interval, Nat.pow_add]
      exact Nat.mul_comm 4 (2 ^ (-e).toNat)
    have value : Nat.log2 (double.interval bits).value < 55 + e.toNat := by
      rw [Nat.log2_lt (proper.low.trans proper.below).ne', interval, Nat.pow_add]
      exact Nat.mul_lt_mul_of_pos_right (by omega) power
    rw [den, Nat.log2_two_pow, abs_le]
    omega
  obtain ⟨count, shortest⟩ := Interval.isShortest_shortest proper room small
  rw [center_interval nonzero] at shortest
  refine ⟨count, shortest.congr fun y nonneg => ?_⟩
  rcases nonneg.lt_or_eq with some | rfl
  · rw [contains_iff wide some nonzero, nearest_iff wide some]
  · rw [nearest_zero_iff]
    exact iff_of_false (fun contains => lt_irrefl _ (contains.pos proper)) nonzero

end Format

/-- A decimal of at most fifteen digits is the shortest one of its double, if the double has all its bits. -/
theorem HasDigits.exists_isShortest {x : ℚ} {bits : Nat} (digits : HasDigits 15 x) (normal : leastNormal ≤ x)
    (nearest : Format.double.Nearest x bits) (finite : bits < Format.double.infinityBits) :
    ∃ count, IsShortest (fun y => Format.double.Nearest y bits) (Format.double.value bits) count x := by
  have full := nearest.le_of_normal normal
  have nonzero : bits ≠ 0 := by omega
  obtain ⟨count, shortest⟩ := Format.isShortest_double nonzero finite
  have few : count ≤ 15 := by
    by_contra more
    exact shortest.fewest x nearest (digits.mono (by omega))
  have positive : 0 < (Format.double.shortest bits).value := by
    refine lt_of_le_of_ne shortest.digits.nonneg fun zero => nonzero ?_
    have member := shortest.member
    rwa [← zero, Format.nearest_zero_iff] at member
  have same := digits.eq_of_nearest (shortest.digits.mono few) nearest shortest.member
    ((two_zpow_pos _).trans_le normal) positive full
  exact ⟨count, same ▸ shortest⟩

end DocTable.Number
