import DocTable.Number.Binary
import DocTable.Proofs.Number.Magnitudes
import Mathlib

/-!
# Rounding keeps the order

Rounding a rational number to a number of bits is a function of the number alone (`rounded`), whatever
quotient or power of two it is computed from: `roundBits` and `roundQuotient` both compute it
(`roundBits_value`, `roundQuotient_value`), the second one although it has seen only a part of the
quotient.  Its last odd bit tells on which side of every even number the quotient lies, and the places
where rounding changes are even numbers once there are two bits to spare (`roundDiv_sticky`).

Rounding never puts a smaller number above a larger one (`rounded_mono`), and neither do the bits of a
binary format, down to its least magnitudes (`Format.magnitudeBits?_mono`).  Both come from one fact about
grids of powers of two: a number on a finer grid is below the power of two at which the coarser grid
begins (`nearest_grid_mono`).
-/

namespace DocTable.Number

set_option autoImplicit false

attribute [local instance] Number.corePower

/-! ## The nearest natural number -/

variable {a b c d : Nat}

/-- A quotient is rounded to `k` or less if it is below the middle of `k` and the next number, or in the
middle if `k` is even. -/
theorem roundDiv_le_iff (positive : 0 < b) (k : Nat) : roundDiv a b ≤ k ↔
    2 * a < (2 * k + 1) * b ∨ (2 * a = (2 * k + 1) * b ∧ k % 2 = 0) := by
  have parts : b * (a / b) + a % b = a := Nat.div_add_mod a b
  have small : a % b < b := Nat.mod_lt a positive
  have middle : (2 * k + 1) * b = 2 * (b * k) + b := by ring
  rw [roundDiv, middle]
  rcases Nat.lt_trichotomy (a / b) k with less | same | greater
  · have room : b * (a / b + 1) ≤ b * k := Nat.mul_le_mul_left b less
    rw [Nat.mul_add, Nat.mul_one] at room
    exact iff_of_true (by split_ifs <;> omega) (.inl (by omega))
  · rw [same] at parts ⊢
    split_ifs <;> omega
  · have room : b * (k + 1) ≤ b * (a / b) := Nat.mul_le_mul_left b greater
    rw [Nat.mul_add, Nat.mul_one] at room
    exact iff_of_false (by split_ifs <;> omega) (by omega)

/-- Rounding quotients keeps their order. -/
theorem roundDiv_mono (positiveB : 0 < b) (positiveD : 0 < d) (le : a * d ≤ c * b) :
    roundDiv a b ≤ roundDiv c d := by
  rw [roundDiv_le_iff positiveB]
  have self := (roundDiv_le_iff (a := c) positiveD _).mp (Nat.le_refl _)
  generalize roundDiv c d = k at self ⊢
  have scaled : 2 * a * d ≤ 2 * c * b := by nlinarith
  rcases self with below | ⟨middle, even⟩
  · left
    have : 2 * c * b < (2 * k + 1) * d * b := Nat.mul_lt_mul_of_pos_right below positiveB
    refine Nat.lt_of_mul_lt_mul_right (a := d) ?_
    calc 2 * a * d ≤ 2 * c * b := scaled
      _ < (2 * k + 1) * d * b := this
      _ = (2 * k + 1) * b * d := by ring
  · have atMost : 2 * a ≤ (2 * k + 1) * b := by
      refine Nat.le_of_mul_le_mul_right (c := d) ?_ positiveD
      calc 2 * a * d ≤ 2 * c * b := scaled
        _ = (2 * k + 1) * b * d := by rw [middle]; ring
    rcases Nat.lt_or_eq_of_le atMost with below | same
    · exact .inl below
    · exact .inr ⟨same, even⟩

/-- The natural number nearest to a rational number that is not negative, the even one of two. -/
def nearest (x : ℚ) : Nat := roundDiv x.num.toNat x.den

theorem natCast_num_toNat {x : ℚ} (nonneg : 0 ≤ x) : ((x.num.toNat : ℕ) : ℚ) = x * x.den := by
  have num : ((x.num.toNat : ℕ) : ℤ) = x.num := Int.toNat_of_nonneg (Rat.num_nonneg.mpr nonneg)
  have cast : ((x.num.toNat : ℕ) : ℚ) = (x.num : ℚ) := by
    exact_mod_cast congrArg (Int.cast (R := ℚ)) num
  rw [cast, Rat.mul_den_eq_num]

theorem nearest_mono {x y : ℚ} (nonneg : 0 ≤ x) (le : x ≤ y) : nearest x ≤ nearest y := by
  refine roundDiv_mono x.den_pos y.den_pos ?_
  have den : (0 : ℚ) < x.den := by exact_mod_cast x.den_pos
  have den' : (0 : ℚ) < y.den := by exact_mod_cast y.den_pos
  have cross : ((x.num.toNat : ℕ) : ℚ) * y.den ≤ ((y.num.toNat : ℕ) : ℚ) * x.den := by
    rw [natCast_num_toNat nonneg, natCast_num_toNat (nonneg.trans le)]
    calc x * x.den * y.den = x * (x.den * y.den) := by ring
      _ ≤ y * (x.den * y.den) := mul_le_mul_of_nonneg_right le (by positivity)
      _ = y * y.den * x.den := by ring
  exact_mod_cast cross

/-- Rounding a quotient is rounding the rational number that it is. -/
theorem nearest_div (a : Nat) (positive : 0 < b) : nearest ((a : ℚ) / b) = roundDiv a b := by
  have nonneg : (0 : ℚ) ≤ (a : ℚ) / b := by positivity
  have den : (0 : ℚ) < b := by exact_mod_cast positive
  have cross : ((a : ℚ) / b).num.toNat * b = a * ((a : ℚ) / b).den := by
    have : ((((a : ℚ) / b).num.toNat : ℕ) : ℚ) * b = a * ((a : ℚ) / b).den := by
      rw [natCast_num_toNat nonneg]
      field_simp
    exact_mod_cast this
  apply Nat.le_antisymm
  · exact roundDiv_mono (Rat.den_pos _) positive cross.le
  · exact roundDiv_mono positive (Rat.den_pos _) cross.ge

theorem nearest_natCast (n : Nat) : nearest (n : ℚ) = n := by
  have whole := nearest_div n (show 0 < 1 by decide)
  rw [Nat.cast_one, div_one] at whole
  rw [whole]
  simpa using Extended.roundDiv_mul n (show 0 < 1 by decide)

/-! ## Grids of powers of two -/

theorem two_zpow_pos (e : ℤ) : (0 : ℚ) < 2 ^ e := zpow_pos (by norm_num) e

theorem natCast_two_pow (k : Nat) (e : ℤ) : ((2 ^ k : Nat) : ℚ) * 2 ^ e = 2 ^ (e + k) := by
  rw [zpow_add₀ (by norm_num), zpow_natCast, Nat.cast_pow, Nat.cast_ofNat, mul_comm]

section Grid

variable {x y : ℚ} {e f : ℤ}

/-- A number up to a power of two on the grid is rounded to no more than that. -/
theorem nearest_le_two_pow {k : Nat} (nonneg : 0 ≤ x) (le : x ≤ 2 ^ (e + k)) : nearest (x / 2 ^ e) ≤ 2 ^ k := by
  have scaled : x / 2 ^ e ≤ ((2 ^ k : Nat) : ℚ) := by
    rw [div_le_iff₀ (two_zpow_pos e), natCast_two_pow]
    exact le
  have whole := nearest_mono (div_nonneg nonneg (two_zpow_pos e).le) scaled
  rwa [nearest_natCast] at whole

theorem two_pow_le_nearest {k : Nat} (le : 2 ^ (e + k) ≤ x) : 2 ^ k ≤ nearest (x / 2 ^ e) := by
  have scaled : ((2 ^ k : Nat) : ℚ) ≤ x / 2 ^ e := by
    rw [le_div_iff₀ (two_zpow_pos e), natCast_two_pow]
    exact le
  have whole := nearest_mono (Nat.cast_nonneg _) scaled
  rwa [nearest_natCast] at whole

/-- Of two numbers on one grid the larger one is rounded to no less, and a number on a finer grid stays
below the power of two where the coarser grid begins. -/
theorem nearest_grid_mono {k : Nat} (nonneg : 0 ≤ x) (le : x ≤ y) (below : x ≤ 2 ^ (e + (k + 1 : Nat)))
    (grids : e = f ∨ e < f ∧ 2 ^ (f + k) ≤ y) :
    (nearest (x / 2 ^ e) : ℚ) * 2 ^ e ≤ nearest (y / 2 ^ f) * 2 ^ f := by
  rcases grids with rfl | ⟨finer, above⟩
  · refine mul_le_mul_of_nonneg_right ?_ (two_zpow_pos e).le
    exact_mod_cast nearest_mono (div_nonneg nonneg (two_zpow_pos e).le)
      (div_le_div_of_nonneg_right le (two_zpow_pos e).le)
  · calc (nearest (x / 2 ^ e) : ℚ) * 2 ^ e ≤ ((2 ^ (k + 1) : Nat) : ℚ) * 2 ^ e :=
          mul_le_mul_of_nonneg_right (by exact_mod_cast nearest_le_two_pow nonneg below) (two_zpow_pos e).le
      _ = 2 ^ (e + (k + 1 : Nat)) := natCast_two_pow _ _
      _ ≤ 2 ^ (f + k) := zpow_le_zpow_right₀ (by norm_num) (by push_cast; omega)
      _ = ((2 ^ k : Nat) : ℚ) * 2 ^ f := (natCast_two_pow _ _).symm
      _ ≤ nearest (y / 2 ^ f) * 2 ^ f :=
          mul_le_mul_of_nonneg_right (by exact_mod_cast two_pow_le_nearest above) (two_zpow_pos f).le

/-! ## Rounding to a number of bits -/

/-- The exponent at which a positive number has a mantissa of `precision` bits. -/
def gridExponent (precision : Nat) (x : ℚ) : ℤ := Int.log 2 x + 1 - precision

/-- A positive number rounded to `precision` bits. -/
def rounded (precision : Nat) (x : ℚ) : ℚ :=
  nearest (x / 2 ^ gridExponent precision x) * 2 ^ gridExponent precision x

theorem lt_two_zpow_gridExponent (precision : Nat) (x : ℚ) :
    x < 2 ^ (gridExponent precision x + precision) := by
  have upper := Int.lt_zpow_succ_log_self (show 1 < 2 by decide) x
  rw [gridExponent, sub_add_cancel]
  exact_mod_cast upper

theorem two_zpow_gridExponent_le {precision : Nat} (significant : 0 < precision) (positive : 0 < x) :
    2 ^ (gridExponent precision x + (precision - 1 : Nat)) ≤ x := by
  have lower := Int.zpow_log_le_self (show 1 < 2 by decide) positive
  have exponent : gridExponent precision x + (precision - 1 : Nat) = Int.log 2 x := by
    rw [gridExponent]
    omega
  rw [exponent]
  exact_mod_cast lower

theorem gridExponent_mono (precision : Nat) (positive : 0 < x) (le : x ≤ y) :
    gridExponent precision x ≤ gridExponent precision y := by
  have logs := Int.log_mono_right (b := 2) positive le
  rw [gridExponent, gridExponent]
  omega

/-- Between two powers of two, the exponent of a number is that of the lower one. -/
theorem gridExponent_eq {precision : Nat} (low : 2 ^ e ≤ x) (high : x < 2 ^ (e + 1)) :
    gridExponent precision x = e + 1 - precision := by
  have positive : 0 < x := (two_zpow_pos e).trans_le low
  have atLeast : e ≤ Int.log 2 x :=
    (Int.zpow_le_iff_le_log (show 1 < 2 by decide) positive).mp (by exact_mod_cast low)
  have less : Int.log 2 x < e + 1 :=
    (Int.lt_zpow_iff_log_lt (show 1 < 2 by decide) positive).mp (by exact_mod_cast high)
  rw [gridExponent]
  omega

/-- Rounding keeps the order. -/
theorem rounded_mono {precision : Nat} (significant : 0 < precision) (positive : 0 < x) (le : x ≤ y) :
    rounded precision x ≤ rounded precision y := by
  have bits : precision - 1 + 1 = precision := by omega
  refine nearest_grid_mono (k := precision - 1) positive.le le ?_ ?_
  · rw [bits]
    exact (lt_two_zpow_gridExponent precision x).le
  · rcases (gridExponent_mono precision positive le).eq_or_lt with same | finer
    · exact .inl same
    · exact .inr ⟨finer, two_zpow_gridExponent_le significant (positive.trans_le le)⟩

end Grid

theorem two_zpow_log2_le {n : Nat} (nonzero : n ≠ 0) (e : ℤ) :
    2 ^ ((Nat.log2 n : ℤ) + e) ≤ (n : ℚ) * 2 ^ e := by
  rw [add_comm, ← natCast_two_pow]
  exact mul_le_mul_of_nonneg_right (by exact_mod_cast Nat.log2_self_le nonzero) (two_zpow_pos e).le

theorem lt_two_zpow_log2 (n : Nat) (e : ℤ) : (n : ℚ) * 2 ^ e < 2 ^ ((Nat.log2 n : ℤ) + e + 1) := by
  have exponent : (Nat.log2 n : ℤ) + e + 1 = e + (Nat.log2 n + 1 : Nat) := by
    push_cast
    ring
  rw [exponent, ← natCast_two_pow]
  exact mul_lt_mul_of_pos_right (by exact_mod_cast Nat.lt_log2_self) (two_zpow_pos e)

theorem shift_left (n k : Nat) (e : ℤ) : (n : ℚ) * 2 ^ e / 2 ^ (e - k) = ((n * 2 ^ k : Nat) : ℚ) := by
  rw [div_eq_iff (two_zpow_pos _).ne', Nat.cast_mul, mul_assoc, natCast_two_pow, sub_add_cancel]

theorem shift_right (n k : Nat) (e : ℤ) : (n : ℚ) * 2 ^ e / 2 ^ (e + k) = (n : ℚ) / (2 ^ k : Nat) := by
  have power : ((2 ^ k : Nat) : ℚ) ≠ 0 := by exact_mod_cast (Nat.two_pow_pos k).ne'
  rw [div_eq_div_iff (two_zpow_pos _).ne' power, ← natCast_two_pow]
  ring

/-- `roundBits` rounds. -/
theorem roundBits_value {p n : Nat} (significant : 0 < p) (nonzero : n ≠ 0) (e : ℤ) :
    ((roundBits p n e).1 : ℚ) * 2 ^ (roundBits p n e).2 = rounded p (n * 2 ^ e) := by
  have grid : gridExponent p ((n : ℚ) * 2 ^ e) = Nat.log2 n + e + 1 - p :=
    gridExponent_eq (two_zpow_log2_le nonzero e) (lt_two_zpow_log2 n e)
  rw [rounded, grid, roundBits]
  by_cases fits : Nat.log2 n + 1 ≤ p
  · have exponent : (Nat.log2 n : ℤ) + e + 1 - p = e - (p - (Nat.log2 n + 1) : Nat) := by omega
    rw [if_pos fits, exponent, shift_left, nearest_natCast]
  · have exponent : (Nat.log2 n : ℤ) + e + 1 - p = e + (Nat.log2 n + 1 - p : Nat) := by omega
    rw [if_neg fits, exponent, shift_right, nearest_div n (Nat.two_pow_pos _)]
    dsimp only
    split
    · rename_i carried
      have power : p - 1 + 1 = p := by omega
      rw [carried, natCast_two_pow, natCast_two_pow]
      congr 1
      omega
    · rfl

/-! ## Quotients with a last odd bit -/

/-- Twice a quotient of which only the whole part is known, with an odd bit for what is left over. -/
def sticky (num den : Nat) : Nat := 2 * (num / den) + if num % den = 0 then 0 else 1

/-- The odd bit tells on which side of every even number the quotient lies. -/
theorem sticky_lt_iff {num den : Nat} (positive : 0 < den) (j : Nat) :
    sticky num den < 2 * j ↔ num < j * den := by
  rw [← Nat.div_lt_iff_lt_mul positive, sticky]
  split <;> omega

theorem sticky_eq_iff {num den : Nat} (positive : 0 < den) (j : Nat) :
    sticky num den = 2 * j ↔ num = j * den := by
  have parts : den * (num / den) + num % den = num := Nat.div_add_mod num den
  have small : num % den < den := Nat.mod_lt num positive
  rw [sticky]
  constructor
  · intro even
    split at even
    · rename_i exactly
      rw [exactly, Nat.add_zero] at parts
      have quotient : num / den = j := by omega
      rw [← parts, quotient, Nat.mul_comm]
    · omega
  · rintro rfl
    rw [Nat.mul_mod_left, if_pos rfl, Nat.mul_div_cancel _ positive, Nat.add_zero]

/-- With two bits to spare, rounding the quotient with the odd bit is rounding the quotient. -/
theorem roundDiv_sticky {num den : Nat} (positive : 0 < den) (s : Nat) :
    roundDiv (sticky num den) (2 ^ (s + 2)) = roundDiv (2 * num) (den * 2 ^ (s + 2)) := by
  have power : 0 < 2 ^ (s + 2) := Nat.two_pow_pos _
  refine Nat.eq_iff_le_and_ge.mpr ?_
  have same : ∀ k, roundDiv (sticky num den) (2 ^ (s + 2)) ≤ k ↔
      roundDiv (2 * num) (den * 2 ^ (s + 2)) ≤ k := by
    intro k
    -- the middle between two neighbours of the grid is four times a natural number
    have middle : (2 * k + 1) * 2 ^ (s + 2) = 2 * (2 * ((2 * k + 1) * 2 ^ s)) := by ring
    have scaled : (2 * k + 1) * (den * 2 ^ (s + 2)) = 4 * ((2 * k + 1) * 2 ^ s * den) := by ring
    have less := @sticky_lt_iff num den positive ((2 * k + 1) * 2 ^ s)
    have equal := @sticky_eq_iff num den positive ((2 * k + 1) * 2 ^ s)
    rw [roundDiv_le_iff power, roundDiv_le_iff (Nat.mul_pos positive power), middle, scaled]
    refine or_congr ?_ (and_congr_left fun _ => ?_)
    · rw [show 2 * (2 * num) = 4 * num by ring, Nat.mul_lt_mul_left (by decide),
        Nat.mul_lt_mul_left (by decide), less]
    · rw [show 2 * (2 * num) = 4 * num by ring, Nat.mul_right_inj (by decide), Nat.mul_right_inj (by decide),
        equal]
  exact ⟨(same _).mpr (Nat.le_refl _), (same _).mp (Nat.le_refl _)⟩

theorem two_zpow_le_div {n a den : Nat} (positive : 0 < den) (le : 2 ^ n * den ≤ a) (e : ℤ) :
    2 ^ ((n : ℤ) + e) ≤ (a : ℚ) / den * 2 ^ e := by
  have denPositive : (0 : ℚ) < den := by exact_mod_cast positive
  rw [add_comm, ← natCast_two_pow]
  refine mul_le_mul_of_nonneg_right ?_ (two_zpow_pos e).le
  rw [le_div_iff₀ denPositive]
  exact_mod_cast le

theorem div_lt_two_zpow {n a den : Nat} (positive : 0 < den) (less : a < 2 ^ n * den) (e : ℤ) :
    (a : ℚ) / den * 2 ^ e < 2 ^ ((n : ℤ) + e) := by
  have denPositive : (0 : ℚ) < den := by exact_mod_cast positive
  rw [add_comm, ← natCast_two_pow]
  refine mul_lt_mul_of_pos_right ?_ (two_zpow_pos e)
  rw [div_lt_iff₀ denPositive]
  exact_mod_cast less

/-- Rounding the quotient with the odd bit to a number of bits is rounding the quotient, if there are two bits
to spare. -/
theorem rounded_sticky {p num den : Nat} (positive : 0 < den) (spare : 2 ^ (p + 1) * den ≤ num) (e : ℤ) :
    rounded p (sticky num den * 2 ^ e) = rounded p ((2 * num : Nat) / den * 2 ^ e) := by
  have notLess : ∀ {j : Nat}, 2 * j ≤ sticky num den ↔ j * den ≤ num := by
    intro j
    rw [← Nat.not_lt, sticky_lt_iff positive, Nat.not_lt]
  have large : 2 ^ (p + 2) ≤ sticky num den := by
    rw [Nat.pow_succ']
    exact notLess.mpr spare
  have nonzero : sticky num den ≠ 0 := (Nat.lt_of_lt_of_le (Nat.two_pow_pos _) large).ne'
  have length : p + 2 ≤ Nat.log2 (sticky num den) := (Nat.le_log2 nonzero).mpr large
  obtain ⟨s, bits⟩ : ∃ s, Nat.log2 (sticky num den) = p + s + 1 :=
    ⟨Nat.log2 (sticky num den) - p - 1, by omega⟩
  -- the quotient is between the same powers of two
  have low : 2 ^ (p + s + 1) * den ≤ 2 * num := by
    have whole : 2 ^ (p + s) * den ≤ num := by
      refine notLess.mp ?_
      rw [← Nat.pow_succ', Nat.succ_eq_add_one, ← bits]
      exact Nat.log2_self_le nonzero
    rw [Nat.pow_succ', Nat.mul_assoc]
    exact Nat.mul_le_mul_left 2 whole
  have high : 2 * num < 2 ^ (p + s + 2) * den := by
    have whole : num < 2 ^ (p + s + 1) * den := by
      refine (sticky_lt_iff positive _).mp ?_
      rw [← Nat.pow_succ', ← bits]
      exact Nat.lt_log2_self
    rw [Nat.pow_succ', Nat.mul_assoc]
    exact Nat.mul_lt_mul_of_pos_left whole (by decide)
  have grid : gridExponent p ((sticky num den : ℚ) * 2 ^ e) = e + (s + 2 : Nat) := by
    rw [gridExponent_eq (two_zpow_log2_le nonzero e) (lt_two_zpow_log2 _ e), bits]
    push_cast
    ring
  have gridQuotient : gridExponent p (((2 * num : Nat) : ℚ) / den * 2 ^ e) = e + (s + 2 : Nat) := by
    have upper := div_lt_two_zpow positive high e
    rw [show ((p + s + 2 : Nat) : ℤ) + e = ((p + s + 1 : Nat) : ℤ) + e + 1 by push_cast; ring] at upper
    rw [gridExponent_eq (two_zpow_le_div positive low e) upper]
    push_cast
    ring
  have denNonzero : (den : ℚ) ≠ 0 := by exact_mod_cast positive.ne'
  have quotient : ((2 * num : Nat) : ℚ) / den * 2 ^ e / 2 ^ (e + (s + 2 : Nat)) =
      ((2 * num : Nat) : ℚ) / ((den * 2 ^ (s + 2) : Nat) : ℚ) := by
    rw [div_mul_eq_mul_div, div_right_comm, shift_right, div_div, Nat.mul_comm den,
      Nat.cast_mul (2 ^ (s + 2))]
  rw [rounded, rounded, grid, gridQuotient, shift_right, quotient, nearest_div _ (Nat.two_pow_pos _),
    nearest_div _ (Nat.mul_pos positive (Nat.two_pow_pos _)), roundDiv_sticky positive]

/-- `roundQuotient` rounds. -/
theorem roundQuotient_value {p num den : Nat} (significant : 0 < p) (nonzero : num ≠ 0) (positive : 0 < den)
    (e : ℤ) : ((roundQuotient p num den e).1 : ℚ) * 2 ^ (roundQuotient p num den e).2 =
      rounded p ((num : ℚ) / den * 2 ^ e) := by
  have small : den ≤ 2 ^ (Nat.log2 den + 1) := Nat.lt_log2_self.le
  have form : roundQuotient p num den e =
      roundBits p (sticky (num * 2 ^ (p + 2 + Nat.log2 den)) den) (e - (p + 2 + Nat.log2 den : Nat) - 1) := rfl
  obtain ⟨shift, bits⟩ : ∃ shift, shift = p + 2 + Nat.log2 den := ⟨_, rfl⟩
  rw [← bits] at form
  have spare : 2 ^ (p + 1) * den ≤ num * 2 ^ shift := by
    calc 2 ^ (p + 1) * den ≤ 2 ^ (p + 1) * 2 ^ (Nat.log2 den + 1) := Nat.mul_le_mul_left _ small
      _ = 2 ^ shift := by
        rw [← Nat.pow_add, bits]
        congr 1
        omega
      _ ≤ num * 2 ^ shift := Nat.le_mul_of_pos_left _ (Nat.pos_of_ne_zero nonzero)
  have stickyNonzero : sticky (num * 2 ^ shift) den ≠ 0 := by
    intro zero
    have none := (@sticky_eq_iff _ den positive 0).mp zero
    rw [Nat.zero_mul] at none
    exact Nat.mul_ne_zero nonzero (Nat.two_pow_pos _).ne' none
  have scaled : ((2 * (num * 2 ^ shift) : Nat) : ℚ) * 2 ^ (e - shift - 1) = num * 2 ^ e := by
    have power := natCast_two_pow (shift + 1) (e - shift - 1)
    rw [show 2 * (num * 2 ^ shift) = num * 2 ^ (shift + 1) by ring, Nat.cast_mul, mul_assoc, power]
    congr 2
    push_cast
    ring
  rw [form, roundBits_value significant stickyNonzero, rounded_sticky positive spare, div_mul_eq_mul_div,
    scaled, div_mul_eq_mul_div]

/-! ## Binary formats -/

theorem roundScaled_eq (num : Nat) {den : Nat} (positive : 0 < den) (e : ℤ) :
    roundScaled num den e = nearest ((num : ℚ) / den / 2 ^ e) := by
  rw [roundScaled]
  split
  · rename_i nonneg
    have power : ((den * 2 ^ e.toNat : Nat) : ℚ) = den * 2 ^ e := by
      rw [Nat.cast_mul, Nat.cast_pow, Nat.cast_ofNat, ← zpow_natCast, Int.toNat_of_nonneg nonneg]
    rw [← nearest_div num (Nat.mul_pos positive (Nat.two_pow_pos _)), power, div_div]
  · rename_i negative
    have power : ((num * 2 ^ (-e).toNat : Nat) : ℚ) = num / 2 ^ e := by
      rw [Nat.cast_mul, Nat.cast_pow, Nat.cast_ofNat, ← zpow_natCast, Int.toNat_of_nonneg (by omega),
        zpow_neg, div_eq_mul_inv]
    rw [← nearest_div _ positive, power, div_right_comm]

/-- A whole part is below a power of two if the quotient is. -/
theorem floor_lt_two_pow_iff {p num den : Nat} (positive : 0 < den) (e : ℤ) :
    (if 0 ≤ e then num / (den * 2 ^ e.toNat) else num * 2 ^ (-e).toNat / den) < 2 ^ p ↔
      (num : ℚ) / den < 2 ^ (e + p) := by
  have denPositive : (0 : ℚ) < den := by exact_mod_cast positive
  rw [div_lt_iff₀ denPositive, ← natCast_two_pow]
  split
  · rename_i nonneg
    have power : (2 : ℚ) ^ e = ((2 ^ e.toNat : Nat) : ℚ) := by
      rw [Nat.cast_pow, Nat.cast_ofNat, ← zpow_natCast, Int.toNat_of_nonneg nonneg]
    rw [Nat.div_lt_iff_lt_mul (Nat.mul_pos positive (Nat.two_pow_pos _)), power, mul_assoc,
      mul_comm (_ : ℚ) (den : ℚ)]
    exact_mod_cast Iff.rfl
  · rename_i negative
    have power : (2 : ℚ) ^ e = ((2 ^ (-e).toNat : Nat) : ℚ)⁻¹ := by
      rw [Nat.cast_pow, Nat.cast_ofNat, ← zpow_natCast, Int.toNat_of_nonneg (by omega), zpow_neg, inv_inv]
    have powerPositive : (0 : ℚ) < ((2 ^ (-e).toNat : Nat) : ℚ) := by exact_mod_cast Nat.two_pow_pos _
    rw [Nat.div_lt_iff_lt_mul positive, power, mul_right_comm, ← div_eq_mul_inv, lt_div_iff₀ powerPositive]
    exact_mod_cast Iff.rfl

/-- A quotient by the bits of its terms. -/
theorem two_zpow_le_quotient {num den : Nat} (nonzero : num ≠ 0) (positive : 0 < den) :
    (2 : ℚ) ^ ((Nat.log2 num : ℤ) - Nat.log2 den - 1) ≤ num / den := by
  have denPositive : (0 : ℚ) < den := by exact_mod_cast positive
  have numLow : ((2 : ℚ) ^ (Nat.log2 num : ℤ)) ≤ num := by
    simpa using two_zpow_log2_le nonzero 0
  have denHigh : (den : ℚ) < 2 ^ ((Nat.log2 den : ℤ) + 1) := by
    simpa using lt_two_zpow_log2 den 0
  rw [le_div_iff₀ denPositive]
  calc (2 : ℚ) ^ ((Nat.log2 num : ℤ) - Nat.log2 den - 1) * den
      ≤ 2 ^ ((Nat.log2 num : ℤ) - Nat.log2 den - 1) * 2 ^ ((Nat.log2 den : ℤ) + 1) :=
        mul_le_mul_of_nonneg_left denHigh.le (two_zpow_pos _).le
    _ = 2 ^ (Nat.log2 num : ℤ) := by
        rw [← zpow_add₀ two_ne_zero]
        congr 1
        ring
    _ ≤ num := numLow

theorem quotient_lt_two_zpow (num : Nat) {den : Nat} (positive : 0 < den) :
    (num : ℚ) / den < 2 ^ ((Nat.log2 num : ℤ) - Nat.log2 den + 1) := by
  have denPositive : (0 : ℚ) < den := by exact_mod_cast positive
  have numHigh : (num : ℚ) < 2 ^ ((Nat.log2 num : ℤ) + 1) := by
    simpa using lt_two_zpow_log2 num 0
  have denLow : ((2 : ℚ) ^ (Nat.log2 den : ℤ)) ≤ den := by
    simpa using two_zpow_log2_le positive.ne' 0
  rw [div_lt_iff₀ denPositive]
  calc (num : ℚ) < 2 ^ ((Nat.log2 num : ℤ) + 1) := numHigh
    _ = 2 ^ ((Nat.log2 num : ℤ) - Nat.log2 den + 1) * 2 ^ (Nat.log2 den : ℤ) := by
        rw [← zpow_add₀ two_ne_zero]
        congr 1
        ring
    _ ≤ 2 ^ ((Nat.log2 num : ℤ) - Nat.log2 den + 1) * den :=
        mul_le_mul_of_nonneg_left denLow (two_zpow_pos _).le

theorem mantissaExponent_eq {p num den : Nat} (nonzero : num ≠ 0) (positive : 0 < den) :
    mantissaExponent p num den = gridExponent p ((num : ℚ) / den) := by
  have low := two_zpow_le_quotient nonzero positive
  have high := quotient_lt_two_zpow num positive
  have whole := @floor_lt_two_pow_iff p num den positive ((Nat.log2 num : ℤ) - Nat.log2 den - p)
  rw [sub_add_cancel] at whole
  by_cases below : (num : ℚ) / den < 2 ^ ((Nat.log2 num : ℤ) - Nat.log2 den)
  · have exponent : mantissaExponent p num den = (Nat.log2 num : ℤ) - Nat.log2 den - p :=
      if_pos (whole.mpr below)
    have upper := below
    rw [← sub_add_cancel ((Nat.log2 num : ℤ) - Nat.log2 den) 1] at upper
    rw [exponent, gridExponent_eq low upper, sub_add_cancel]
  · have exponent : mantissaExponent p num den = (Nat.log2 num : ℤ) - Nat.log2 den - p + 1 :=
      if_neg (mt whole.mp below)
    rw [exponent, gridExponent_eq (not_lt.mp below) high]
    ring

namespace Format

variable {x y : ℚ}

/-- The exponent of the grid of a format at a positive number. -/
def exponentAt (f : Format) (x : ℚ) : ℤ := max (gridExponent f.precision x) f.leastExponent

/-- The bits of the magnitude nearest to a positive number, were there no largest exponent. -/
def bitsAt (f : Format) (x : ℚ) : Nat :=
  (f.exponentAt x - f.leastExponent).toNat * 2 ^ (f.precision - 1) + nearest (x / 2 ^ f.exponentAt x)

theorem exponentAt_mono (f : Format) (positive : 0 < x) (le : x ≤ y) : f.exponentAt x ≤ f.exponentAt y :=
  max_le_max (gridExponent_mono f.precision positive le) (Int.le_refl _)

/-- A larger number has larger bits.  On a coarser grid the mantissa is shorter by at most a half, for which
the exponent makes up. -/
theorem bitsAt_mono (f : Format) (significant : 0 < f.precision) (positive : 0 < x) (le : x ≤ y) :
    f.bitsAt x ≤ f.bitsAt y := by
  have atLeast : f.leastExponent ≤ f.exponentAt x := le_max_right _ _
  rcases (f.exponentAt_mono positive le).eq_or_lt with same | finer
  · rw [bitsAt, bitsAt, ← same]
    refine Nat.add_le_add_left (nearest_mono ?_ ?_) _
    · exact div_nonneg positive.le (two_zpow_pos _).le
    · exact div_le_div_of_nonneg_right le (two_zpow_pos _).le
  · have coarse : f.exponentAt y = gridExponent f.precision y := by
      refine max_eq_left (le_of_lt ?_)
      refine (lt_max_iff.mp (atLeast.trans_lt finer)).resolve_right (lt_irrefl _)
    have upper : nearest (x / 2 ^ f.exponentAt x) ≤ 2 ^ f.precision := by
      refine nearest_le_two_pow positive.le ((lt_two_zpow_gridExponent f.precision x).le.trans ?_)
      exact zpow_le_zpow_right₀ (by norm_num) (add_le_add_left (le_max_left _ _) _)
    have lower : 2 ^ (f.precision - 1) ≤ nearest (y / 2 ^ f.exponentAt y) := by
      refine two_pow_le_nearest ?_
      rw [coarse]
      exact two_zpow_gridExponent_le significant (positive.trans_le le)
    obtain ⟨steps, next⟩ : ∃ steps, (f.exponentAt y - f.leastExponent).toNat =
        (f.exponentAt x - f.leastExponent).toNat + 1 + steps :=
      ⟨(f.exponentAt y - f.leastExponent).toNat - (f.exponentAt x - f.leastExponent).toNat - 1, by omega⟩
    have double : 2 ^ f.precision = 2 * 2 ^ (f.precision - 1) := by
      rw [← Nat.pow_succ', Nat.succ_eq_add_one, Nat.sub_add_cancel significant]
    rw [bitsAt, bitsAt, next, Nat.add_mul, Nat.add_mul, Nat.one_mul]
    omega

theorem magnitudeBits?_eq (f : Format) {num den : Nat} (nonzero : num ≠ 0) (positive : 0 < den) :
    f.magnitudeBits? num den =
      if f.bitsAt ((num : ℚ) / den) < f.infinityBits then some (f.bitsAt ((num : ℚ) / den)) else none := by
  rw [magnitudeBits?, if_neg nonzero, mantissaExponent_eq nonzero positive]
  dsimp only
  rw [roundScaled_eq num positive]
  rfl

/-- A larger quotient has larger bits. -/
theorem magnitudeBits?_mono (f : Format) (significant : 0 < f.precision) {num den num' den' bits bits' : Nat}
    (positive : 0 < den) (positive' : 0 < den') (le : (num : ℚ) / den ≤ num' / den')
    (found : f.magnitudeBits? num den = some bits) (found' : f.magnitudeBits? num' den' = some bits') :
    bits ≤ bits' := by
  by_cases zero : num = 0
  · rw [magnitudeBits?, if_pos zero] at found
    cases found
    exact Nat.zero_le _
  · have quotient : (0 : ℚ) < num / den := by
      have : 0 < num := Nat.pos_of_ne_zero zero
      positivity
    have nonzero : num' ≠ 0 := by
      rintro rfl
      rw [Nat.cast_zero, zero_div] at le
      exact absurd quotient (not_lt.mpr le)
    rw [magnitudeBits?_eq f zero positive] at found
    rw [magnitudeBits?_eq f nonzero positive'] at found'
    split at found
    · split at found'
      · cases found
        cases found'
        exact f.bitsAt_mono significant quotient le
      · cases found'
    · cases found

end Format

end DocTable.Number
