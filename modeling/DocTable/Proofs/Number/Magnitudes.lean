import DocTable.Proofs.Number.Integers

/-!
# How large numbers get

A finite number of an attribute is below `2 ^ top` if its exponent says so (`Extended.Within`).  This
module follows that bound through reading and adding.

Rounding to a number of bits keeps the leading bit, or moves it up by one place
(`roundBits_spec`); it does not move up what is closer to a full mantissa than to the power of two above
it (`roundBits_of_below`).  So a decimal with a bounded number of digits is read as a bounded number
(`Extended.scale_within`), and a sum is not beyond the larger of its terms once the other one is too small
to matter (`Extended.add?_within`): adding the same amount again and again comes to rest.
-/

namespace DocTable.Number

set_option autoImplicit false

attribute [local instance] Number.corePower

/-! ## Rounding -/

theorem roundDiv_cases (num den : Nat) : roundDiv num den = num / den ∨
    (roundDiv num den = num / den + 1 ∧ den ≤ 2 * (num % den)) := by
  rw [roundDiv]
  split
  · exact .inl rfl
  · split
    · exact .inr ⟨rfl, by omega⟩
    · split
      · exact .inl rfl
      · exact .inr ⟨rfl, by omega⟩

variable {p n : Nat}

/-- A rounded mantissa has exactly the bits of the precision, and its leading bit stands where that of the
number does, or one place above. -/
theorem roundBits_spec (positive : 0 < p) (nonzero : n ≠ 0) (e : Int) :
    2 ^ (p - 1) ≤ (roundBits p n e).1 ∧ (roundBits p n e).1 < 2 ^ p ∧
      (Nat.log2 n : Int) + 1 + e ≤ (roundBits p n e).2 + p ∧
      (roundBits p n e).2 + p ≤ (Nat.log2 n : Int) + 2 + e := by
  have low : 2 ^ Nat.log2 n ≤ n := Nat.log2_self_le nonzero
  have high : n < 2 ^ (Nat.log2 n + 1) := Nat.lt_log2_self
  rw [roundBits]
  by_cases fits : Nat.log2 n + 1 ≤ p
  · rw [if_pos fits]
    have power := Nat.two_pow_pos (p - (Nat.log2 n + 1))
    refine ⟨?_, ?_, by dsimp only; omega, by dsimp only; omega⟩
    · have split : p - 1 = Nat.log2 n + (p - (Nat.log2 n + 1)) := by omega
      rw [split, Nat.pow_add]
      exact Nat.mul_le_mul_right _ low
    · have split : p = Nat.log2 n + 1 + (p - (Nat.log2 n + 1)) := by omega
      calc n * 2 ^ (p - (Nat.log2 n + 1))
          < 2 ^ (Nat.log2 n + 1) * 2 ^ (p - (Nat.log2 n + 1)) := Nat.mul_lt_mul_of_pos_right high power
        _ = 2 ^ p := by rw [← Nat.pow_add, ← split]
  · rw [if_neg fits]
    dsimp only
    have power := Nat.two_pow_pos (Nat.log2 n + 1 - p)
    have quotientLow : 2 ^ (p - 1) ≤ n / 2 ^ (Nat.log2 n + 1 - p) := by
      rw [Nat.le_div_iff_mul_le power, ← Nat.pow_add]
      have split : p - 1 + (Nat.log2 n + 1 - p) = Nat.log2 n := by omega
      rw [split]
      exact low
    have quotientHigh : n / 2 ^ (Nat.log2 n + 1 - p) < 2 ^ p := by
      rw [Nat.div_lt_iff_lt_mul power, ← Nat.pow_add]
      have split : p + (Nat.log2 n + 1 - p) = Nat.log2 n + 1 := by omega
      rw [split]
      exact high
    have rounded := roundDiv_cases n (2 ^ (Nat.log2 n + 1 - p))
    by_cases carried : roundDiv n (2 ^ (Nat.log2 n + 1 - p)) = 2 ^ p
    · rw [if_pos carried]
      refine ⟨Nat.le_refl _, Nat.pow_lt_pow_right (by decide) (by omega), by dsimp only; omega, ?_⟩
      dsimp only
      omega
    · rw [if_neg carried]
      refine ⟨?_, ?_, by dsimp only; omega, by dsimp only; omega⟩
      · dsimp only
        omega
      · dsimp only
        omega

/-- A number that is closer to the greatest mantissa of an exponent than to the power of two above it keeps
the exponent. -/
theorem roundBits_of_below (positive : 0 < p) (nonzero : n ≠ 0) (e : Int) {a : Nat}
    (below : 2 * n < (2 ^ (p + 1) - 1) * 2 ^ a) : (roundBits p n e).2 ≤ e + a := by
  have bound : n < 2 ^ (p + a) := by
    have whole : (2 ^ (p + 1) - 1) * 2 ^ a ≤ 2 * 2 ^ (p + a) := by
      have double : 2 * 2 ^ (p + a) = 2 ^ (p + 1) * 2 ^ a := by
        rw [← Nat.pow_succ', ← Nat.pow_add]
        congr 1
        omega
      rw [double]
      exact Nat.mul_le_mul_right _ (Nat.sub_le _ _)
    omega
  have length : Nat.log2 n < p + a := (Nat.log2_lt nonzero).mpr bound
  have spec := (roundBits_spec positive nonzero e).2.2.2
  by_cases shorter : Nat.log2 n + 2 ≤ p + a
  · omega
  · have exactly : Nat.log2 n + 1 = p + a := by omega
    rw [roundBits, exactly]
    by_cases whole : p + a ≤ p
    · rw [if_pos whole]
      dsimp only
      omega
    · rw [if_neg whole]
      have shift : p + a - p = a := by omega
      dsimp only
      rw [shift]
      have power := Nat.two_pow_pos a
      have quotient : n / 2 ^ a < 2 ^ p := by
        rw [Nat.div_lt_iff_lt_mul power, ← Nat.pow_add]
        exact bound
      have uncarried : roundDiv n (2 ^ a) ≠ 2 ^ p := by
        intro carried
        rcases roundDiv_cases n (2 ^ a) with same | ⟨next, half⟩
        · exact absurd (same.symm.trans carried) (Nat.ne_of_lt quotient)
        · have last : n / 2 ^ a = 2 ^ p - 1 := Nat.eq_sub_of_add_eq (next.symm.trans carried)
          have parts := Nat.div_add_mod n (2 ^ a)
          rw [last] at parts
          have power2 := Nat.two_pow_pos p
          have enough : (2 ^ (p + 1) - 1) * 2 ^ a ≤ 2 * n := by
            calc (2 ^ (p + 1) - 1) * 2 ^ a = (2 * (2 ^ p - 1) + 1) * 2 ^ a := by
                  rw [Nat.pow_succ]
                  congr 1
                  omega
              _ = 2 * (2 ^ a * (2 ^ p - 1)) + 2 ^ a := by
                  rw [Nat.add_mul, Nat.one_mul, Nat.mul_assoc, Nat.mul_comm (2 ^ p - 1)]
              _ ≤ 2 * n := by omega
          omega
      exact Int.le_of_eq (by rw [if_neg uncarried])

namespace Extended

/-- A finite number in its form of 64 bits, below a power of two. -/
def Within (top : Int) : Extended → Prop
  | .infinite _ => False
  | .finite _ m e =>
    m = 0 ∨ (2 ^ (precision - 1) ≤ m ∧ m < 2 ^ precision ∧ e + 64 ≤ top ∧ -exponentLimit - 1 ≤ e + 64)

variable {top : Int} {negative : Bool} {m : Nat} {e : Int}

theorem Within.mono {x : Extended} (within : x.Within top) {higher : Int} (le : top ≤ higher) :
    x.Within higher := by
  cases x with
  | infinite negative => exact within
  | finite negative m e =>
    rcases within with zero | ⟨low, high, below, above⟩
    · exact .inl zero
    · exact .inr ⟨low, high, by omega, above⟩

theorem ofParts_within (low : 2 ^ (precision - 1) ≤ m) (high : m < 2 ^ precision)
    (below : e + 64 ≤ top) (possible : top ≤ exponentLimit) : (ofParts negative (m, e)).Within top := by
  have width : ((precision : Nat) : Int) = 64 := rfl
  rw [ofParts]
  dsimp only
  rw [width, if_neg (by omega)]
  split
  · exact .inl rfl
  · exact .inr ⟨low, high, below, by omega⟩

theorem ofParts_roundBits_within {n : Nat} (nonzero : n ≠ 0)
    (below : (roundBits precision n e).2 + 64 ≤ top) (possible : top ≤ exponentLimit) :
    (ofParts negative (roundBits precision n e)).Within top := by
  obtain ⟨low, high, _, _⟩ := roundBits_spec (show 0 < precision by decide) nonzero e
  exact ofParts_within low high below possible

theorem round_within {n : Nat} (below : n ≠ 0 → (roundBits precision n e).2 + 64 ≤ top)
    (possible : top ≤ exponentLimit) : (round negative n e).Within top := by
  rw [round]
  split
  · exact .inl rfl
  · rename_i nonzero
    exact ofParts_roundBits_within nonzero (below nonzero) possible

/-! ## Powers of five -/

/-- A power that is at least one. -/
def Power.AtLeastOne (x : Power) : Prop := ∀ m e, x = some (m, e) → m ≠ 0 ∧ 0 ≤ (Nat.log2 m : Int) + e

theorem Power.AtLeastOne.mul {x y : Power} (first : x.AtLeastOne) (second : y.AtLeastOne) {bits : Nat}
    (positive : 0 < bits) : (Power.mul bits x y).AtLeastOne := by
  intro q f product
  obtain ⟨⟨m, e⟩, rfl, times⟩ := Option.bind_eq_some_iff.mp product
  obtain ⟨⟨n, d⟩, rfl, multiplied⟩ := Option.bind_eq_some_iff.mp times
  obtain ⟨nonzeroM, leadM⟩ := first m e rfl
  obtain ⟨nonzeroN, leadN⟩ := second n d rfl
  have nonzero : m * n ≠ 0 := Nat.mul_ne_zero nonzeroM nonzeroN
  have lead : Nat.log2 m + Nat.log2 n ≤ Nat.log2 (m * n) := by
    rw [Nat.le_log2 nonzero, Nat.pow_add]
    exact Nat.mul_le_mul (Nat.log2_self_le nonzeroM) (Nat.log2_self_le nonzeroN)
  obtain ⟨low, _, above, _⟩ := roundBits_spec positive nonzero (e + d)
  cases rounded : roundBits bits (m * n) (e + d) with
  | mk r g =>
    rw [rounded] at low above
    dsimp only at low above multiplied
    rw [rounded] at multiplied
    dsimp only at multiplied
    split at multiplied
    · cases multiplied
    · cases multiplied
      have nonzeroQ : q ≠ 0 := Nat.ne_of_gt (Nat.lt_of_lt_of_le (Nat.two_pow_pos _) low)
      have length : bits - 1 ≤ Nat.log2 q := (Nat.le_log2 nonzeroQ).mpr low
      exact ⟨nonzeroQ, by omega⟩

theorem Power.AtLeastOne.mulPow {power factor : Power} (fuel n : Nat) (first : power.AtLeastOne)
    (second : factor.AtLeastOne) : (Power.mulPow fuel n power factor).AtLeastOne := by
  induction fuel generalizing n power factor with
  | zero => exact first
  | succ fuel ih =>
    rw [Power.mulPow]
    split
    · exact first
    · refine ih _ ?_ (second.mul second (by decide))
      split
      · exact first.mul second (by decide)
      · exact first

theorem powerOfFive_atLeastOne (n : Nat) : (powerOfFive n).AtLeastOne := by
  have whole : ∀ k : Nat, Power.AtLeastOne (some (5 ^ k, 0)) := by
    intro k m e same
    cases same
    exact ⟨Nat.ne_of_gt (Nat.pow_pos (by decide)), by omega⟩
  rw [powerOfFive]
  split
  · exact whole n
  · exact Power.AtLeastOne.mulPow 64 (n - 27) (whole 27) (whole 1)

/-! ## Reading -/

/-- A quotient by a number that is at least one is not beyond its numerator. -/
theorem roundQuotient_le {v m : Nat} (nonzeroV : v ≠ 0) (nonzeroM : m ≠ 0) (e : Int) :
    ∃ n, n ≠ 0 ∧ roundQuotient precision v m e =
        roundBits precision n (e - ((precision + 2 + Nat.log2 m : Nat) : Int) - 1) ∧
      (Nat.log2 n : Int) ≤ Nat.log2 v + ((precision + 3 : Nat) : Int) := by
  have lead : 2 ^ Nat.log2 m ≤ m := Nat.log2_self_le nonzeroM
  have small : m < 2 ^ (Nat.log2 m + 1) := Nat.lt_log2_self
  have highV : v < 2 ^ (Nat.log2 v + 1) := Nat.lt_log2_self
  have positiveM : 0 < m := Nat.pos_of_ne_zero nonzeroM
  have width : precision = 64 := rfl
  let q := v * 2 ^ (precision + 2 + Nat.log2 m) / m
  have quotientLow : 1 ≤ q := by
    refine (Nat.le_div_iff_mul_le positiveM).mpr ?_
    have power : 2 ^ (Nat.log2 m + 1) ≤ 2 ^ (precision + 2 + Nat.log2 m) :=
      Nat.pow_le_pow_right (by decide) (by omega)
    have scaled : 2 ^ (precision + 2 + Nat.log2 m) ≤ v * 2 ^ (precision + 2 + Nat.log2 m) :=
      Nat.le_mul_of_pos_left _ (Nat.pos_of_ne_zero nonzeroV)
    omega
  have quotientHigh : q ≤ v * 2 ^ (precision + 2) := by
    refine Nat.div_le_of_le_mul ?_
    rw [Nat.pow_add, ← Nat.mul_assoc, Nat.mul_comm m]
    exact Nat.mul_le_mul_left _ lead
  refine ⟨2 * q + if v * 2 ^ (precision + 2 + Nat.log2 m) % m = 0 then 0 else 1, ?_, rfl, ?_⟩
  · omega
  · have rest : (if v * 2 ^ (precision + 2 + Nat.log2 m) % m = 0 then 0 else 1) ≤ 1 := by
      split <;> omega
    have bound : 2 * q + (if v * 2 ^ (precision + 2 + Nat.log2 m) % m = 0 then 0 else 1) <
        2 ^ (Nat.log2 v + (precision + 3) + 1) := by
      have room : (v + 1) * 2 ^ (precision + 2) ≤ 2 ^ (Nat.log2 v + 1) * 2 ^ (precision + 2) :=
        Nat.mul_le_mul_right _ highV
      have power : 2 ^ (Nat.log2 v + (precision + 3) + 1) =
          2 * (2 ^ (Nat.log2 v + 1) * 2 ^ (precision + 2)) := by
        rw [← Nat.pow_add, ← Nat.pow_succ']
        congr 1
      have more : 1 ≤ 2 ^ (precision + 2) := Nat.two_pow_pos _
      rw [Nat.add_mul, Nat.one_mul] at room
      omega
    have length := (Nat.log2_lt (by omega)).mpr bound
    omega

/-- What the digits `v` of a decimal with `places` digits behind the point are read as. -/
theorem scale_within {v : Nat} (nonzero : v ≠ 0) (places : Nat)
    (below : (Nat.log2 v : Int) + 2 - places ≤ top) (possible : top ≤ exponentLimit) :
    (scale negative v (-(places : Int)) (-(places : Int))).Within top := by
  rw [scale]
  have width : ((precision : Nat) : Int) = 64 := rfl
  by_cases whole : places = 0
  · rw [if_pos (by omega)]
    refine round_within (fun _ => ?_) possible
    have spec := (roundBits_spec (show 0 < precision by decide) nonzero (-(places : Int))).2.2.2
    omega
  · rw [if_neg (by omega)]
    have size : (-(places : Int)).natAbs = places := by omega
    rw [size]
    split
    · rw [if_pos (by omega)]
      exact .inl rfl
    · rename_i m e power
      obtain ⟨nonzeroM, lead⟩ := powerOfFive_atLeastOne places m e power
      rw [if_pos (by omega)]
      obtain ⟨n, nonzeroN, rounded, length⟩ :=
        roundQuotient_le nonzero nonzeroM (-(places : Int) - e)
      rw [rounded]
      refine ofParts_roundBits_within nonzeroN ?_ possible
      have spec := (roundBits_spec (show 0 < precision by decide) nonzeroN
        (-(places : Int) - e - ((precision + 2 + Nat.log2 m : Nat) : Int) - 1)).2.2.2
      omega

/-! ## Sums -/

theorem natAbs_aligned (least : Int) (negative : Bool) (m : Nat) (e : Int) :
    (aligned least negative m e).natAbs = m * 2 ^ (e - least).toNat := by
  rw [aligned]
  split
  · rw [Int.natAbs_neg, Int.natAbs_natCast]
  · rw [Int.natAbs_natCast]

/-- A sum is not beyond a bound of its first term, if the second one is far below that bound. -/
theorem add?_within {x y : Extended} {low : Int} (withinX : x.Within top) (withinY : y.Within low)
    (room : low + 67 ≤ top) (possible : top ≤ exponentLimit) :
    ∃ sum, add? x y = some sum ∧ sum.Within top := by
  cases x with
  | infinite a => exact withinX.elim
  | finite a m e =>
    cases y with
    | infinite b => exact withinY.elim
    | finite b n d =>
      rw [add?]
      by_cases bothZero : m = 0 ∧ n = 0
      · rw [if_pos bothZero]
        exact ⟨_, rfl, .inl rfl⟩
      rw [if_neg bothZero]
      by_cases zeroN : n = 0
      · rw [if_pos zeroN]
        exact ⟨_, rfl, withinX⟩
      rw [if_neg zeroN]
      by_cases zeroM : m = 0
      · rw [if_pos zeroM]
        exact ⟨_, rfl, withinY.mono (by omega)⟩
      rw [if_neg zeroM]
      refine ⟨_, rfl, round_within (fun nonzero => ?_) possible⟩
      obtain ⟨_, highM, belowM, _⟩ := withinX.resolve_left zeroM
      obtain ⟨_, highN, belowN, _⟩ := withinY.resolve_left zeroN
      -- the exponent of the bound, at the scale of the finer of the two numbers
      obtain ⟨k, exponent⟩ : ∃ k : Nat, top - 64 = min e d + (k : Int) :=
        ⟨(top - 64 - min e d).toNat, by omega⟩
      have first : m * 2 ^ (e - min e d).toNat ≤ 18446744073709551615 * 2 ^ k :=
        Nat.mul_le_mul (Nat.le_pred_of_lt highM) (Nat.pow_le_pow_right (by decide) (by omega))
      have second : 8 * (n * 2 ^ (d - min e d).toNat) < 2 ^ k := by
        have scaled : n * 2 ^ (d - min e d).toNat < 2 ^ 64 * 2 ^ (d - min e d).toNat :=
          Nat.mul_lt_mul_of_pos_right highN (Nat.two_pow_pos _)
        have power : 8 * (2 ^ 64 * 2 ^ (d - min e d).toNat) ≤ 2 ^ k := by
          rw [show (8 : Nat) = 2 ^ 3 from rfl, ← Nat.pow_add, ← Nat.pow_add]
          exact Nat.pow_le_pow_right (by decide) (by omega)
        omega
      have sum := Int.natAbs_add_le (aligned (min e d) a m e) (aligned (min e d) b n d)
      rw [natAbs_aligned, natAbs_aligned] at sum
      have whole : (2 ^ (precision + 1) - 1) * 2 ^ k = 36893488147419103231 * 2 ^ k := rfl
      have below := roundBits_of_below (show 0 < precision by decide) nonzero (min e d)
        (show 2 * (aligned (min e d) a m e + aligned (min e d) b n d).natAbs <
          (2 ^ (precision + 1) - 1) * 2 ^ k by omega)
      omega

end Extended

end DocTable.Number
