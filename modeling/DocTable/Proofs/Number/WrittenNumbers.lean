import DocTable.Proofs.Number.PlainDecimals

/-!
# Reading what is written

A finite number is written in the fewest digits of an interval around it.  The decimal that is found does
not pass the upper end of the interval, and not even reaches it if the interval is open
(`Interval.admits_shortest`); it has no digits behind the point if the number has no fraction.

So a number below a power of two is read back as a number below the same power of two
(`Extended.exists_read?_text`): the texts of sums stay readable however often they are written and read.
The text of a double is readable from the start (`Binary64.exists_read?_positional`), and the encoding of a
numeral is either the numeral itself or the text of a double (`Encode.plainDecimal_cases`).
-/

namespace DocTable.Number

set_option autoImplicit false

attribute [local instance] Number.corePower

/-! ## Decimals of an interval -/

namespace Interval

/-- A decimal is below the upper end of an interval, or at the end of a closed one. -/
def Admits (i : Interval) (d : Decimal) : Prop :=
  d.digits * (i.den * 10 ^ d.exponent.toNat) < i.high * 10 ^ (-d.exponent).toNat ∨
    (i.closed = true ∧ d.digits * (i.den * 10 ^ d.exponent.toNat) = i.high * 10 ^ (-d.exponent).toNat)

variable {i : Interval} {d : Decimal} {rising : Bool} {k : Int}

theorem Admits.le (admitted : i.Admits d) :
    d.digits * (i.den * 10 ^ d.exponent.toNat) ≤ i.high * 10 ^ (-d.exponent).toNat := by
  rcases admitted with below | ⟨_, reached⟩
  · exact Nat.le_of_lt below
  · exact Nat.le_of_eq reached

/-- What is not above the value is below the end. -/
theorem admits_floor (proper : i.value < i.high) (k : Int) :
    i.Admits ⟨i.value * 10 ^ (-k).toNat / (i.den * 10 ^ k.toNat), k⟩ := by
  refine .inl (Nat.lt_of_le_of_lt (Nat.div_mul_le_self _ _) ?_)
  exact Nat.mul_lt_mul_of_pos_right proper (Nat.pow_pos (by decide))

/-- The choice between two neighbours, of which neither, one or both are allowed. -/
theorem choice_of_cases {down up near : Prop} [Decidable down] [Decidable up] [Decidable near]
    {below above : Decimal} {P : Option Decimal → Prop} (nearer : down → up → near → P (some below))
    (farther : down → up → ¬near → P (some above)) (onlyBelow : down → ¬up → P (some below))
    (onlyAbove : ¬down → up → P (some above)) (neither : ¬down → ¬up → P none) :
    P (if down ∧ up then if near then some below else some above
      else if down then some below else if up then some above else none) := by
  by_cases first : down <;> by_cases second : up
  · rw [if_pos ⟨first, second⟩]
    by_cases third : near
    · rw [if_pos third]
      exact nearer first second third
    · rw [if_neg third]
      exact farther first second third
  · rw [if_neg (not_and_of_not_right down second), if_pos first]
    exact onlyBelow first second
  · rw [if_neg (not_and_of_not_left up first), if_neg first, if_pos second]
    exact onlyAbove first second
  · rw [if_neg (not_and_of_not_left up first), if_neg first, if_neg second]
    exact neither first second

/-- The decimal of a grid is the one below the value, or the one above it if the interval goes up there. -/
theorem choice_cases {down up near : Prop} [Decidable down] [Decidable up] [Decidable near]
    {below above : Decimal} (chosen : (if down ∧ up then if near then some below else some above
      else if down then some below else if up then some above else none) = some d) :
    d = below ∨ (up ∧ d = above) := by
  have isBelow : some below = some d → d = below ∨ (up ∧ d = above) := fun found => .inl (Option.some.inj found).symm
  have isAbove : up → some above = some d → d = below ∨ (up ∧ d = above) :=
    fun goesUp found => .inr ⟨goesUp, (Option.some.inj found).symm⟩
  revert chosen
  exact choice_of_cases (P := fun found? => found? = some d → d = below ∨ (up ∧ d = above)) (fun _ _ _ => isBelow)
    (fun _ goesUp _ => isAbove goesUp) (fun _ _ => isBelow) (fun _ goesUp => isAbove goesUp) (fun _ _ => nofun)

theorem admits_onGrid? (proper : i.value < i.high) (found : i.onGrid? rising k = some d) :
    d.exponent = k ∧ i.Admits d := by
  have floor := admits_floor proper k
  rw [onGrid?] at found
  by_cases exact : i.value * 10 ^ (-k).toNat % (i.den * 10 ^ k.toNat) = 0
  · rw [if_pos exact] at found
    cases found
    exact ⟨rfl, floor⟩
  · rw [if_neg exact] at found
    rcases choice_cases found with rfl | ⟨⟨_, up⟩, rfl⟩
    · exact ⟨rfl, floor⟩
    · refine ⟨rfl, ?_⟩
      split at up
      · rename_i closed
        exact (Nat.lt_or_eq_of_le up).imp id fun reached => ⟨closed, reached⟩
      · exact .inl up

theorem admits_shortestFrom (proper : i.value < i.high) (fuel : Nat) (rising : Bool) (k : Int) :
    i.Admits (i.shortestFrom fuel rising k) ∧ k - fuel ≤ (i.shortestFrom fuel rising k).exponent := by
  induction fuel generalizing rising k with
  | zero =>
    refine ⟨admits_floor proper k, ?_⟩
    dsimp only [shortestFrom]
    omega
  | succ fuel ih =>
    rw [shortestFrom]
    split
    · rename_i d found
      obtain ⟨exponent, admitted⟩ := admits_onGrid? proper found
      exact ⟨admitted, by omega⟩
    · obtain ⟨admitted, exponent⟩ := ih (rising && !(i.guarded && i.endsOn k)) (k - 1)
      exact ⟨admitted, by omega⟩

/-- A whole number is on the grid of the whole numbers, so no finer one is tried. -/
theorem shortestFrom_whole (proper : i.value < i.high) (whole : i.den ∣ i.value) (fuel : Nat) (rising : Bool)
    {k : Int} (coarse : 0 ≤ k) : 0 ≤ (i.shortestFrom fuel rising k).exponent := by
  induction fuel generalizing rising k with
  | zero => exact coarse
  | succ fuel ih =>
    rw [shortestFrom]
    split
    · rename_i d found
      rw [(admits_onGrid? proper found).1]
      exact coarse
    · rename_i missing
      have inexact : k ≠ 0 := by
        rintro rfl
        have exact : i.value * 10 ^ (-(0 : Int)).toNat % (i.den * 10 ^ (0 : Int).toNat) = 0 := by
          simpa using Nat.mod_eq_zero_of_dvd whole
        rw [onGrid?, if_pos exact] at missing
        cases missing
      exact ih _ (by omega)

/-- Dropping zeros keeps the value. -/
theorem Admits.trimFrom (fuel : Nat) (admitted : i.Admits d) :
    i.Admits (Decimal.trimFrom fuel d) ∧ d.exponent ≤ (Decimal.trimFrom fuel d).exponent := by
  induction fuel generalizing d with
  | zero => exact ⟨admitted, Int.le_refl _⟩
  | succ fuel ih =>
    rw [Decimal.trimFrom]
    split
    · rename_i trailing
      have tens : d.digits / 10 * 10 = d.digits := Nat.div_mul_cancel (Nat.dvd_of_mod_eq_zero trailing.2)
      have dropped : i.Admits ⟨d.digits / 10, d.exponent + 1⟩ := by
        rw [Admits, ← tens] at admitted
        rw [Admits]
        dsimp only
        by_cases whole : 0 ≤ d.exponent
        · have up : (d.exponent + 1).toNat = d.exponent.toNat + 1 := by omega
          have none : (-(d.exponent + 1)).toNat = (-d.exponent).toNat := by omega
          have same : d.digits / 10 * (i.den * 10 ^ (d.exponent.toNat + 1)) =
              d.digits / 10 * 10 * (i.den * 10 ^ d.exponent.toNat) := by
            rw [Nat.pow_succ']
            ac_rfl
          rw [up, none, same]
          exact admitted
        · have down : (-d.exponent).toNat = (-(d.exponent + 1)).toNat + 1 := by omega
          have none : (d.exponent + 1).toNat = d.exponent.toNat := by omega
          have left : d.digits / 10 * 10 * (i.den * 10 ^ d.exponent.toNat) =
              d.digits / 10 * (i.den * 10 ^ d.exponent.toNat) * 10 := by ac_rfl
          have right : i.high * 10 ^ ((-(d.exponent + 1)).toNat + 1) =
              i.high * 10 ^ (-(d.exponent + 1)).toNat * 10 := by rw [Nat.pow_succ, Nat.mul_assoc]
          rw [down, left, right] at admitted
          rw [none]
          rcases admitted with below | ⟨closed, reached⟩
          · exact .inl (Nat.lt_of_mul_lt_mul_right below)
          · exact .inr ⟨closed, Nat.eq_of_mul_eq_mul_right (by decide) reached⟩
      obtain ⟨kept, exponent⟩ := ih dropped
      dsimp only at exponent
      exact ⟨kept, by omega⟩
    · exact ⟨admitted, Int.le_refl _⟩

end Interval

theorem le_decimalPointFrom (value den fuel : Nat) (k : Int) : k ≤ decimalPointFrom value den fuel k := by
  induction fuel generalizing k with
  | zero => exact Int.le_refl k
  | succ fuel ih =>
    have step := ih (k + 1)
    have either : ∀ (below : Prop) [Decidable below],
        k ≤ if below then k else decimalPointFrom value den fuel (k + 1) := by
      intro below _
      split <;> omega
    exact either _

namespace Interval

variable {i : Interval}

/-- Where the digits of the shortest decimal end. -/
theorem admits_shortest (proper : i.value < i.high) : i.Admits i.shortest ∧
    ((Nat.log2 i.value : Int) - (Nat.log2 i.den : Int)) * 30103 / 100000 - 67 ≤ i.shortest.exponent := by
  have start : ((Nat.log2 i.value : Int) - (Nat.log2 i.den : Int)) * 30103 / 100000 - 2 ≤
      decimalPoint i.value i.den := le_decimalPointFrom _ _ _ _
  obtain ⟨admitted, exponent⟩ := admits_shortestFrom proper 64 true (decimalPoint i.value i.den - 1)
  obtain ⟨trimmed, higher⟩ := admitted.trimFrom 64
  exact ⟨trimmed, by rw [shortest]; omega⟩

/-- A whole number that is not small has a whole shortest decimal: the first grid that is tried is one of
whole numbers, and so is the last. -/
theorem shortest_whole (proper : i.value < i.high) (whole : i.den ∣ i.value)
    (large : 10 ≤ (Nat.log2 i.value : Int) - (Nat.log2 i.den : Int)) : 0 ≤ i.shortest.exponent := by
  have start : ((Nat.log2 i.value : Int) - (Nat.log2 i.den : Int)) * 30103 / 100000 - 2 ≤
      decimalPoint i.value i.den := le_decimalPointFrom _ _ _ _
  obtain ⟨admitted, _⟩ := admits_shortestFrom proper 64 true (decimalPoint i.value i.den - 1)
  exact Int.le_trans (shortestFrom_whole proper whole 64 true (by omega)) (admitted.trimFrom 64).2

/-- The shortest decimal of a number of moderate size is readable. -/
theorem exists_read?_shortest (proper : i.value < i.high) (positive : 0 < i.den)
    {bits : Nat} (small : i.high ≤ i.den * 2 ^ bits) (few : bits ≤ 1026)
    (fine : -2147483714 ≤ (Nat.log2 i.value : Int) - (Nat.log2 i.den : Int)) (negative : Bool) :
    ∃ x, Extended.read? (if negative then "-" ++ i.shortest.positional else i.shortest.positional) = some x ∧
      x.Within writtenBits := by
  obtain ⟨admitted, lowest⟩ := admits_shortest proper
  have limit : Extended.exponentLimit = 2147483647 := rfl
  have value : i.shortest.digits * 10 ^ i.shortest.exponent.toNat ≤
      2 ^ bits * 10 ^ (-i.shortest.exponent).toNat := by
    refine Nat.le_of_mul_le_mul_left ?_ positive
    calc i.den * (i.shortest.digits * 10 ^ i.shortest.exponent.toNat)
        = i.shortest.digits * (i.den * 10 ^ i.shortest.exponent.toNat) := by ac_rfl
      _ ≤ i.high * 10 ^ (-i.shortest.exponent).toNat := admitted.le
      _ ≤ i.den * 2 ^ bits * 10 ^ (-i.shortest.exponent).toNat := Nat.mul_le_mul_right _ small
      _ = i.den * (2 ^ bits * 10 ^ (-i.shortest.exponent).toNat) := Nat.mul_assoc _ _ _
  rw [Extended.read?_positional]
  refine Extended.exists_decimal? negative (fun nonzero => ?_) (by decide) (by omega)
  have power : 2 ^ bits * 10 ^ (-i.shortest.exponent).toNat <
      2 ^ (bits + 1 + (10 * ((-i.shortest.exponent).toNat / 3) + 10)) := by
    rw [Nat.pow_add 2 (bits + 1)]
    exact Nat.mul_lt_mul_of_lt_of_le (Nat.pow_lt_pow_right (by decide) (Nat.lt_succ_self bits))
      (ten_pow_le _) (Nat.two_pow_pos _)
  have length := (Nat.log2_lt nonzero).mpr (Nat.lt_of_le_of_lt value power)
  rw [writtenBits]
  omega

end Interval

/-! ## Numbers of 64 bits -/

theorem PlainDecimal.zero (negative : Bool) : PlainDecimal (if negative then "-" ++ "0" else "0") := by
  have text := PlainDecimal.positional negative ⟨0, 0⟩
  exact text

namespace Extended

/-- Finite numbers are written plainly. -/
theorem plainDecimal_text {x : Extended} {top : Int} (within : x.Within top) : PlainDecimal x.text := by
  cases x with
  | infinite negative => exact within.elim
  | finite negative m e =>
    rw [text]
    by_cases zero : m = 0
    · rw [if_pos zero]
      exact .zero negative
    · rw [if_neg zero]
      exact .positional negative _

/-- A fraction is written as a decimal of moderate size. -/
theorem exists_read?_fraction {m : Nat} {e : Int} (negative : Bool) (low : 2 ^ (precision - 1) ≤ m)
    (high : m < 2 ^ precision) (fraction : e < 0) (lowest : -exponentLimit - 1 ≤ e + 64) :
    ∃ x, read? (if negative then "-" ++ (interval m e).shortest.positional
        else (interval m e).shortest.positional) = some x ∧ x.Within writtenBits := by
  have limit : exponentLimit = 2147483647 := rfl
  have width : precision = 64 := rfl
  rw [width] at low high
  have unscaled : e.toNat = 0 := by omega
  have powerPositive := Nat.two_pow_pos (-e).toNat
  have value : (interval m e).value = 2 * m := by
    rw [interval, unscaled]
    exact Nat.mul_one _
  have upper : (interval m e).high = 2 * m + 1 := by
    rw [interval, unscaled]
    exact Nat.mul_one _
  have den : (interval m e).den = 2 ^ ((-e).toNat + 1) := (Nat.pow_succ' ..).symm
  have small : (interval m e).high ≤ (interval m e).den * 2 ^ 65 := by
    rw [upper, den]
    exact Nat.le_trans (show 2 * m + 1 ≤ 2 ^ 65 by omega) (Nat.le_mul_of_pos_left _ (Nat.two_pow_pos _))
  refine Interval.exists_read?_shortest ?_ ?_ small (by decide) ?_ negative
  · rw [value, upper]
    exact Nat.lt_succ_self _
  · rw [den]
    exact Nat.two_pow_pos _
  · have bits : 64 ≤ Nat.log2 (2 * m) := (Nat.le_log2 (by omega)).mpr (by omega)
    rw [value, den, Nat.log2_two_pow]
    omega

/-- A whole number is written as a whole number, and read back in the same bits. -/
theorem exists_read?_whole {m : Nat} {e top : Int} (negative : Bool) (low : 2 ^ (precision - 1) ≤ m)
    (high : m < 2 ^ precision) (whole : 0 ≤ e) (below : e + 64 ≤ top) (possible : top ≤ exponentLimit) :
    ∃ x, read? (if negative then "-" ++ (interval m e).shortest.positional
        else (interval m e).shortest.positional) = some x ∧ x.Within top := by
  have limit : exponentLimit = 2147483647 := rfl
  have width : precision = 64 := rfl
  rw [width] at low high
  have undivided : (-e).toNat = 0 := by omega
  have power := Nat.two_pow_pos e.toNat
  have value : (interval m e).value = 2 * m * 2 ^ e.toNat := rfl
  have upper : (interval m e).high = (2 * m + 1) * 2 ^ e.toNat := rfl
  have den : (interval m e).den = 2 := by
    rw [interval, undivided]
    rfl
  have proper : (interval m e).value < (interval m e).high :=
    Nat.mul_lt_mul_of_pos_right (Nat.lt_succ_self _) power
  have divides : (interval m e).den ∣ (interval m e).value := by
    rw [den, value, Nat.mul_assoc]
    exact Nat.dvd_mul_right 2 _
  have coarse : 0 ≤ (interval m e).shortest.exponent := by
    refine Interval.shortest_whole proper divides ?_
    have nonzero : (interval m e).value ≠ 0 := by
      rw [value]
      exact Nat.ne_of_gt (Nat.mul_pos (by omega) power)
    have bits : 64 ≤ Nat.log2 (interval m e).value := by
      rw [Nat.le_log2 nonzero, value]
      exact Nat.le_trans (by omega) (Nat.le_mul_of_pos_right (2 * m) power)
    have one : Nat.log2 2 = 1 := rfl
    rw [den, one]
    omega
  obtain ⟨admitted, _⟩ := Interval.admits_shortest proper
  generalize (interval m e).shortest = d at coarse admitted
  have places : (-d.exponent).toNat = 0 := by omega
  have bound : 2 * (d.digits * 10 ^ d.exponent.toNat) < (2 ^ 65 - 1) * 2 ^ e.toNat := by
    have scaled : d.digits * (2 * 10 ^ d.exponent.toNat) = 2 * (d.digits * 10 ^ d.exponent.toNat) := by
      ac_rfl
    rw [Interval.Admits, den, upper, places, scaled, Nat.pow_zero, Nat.mul_one] at admitted
    rcases admitted with under | ⟨even, reached⟩
    · exact Nat.lt_of_lt_of_le under (Nat.mul_le_mul_right _ (by omega))
    · -- the greatest mantissa is odd
      have parity : m % 2 = 0 := by simpa [interval] using even
      rw [reached]
      exact Nat.mul_lt_mul_of_pos_right (by omega) power
  rw [read?_positional, places, decimal?]
  by_cases zero : d.digits * 10 ^ d.exponent.toNat = 0
  · rw [if_pos zero]
    exact ⟨_, rfl, .inl rfl⟩
  · have bits : Nat.log2 (d.digits * 10 ^ d.exponent.toNat) < 64 + e.toNat := by
      rw [Nat.log2_lt zero, Nat.pow_add]
      have full : (2 ^ 65 - 1) * 2 ^ e.toNat ≤ 2 * (2 ^ 64 * 2 ^ e.toNat) := by
        rw [← Nat.mul_assoc]
        exact Nat.mul_le_mul_right _ (by decide)
      omega
    rw [if_neg zero, if_neg (by omega)]
    refine ⟨_, rfl, ?_⟩
    rw [scale, if_pos (show -((0 : Nat) : Int) = 0 from rfl)]
    refine round_within (fun _ => ?_) possible
    have rounded := roundBits_of_below (show 0 < precision by decide) zero (-((0 : Nat) : Int)) bound
    omega

/-- What is written for a number is read as a number below the same power of two. -/
theorem exists_read?_text {x : Extended} {top : Int} (within : x.Within top) (room : writtenBits ≤ top)
    (possible : top ≤ exponentLimit) : ∃ y, read? x.text = some y ∧ y.Within top := by
  cases x with
  | infinite negative => exact within.elim
  | finite negative m e =>
    rw [text]
    by_cases zero : m = 0
    · rw [if_pos zero]
      have short : (if negative then "-" ++ "0" else "0").length < readableLength := by
        cases negative <;> decide
      obtain ⟨y, read, small⟩ := (PlainDecimal.zero negative).exists_read? short
      exact ⟨y, read, small.mono room⟩
    · rw [if_neg zero]
      obtain ⟨low, high, below, lowest⟩ := within.resolve_left zero
      by_cases whole : 0 ≤ e
      · exact exists_read?_whole negative low high whole below possible
      · obtain ⟨y, read, small⟩ := exists_read?_fraction negative low high (by omega) lowest
        exact ⟨y, read, small.mono room⟩

end Extended

/-! ## Doubles -/

/-- The mantissa and exponent of a finite double other than zero. -/
theorem Format.double_magnitude {bits : Nat} (nonzero : bits ≠ 0) (finite : bits < double.infinityBits) :
    ∃ m e, double.magnitude bits = (m, e) ∧ 0 < m ∧ m < 2 ^ double.precision ∧
      -1074 ≤ e ∧ e ≤ 971 := by
  have infinity : double.infinityBits = 2047 * 2 ^ 52 := rfl
  have least : double.leastExponent = -1074 := rfl
  have unit : (2 : Nat) ^ (double.precision - 1) = 2 ^ 52 := rfl
  have width : (2 : Nat) ^ double.precision = 2 ^ 53 := rfl
  rw [magnitude, unit, least]
  split
  · exact ⟨bits, -1074, rfl, by omega, by omega, by omega, by omega⟩
  · exact ⟨_, _, rfl, by omega, by omega, by omega, by omega⟩

/-- The shortest decimal of a finite double is readable. -/
theorem Format.exists_read?_double {bits : Nat} (nonzero : bits ≠ 0) (finite : bits < double.infinityBits)
    (negative : Bool) :
    ∃ x, Extended.read? (if negative then "-" ++ (double.shortest bits).positional
        else (double.shortest bits).positional) = some x ∧ x.Within writtenBits := by
  obtain ⟨m, e, parts, positive, high, lowest, highest⟩ := double_magnitude nonzero finite
  have width : (2 : Nat) ^ double.precision = 2 ^ 53 := rfl
  have value : (double.interval bits).value = 4 * m * 2 ^ e.toNat := by rw [interval, parts]
  have upper : (double.interval bits).high = (4 * m + 2) * 2 ^ e.toNat := by rw [interval, parts]
  have den : (double.interval bits).den = 2 ^ ((-e).toNat + 2) := by
    rw [interval, parts, Nat.pow_add, Nat.mul_comm]
  have power := Nat.two_pow_pos e.toNat
  have small : (double.interval bits).high ≤ (double.interval bits).den * 2 ^ (55 + e.toNat) := by
    rw [upper, den, Nat.pow_add 2 55]
    exact Nat.le_trans (Nat.mul_le_mul_right _ (show 4 * m + 2 ≤ 2 ^ 55 by omega))
      (Nat.le_mul_of_pos_left _ (Nat.two_pow_pos _))
  refine Interval.exists_read?_shortest ?_ ?_ small (by omega) ?_ negative
  · rw [value, upper]
    exact Nat.mul_lt_mul_of_pos_right (by omega) power
  · rw [den]
    exact Nat.two_pow_pos _
  · rw [den, Nat.log2_two_pow]
    omega

namespace Binary64

variable {x : Binary64}

theorem magnitudePart_lt (finite : x.isFinite = true) :
    Format.double.magnitudePart x.bits.toNat < Format.double.infinityBits := by
  simp only [isFinite, isNaN, isInfinite, Format.isNaN, Format.isInfinite, Bool.and_eq_true, Bool.not_eq_true',
    decide_eq_false_iff_not, beq_eq_false_iff_ne, ne_eq] at finite
  omega

/-- What is written for a finite double. -/
theorem positional_of_isFinite (finite : x.isFinite = true) :
    x.positional =
      if x.isNegative then
        "-" ++ if Format.double.magnitudePart x.bits.toNat = 0 then "0"
          else (Format.double.shortest (Format.double.magnitudePart x.bits.toNat)).positional
      else
        if Format.double.magnitudePart x.bits.toNat = 0 then "0"
        else (Format.double.shortest (Format.double.magnitudePart x.bits.toNat)).positional := by
  obtain ⟨number, bounded⟩ : x.isNaN = false ∧ x.isInfinite = false := by
    simpa only [isFinite, Bool.and_eq_true, Bool.not_eq_true'] using finite
  rw [isNaN] at number
  rw [isInfinite] at bounded
  rw [positional, Format.positional, Format.write, number, bounded]
  rfl

theorem plainDecimal_positional (finite : x.isFinite = true) : PlainDecimal x.positional := by
  rw [positional_of_isFinite finite]
  by_cases zero : Format.double.magnitudePart x.bits.toNat = 0
  · rw [if_pos zero]
    exact .zero _
  · rw [if_neg zero]
    exact .positional _ _

/-- What is written for a finite double is readable. -/
theorem exists_read?_positional (finite : x.isFinite = true) :
    ∃ y, Extended.read? x.positional = some y ∧ y.Within writtenBits := by
  rw [positional_of_isFinite finite]
  by_cases zero : Format.double.magnitudePart x.bits.toNat = 0
  · rw [if_pos zero]
    refine (PlainDecimal.zero _).exists_read? ?_
    cases x.isNegative <;> decide
  · rw [if_neg zero]
    exact Format.exists_read?_double zero (magnitudePart_lt finite) _

end Binary64

/-- The double with a sign and the bits of a magnitude. -/
def Binary64.ofMagnitude (negative : Bool) (bits : Nat) : Binary64 :=
  ⟨UInt64.ofNat (if negative then Format.double.signBits + bits else bits)⟩

namespace Binary64

variable {negative : Bool} {bits : Nat}

theorem toNat_ofMagnitude (finite : bits < Format.double.infinityBits) :
    (ofMagnitude negative bits).bits.toNat = if negative then Format.double.signBits + bits else bits := by
  have infinity : Format.double.infinityBits = 2047 * 2 ^ 52 := rfl
  have sign : Format.double.signBits = 2 ^ 63 := rfl
  rw [ofMagnitude, UInt64.toNat_ofNat', Nat.mod_eq_of_lt]
  split <;> omega

theorem magnitudePart_ofMagnitude (finite : bits < Format.double.infinityBits) :
    Format.double.magnitudePart (ofMagnitude negative bits).bits.toNat = bits := by
  have infinity : Format.double.infinityBits = 2047 * 2 ^ 52 := rfl
  have sign : Format.double.signBits = 2 ^ 63 := rfl
  rw [toNat_ofMagnitude finite, Format.magnitudePart, sign]
  split <;> omega

theorem isNegative_ofMagnitude (finite : bits < Format.double.infinityBits) :
    (ofMagnitude negative bits).isNegative = negative := by
  have infinity : Format.double.infinityBits = 2047 * 2 ^ 52 := rfl
  have sign : Format.double.signBits = 2 ^ 63 := rfl
  rw [isNegative, Format.isNegative, toNat_ofMagnitude finite]
  cases negative with
  | false => exact decide_eq_false (by simp only [Bool.false_eq_true, if_false]; omega)
  | true => exact decide_eq_true (Nat.le_add_right _ _)

theorem isFinite_ofMagnitude (finite : bits < Format.double.infinityBits) :
    (ofMagnitude negative bits).isFinite = true := by
  simp only [isFinite, isNaN, isInfinite, Format.isNaN, Format.isInfinite, magnitudePart_ofMagnitude finite,
    Bool.and_eq_true, Bool.not_eq_true', decide_eq_false_iff_not, beq_eq_false_iff_ne, ne_eq]
  omega

end Binary64

/-! ## Numerals -/

theorem Format.lt_infinityBits_of_magnitudeBits? {f : Format} {num den bits : Nat} (finite : 0 < f.infinityBits)
    (found : f.magnitudeBits? num den = some bits) : bits < f.infinityBits := by
  rw [magnitudeBits?] at found
  split at found
  · cases found
    exact finite
  · dsimp only at found
    split at found
    · cases found
      assumption
    · cases found

theorem Format.exists_magnitude_of_numeralBits? {n : Numeral} {bits : Nat}
    (given : double.numeralBits? n = some bits) :
    ∃ magnitude < double.infinityBits, bits = if n.negative then double.signBits + magnitude else magnitude := by
  obtain ⟨magnitude, read, sign⟩ := Option.map_eq_some_iff.mp given
  refine ⟨magnitude, ?_, sign.symm⟩
  split at read
  · exact lt_infinityBits_of_magnitudeBits? (by decide) read
  · exact lt_infinityBits_of_magnitudeBits? (by decide) read

/-- A numeral in range is a finite double. -/
theorem Binary64.isFinite_of_numeralBits? {n : Numeral} {bits : Nat}
    (given : Format.double.numeralBits? n = some bits) : (Binary64.mk (UInt64.ofNat bits)).isFinite = true := by
  obtain ⟨magnitude, finite, rfl⟩ := Format.exists_magnitude_of_numeralBits? given
  have isFinite : (ofMagnitude n.negative magnitude).isFinite = true := isFinite_ofMagnitude finite
  exact isFinite

namespace Encode

open DocTable.Encode

theorem takeSign_append (cs : List Char) : ∃ sign ∈ signs, cs = sign ++ (takeSign cs).2 := by
  rw [takeSign.eq_def]
  split
  · exact ⟨['-'], by decide, rfl⟩
  · exact ⟨['+'], by decide, rfl⟩
  · exact ⟨[], by decide, rfl⟩

theorem mem_sign {sign : List Char} (signed : sign ∈ signs) {c : Char} (member : c ∈ sign) :
    c = '-' ∨ c = '+' := by
  simp only [signs, List.mem_cons, List.not_mem_nil, or_false] at signed
  rcases signed with rfl | rfl | rfl
  · cases member
  · exact .inl (List.mem_singleton.mp member)
  · exact .inr (List.mem_singleton.mp member)

/-- The digits that are taken off, and what follows them. -/
theorem takeDigits_append (cs : List Char) : ∃ digits rest, takeDigits cs = (!digits.isEmpty, rest) ∧
    cs = digits ++ rest ∧ ∀ c ∈ digits, c.isDigit = true := by
  refine ⟨cs.takeWhile isDigit, cs.dropWhile isDigit, ?_, List.takeWhile_append_dropWhile.symm, ?_⟩
  · rw [takeDigits]
    cases cs.takeWhile isDigit <;> rfl
  · exact List.all_eq_true.mp List.all_takeWhile

/-- Digits are taken off up to what is no digit. -/
theorem takeDigits_digits {digits rest : List Char} (all : ∀ c ∈ digits, c.isDigit = true)
    (stops : ∀ c ∈ rest.head?, c.isDigit = false) : takeDigits (digits ++ rest) = (!digits.isEmpty, rest) := by
  have none : rest.takeWhile isDigit = [] ∧ rest.dropWhile isDigit = rest := by
    cases rest with
    | nil => exact ⟨rfl, rfl⟩
    | cons c others =>
      have noDigit := stops c rfl
      rw [← isDigit_eq] at noDigit
      exact ⟨List.takeWhile_cons_of_neg (by rw [noDigit]; decide), List.dropWhile_cons_of_neg (by rw [noDigit]; decide)⟩
  rw [takeDigits, List.takeWhile_append_of_pos (p := isDigit) all, List.dropWhile_append_of_pos (p := isDigit) all,
    none.1, none.2, List.append_nil]
  cases digits <;> rfl

/-- The parts of a decimal. -/
theorem isDecimal_parts {text : String} (decimal : isDecimal text = true) :
    ∃ (sign digits : List Char) (fraction? : Option (List Char)) (rest : List Char), sign ∈ signs ∧
      text = String.ofList (sign ++ (digits ++ Extended.tail fraction? ++ rest)) ∧
      (∀ c ∈ digits, c.isDigit = true) ∧ (∀ c ∈ fraction?.getD [], c.isDigit = true) ∧
      (digits ≠ [] ∨ fraction?.getD [] ≠ []) ∧ isExponent rest = true := by
  obtain ⟨sign, signed, whole⟩ := takeSign_append text.toList
  obtain ⟨digits, behind, taken, body, all⟩ := takeDigits_append (takeSign text.toList).2
  rw [isDecimal, taken] at decimal
  dsimp only at decimal
  rw [body] at whole
  have written : ∀ {cs : List Char}, text.toList = cs → text = String.ofList cs := by
    intro cs same
    rw [← same, String.ofList_toList]
  split at decimal
  · rename_i others
    obtain ⟨fraction, rest, takenBehind, bodyBehind, allBehind⟩ := takeDigits_append others
    rw [takenBehind] at decimal
    simp only [Bool.and_eq_true, Bool.or_eq_true, Bool.not_eq_true', List.isEmpty_eq_false_iff] at decimal
    refine ⟨sign, digits, some fraction, rest, signed, written ?_, all, allBehind, decimal.1, decimal.2⟩
    rw [whole, Extended.tail, List.append_assoc, List.cons_append, ← bodyBehind]
  · simp only [Bool.and_eq_true, Bool.not_eq_true', List.isEmpty_eq_false_iff] at decimal
    refine ⟨sign, digits, none, behind, signed, written ?_, all, List.forall_mem_nil _, .inl decimal.1,
      decimal.2⟩
    rw [whole, Extended.tail, List.append_nil]

theorem mem_of_isExponent {rest : List Char} (exponent : isExponent rest = true) {c : Char}
    (member : c ∈ rest) : c.isDigit = true ∨ c ∈ ['e', 'E', '-', '+'] := by
  cases rest with
  | nil => cases member
  | cons mark others =>
    simp only [isExponent, Bool.and_eq_true, Bool.or_eq_true, beq_iff_eq, List.all_eq_true] at exponent
    obtain ⟨marked, _, digits⟩ := exponent
    obtain ⟨sign, signed, split⟩ := takeSign_append others
    rcases List.mem_cons.mp member with rfl | later
    · rcases marked with rfl | rfl <;> simp
    · rw [split] at later
      rcases List.mem_append.mp later with inSign | inDigits
      · rcases mem_sign signed inSign with rfl | rfl <;> decide
      · exact .inl (digits c inDigits)

theorem mark_of_isExponent {rest : List Char} (exponent : isExponent rest = true) :
    ∀ c ∈ rest.head?, c = 'e' ∨ c = 'E' := by
  intro c head
  cases rest with
  | nil => cases head
  | cons mark others =>
    cases head
    simp only [isExponent, Bool.and_eq_true, Bool.or_eq_true, beq_iff_eq] at exponent
    exact exponent.1

/-- A decimal has no letter of the names of infinity and not-a-number. -/
theorem lowerLetter_ne_of_isDecimal {text : String} (decimal : isDecimal text = true) {c : Char}
    (member : c ∈ text.toList) : lowerLetter c ≠ 'n' := by
  have kinds : c.isDigit = true ∨ c ∈ ['.', 'e', 'E', '-', '+'] := by
    obtain ⟨sign, digits, fraction?, rest, signed, rfl, all, allBehind, _, exponent⟩ :=
      isDecimal_parts decimal
    rw [String.toList_ofList, List.mem_append, List.mem_append, List.mem_append] at member
    rcases member with inSign | (inDigits | inTail) | inRest
    · rcases mem_sign signed inSign with rfl | rfl <;> decide
    · exact .inl (all c inDigits)
    · cases fraction? with
      | none => cases inTail
      | some fraction =>
        rcases List.mem_cons.mp inTail with rfl | inFraction
        · exact .inr (by decide)
        · exact .inl (allBehind c inFraction)
    · rcases mem_of_isExponent exponent inRest with digit | other
      · exact .inl digit
      · exact .inr (List.mem_cons_of_mem _ other)
  rcases kinds with digit | other
  · rw [lowerLetter_of_isDigit digit]
    rintro rfl
    exact absurd digit (by decide)
  · simp only [List.mem_cons, List.not_mem_nil, or_false] at other
    rcases other with rfl | rfl | rfl | rfl | rfl <;> decide

/-- A decimal is read as a numeral. -/
theorem readLiteral?_of_isDecimal {text : String} (decimal : isDecimal text = true) :
    readLiteral? text = (readNumeral? text.toList).map .finite := by
  have noName : ∀ {name : String} {cs : List Char}, (∀ c ∈ cs, c ∈ text.toList) →
      'n' ∈ name.toList → String.ofList (cs.map lowerLetter) ≠ name := by
    rintro name cs within letter rfl
    rw [String.toList_ofList] at letter
    obtain ⟨c, member, lower⟩ := List.mem_map.mp letter
    exact lowerLetter_ne_of_isDecimal decimal (within c member) lower
  have body : ∀ c ∈ (takeSign text.toList).2, c ∈ text.toList := by
    intro c member
    obtain ⟨sign, _, whole⟩ := takeSign_append text.toList
    rw [whole]
    exact List.mem_append_right _ member
  rw [readLiteral?]
  dsimp only
  rw [if_neg fun name => name.elim (noName body (by decide)) (noName body (by decide)),
    if_neg (noName (fun _ member => member) (by decide))]

/-- The double nearest to a decimal is finite. -/
theorem isFinite_of_isDecimal {text : String} (decimal : isDecimal text = true) {x : Binary64}
    (read : Binary64.read text = .ok x) : x.isFinite = true := by
  rw [Binary64.read, Format.read, readLiteral?_of_isDecimal decimal] at read
  cases numeral : readNumeral? text.toList with
  | none =>
    rw [numeral] at read
    cases read
  | some n =>
    rw [numeral] at read
    dsimp only [Option.map] at read
    cases bits : Format.double.numeralBits? n with
    | none =>
      rw [bits] at read
      cases read
    | some magnitude =>
      rw [bits] at read
      cases read
      exact Binary64.isFinite_of_numeralBits? bits

/-- The text of an encoded numeral: the numeral itself, or a finite double. -/
theorem plainDecimal_cases {text encoded : String} (given : plainDecimal text = .ok encoded) :
    (encoded = text ∧ PlainDecimal text) ∨
      ∃ x : Binary64, x.isFinite = true ∧ encoded = x.positional := by
  rw [plainDecimal] at given
  split at given
  · cases given
  · rename_i decimal
    rw [Bool.not_eq_true, Bool.not_eq_false'] at decimal
    split at given
    · rename_i plain
      cases given
      refine .inl ⟨rfl, ?_⟩
      obtain ⟨sign, digits, fraction?, rest, signed, rfl, all, allBehind, nonempty, exponent⟩ :=
        isDecimal_parts decimal
      have ended : rest = [] := by
        cases rest with
        | nil => rfl
        | cons mark others =>
          simp only [isExponent, Bool.and_eq_true] at exponent
          simp [hasExponent, exponent.1] at plain
      subst ended
      rw [List.append_nil]
      cases fraction? with
      | none =>
        rw [Extended.tail, List.append_nil]
        exact .whole signed (nonempty.resolve_right (fun h => h rfl)) all
      | some fraction => exact .pointed signed nonempty all allBehind
    · split at given
      · rename_i x read
        cases given
        exact .inr ⟨x, isFinite_of_isDecimal decimal read, rfl⟩
      · cases given

end Encode

end DocTable.Number
