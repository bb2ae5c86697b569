import DocTable.Number.Shortest
import DocTable.Proofs.Number.NearestMagnitudes
import DocTable.Proofs.Number.WrittenNumbers

/-!
# Shortest decimals

The shortest decimal of an interval has as few digits as any decimal in it, and no decimal with as few digits is
nearer to the number that the interval is about; of two that are equally near it is the even one
(`IsShortest`, `Interval.isShortest`).  There is only one such decimal (`IsShortest.unique`).

It is looked for on finer and finer grids.  On each of them only the neighbours of the number have to be looked at,
since an interval that contains a point beyond a neighbour contains the neighbour too
(`Interval.onGrid?_eq_none`).  The first grid that has a point in the interval decides about the digits: a decimal
with fewer digits that is on no coarser grid would be less than every number with the leading digit of this one
(`Interval.isShortest`).
-/

namespace DocTable.Number

set_option autoImplicit false

attribute [local instance] Number.corePower

/-! ## Decimals by their digits -/

/-- A decimal with at most so many significant digits. -/
def HasDigits (count : Nat) (x : ℚ) : Prop := ∃ (n : ℕ) (k : ℤ), n < 10 ^ count ∧ x = n * 10 ^ k

/-- A decimal with the fewest digits of all that belong to a number, the nearest to it of these, and the even one of
two. -/
structure IsShortest (belongs : ℚ → Prop) (center : ℚ) (count : Nat) (x : ℚ) : Prop where
  member : belongs x
  digits : HasDigits count x
  fewest : ∀ y, belongs y → ¬HasDigits (count - 1) y
  nearest : ∀ y, belongs y → HasDigits count y → y ≠ x → |x - center| < |y - center| ∨
    |x - center| = |y - center| ∧ ∃ (j : ℕ) (k : ℤ), x = (2 * j : ℕ) * 10 ^ k ∧ |y - x| = 10 ^ k

theorem ten_zpow_pos (k : ℤ) : (0 : ℚ) < 10 ^ k := zpow_pos (by norm_num) k

section Unique

variable {count count' : Nat} {x y center : ℚ} {belongs : ℚ → Prop}

theorem HasDigits.mono (digits : HasDigits count x) (le : count ≤ count') : HasDigits count' x := by
  obtain ⟨n, k, less, rfl⟩ := digits
  exact ⟨n, k, less.trans_le (Nat.pow_le_pow_right (by decide) le), rfl⟩

theorem HasDigits.nonneg (digits : HasDigits count x) : 0 ≤ x := by
  obtain ⟨n, k, -, rfl⟩ := digits
  exact mul_nonneg (Nat.cast_nonneg n) (ten_zpow_pos k).le

theorem IsShortest.count_le (shortest : IsShortest belongs center count x)
    (shortest' : IsShortest belongs center count' y) : count ≤ count' := by
  by_contra fewer
  exact shortest.fewest y shortest'.member (shortest'.digits.mono (by omega))

/-- There is one shortest decimal: of two, each would be the even one, but they are neighbours. -/
theorem IsShortest.unique (shortest : IsShortest belongs center count x)
    (shortest' : IsShortest belongs center count' y) : x = y := by
  obtain rfl : count = count' := Nat.le_antisymm (shortest.count_le shortest') (shortest'.count_le shortest)
  by_contra distinct
  have first := shortest.nearest y shortest'.member shortest'.digits (Ne.symm distinct)
  have second := shortest'.nearest x shortest.member shortest.digits distinct
  rcases first with nearer | ⟨tie, j, k, even, step⟩
  · rcases second with nearer' | ⟨tie', -⟩
    · exact lt_asymm nearer nearer'
    · exact nearer.ne tie'.symm
  · rcases second with nearer' | ⟨-, j', k', even', step'⟩
    · exact nearer'.ne tie.symm
    · have same : (10 : ℚ) ^ k = 10 ^ k' := by rw [← step, ← step', abs_sub_comm]
      have power := ten_zpow_pos k'
      rw [even, even', same, ← sub_mul, abs_mul, abs_of_pos power, mul_eq_right₀ power.ne'] at step
      have parity : |((2 * j' : ℕ) : ℤ) - (2 * j : ℕ)| = 1 := by exact_mod_cast step
      rcases (abs_eq zero_le_one).mp parity with above | below <;> omega

end Unique

/-! ## Grids of powers of ten -/

/-- The value of a decimal. -/
def Decimal.value (d : Decimal) : ℚ := d.digits * 10 ^ d.exponent

/-- The number that an interval is about. -/
def Interval.center (i : Interval) : ℚ := i.value / i.den

/-- An interval of positive numbers around its number. -/
structure Interval.Proper (i : Interval) : Prop where
  den : 0 < i.den
  low : 0 < i.low
  below : i.low < i.value
  above : i.value < i.high
  unguarded : i.guarded = false

theorem ten_zpow_mul_scale (k : ℤ) : (10 : ℚ) ^ k * (10 ^ (-k).toNat : Nat) = (10 ^ k.toNat : Nat) := by
  rw [Nat.cast_pow, Nat.cast_pow, Nat.cast_ofNat, ← zpow_natCast, ← zpow_natCast, ← zpow_add₀ (by norm_num)]
  congr 1
  omega

section Points

variable {den n t : ℕ} {k : ℤ}

/-- A point of a grid over a denominator, without a fraction. -/
theorem scaled_point (den : ℕ) (k : ℤ) (n : ℕ) :
    (n : ℚ) * 10 ^ k * den * (10 ^ (-k).toNat : Nat) = (n * (den * 10 ^ k.toNat) : Nat) := by
  rw [Nat.cast_mul, Nat.cast_mul, ← ten_zpow_mul_scale k]
  ring

theorem scale_pos (k : ℤ) : (0 : ℚ) < (10 ^ (-k).toNat : Nat) := by exact_mod_cast Nat.pow_pos (by decide)

theorem point_lt_iff : n * (den * 10 ^ k.toNat) < t * 10 ^ (-k).toNat ↔ (n : ℚ) * 10 ^ k * den < t := by
  rw [← mul_lt_mul_iff_left₀ (scale_pos k), scaled_point, ← Nat.cast_mul, Nat.cast_lt]

theorem lt_point_iff : t * 10 ^ (-k).toNat < n * (den * 10 ^ k.toNat) ↔ (t : ℚ) < (n : ℚ) * 10 ^ k * den := by
  rw [← mul_lt_mul_iff_left₀ (scale_pos k), scaled_point, ← Nat.cast_mul, Nat.cast_lt]

theorem point_le_iff : n * (den * 10 ^ k.toNat) ≤ t * 10 ^ (-k).toNat ↔ (n : ℚ) * 10 ^ k * den ≤ t := by
  rw [← not_lt, lt_point_iff, not_lt]

theorem le_point_iff : t * 10 ^ (-k).toNat ≤ n * (den * 10 ^ k.toNat) ↔ (t : ℚ) ≤ (n : ℚ) * 10 ^ k * den := by
  rw [← not_lt, point_lt_iff, not_lt]

/-- A point of a grid is on every finer grid. -/
theorem grid_point (n : ℕ) {j : ℤ} (coarse : k ≤ j) : ∃ m : ℕ, (n : ℚ) * 10 ^ j = m * 10 ^ k := by
  refine ⟨n * 10 ^ (j - k).toNat, ?_⟩
  rw [Nat.cast_mul, Nat.cast_pow, Nat.cast_ofNat, ← zpow_natCast, mul_assoc, ← zpow_add₀ (by norm_num)]
  congr 2
  omega

/-- Few digits on a fine grid are less than a power of ten. -/
theorem point_lt_ten_zpow {count : ℕ} {point : ℤ} (few : n < 10 ^ count) (fine : k + count ≤ point) :
    (n : ℚ) * 10 ^ k < 10 ^ point := by
  calc (n : ℚ) * 10 ^ k < ((10 ^ count : Nat) : ℚ) * 10 ^ k :=
        mul_lt_mul_of_pos_right (by exact_mod_cast few) (ten_zpow_pos k)
    _ = 10 ^ (k + count) := by
        rw [Nat.cast_pow, Nat.cast_ofNat, ← zpow_natCast, ← zpow_add₀ (by norm_num), add_comm]
    _ ≤ 10 ^ point := zpow_le_zpow_right₀ (by norm_num) fine

/-- Two points of a grid are at least one step apart. -/
theorem step_le_sub {m : ℕ} (less : (n : ℚ) * 10 ^ k < m * 10 ^ k) : (10 : ℚ) ^ k ≤ m * 10 ^ k - n * 10 ^ k := by
  have order : n < m := by exact_mod_cast (mul_lt_mul_iff_left₀ (ten_zpow_pos k)).mp less
  have next : (n : ℚ) + 1 ≤ m := by exact_mod_cast order
  have scaled := mul_le_mul_of_nonneg_right next (ten_zpow_pos k).le
  linarith

end Points

namespace Interval

variable {i : Interval} {k : ℤ} {n : ℕ} {d : Decimal}

theorem center_mul_den (proper : i.Proper) : i.center * i.den = i.value := by
  have den : (i.den : ℚ) ≠ 0 := by exact_mod_cast proper.den.ne'
  rw [center, div_mul_cancel₀ _ den]

theorem contains_center (proper : i.Proper) : i.Contains i.center := by
  rw [Contains, center_mul_den proper]
  exact ⟨.inl (by exact_mod_cast proper.below), .inl (by exact_mod_cast proper.above)⟩

/-- An interval contains what is between its number and something that it contains. -/
theorem Contains.of_between {x y : ℚ} (proper : i.Proper) (contains : i.Contains x)
    (between : x ≤ y ∧ y ≤ i.center ∨ i.center ≤ y ∧ y ≤ x) : i.Contains y := by
  have den : (0 : ℚ) < i.den := by exact_mod_cast proper.den
  have below : (i.low : ℚ) < i.value := by exact_mod_cast proper.below
  have above : (i.value : ℚ) < i.high := by exact_mod_cast proper.above
  rw [← center_mul_den proper] at below above
  rcases between with ⟨from', upTo⟩ | ⟨from', upTo⟩
  · have first := mul_le_mul_of_nonneg_right from' den.le
    have second := mul_le_mul_of_nonneg_right upTo den.le
    refine ⟨?_, .inl (second.trans_lt above)⟩
    rcases contains.1 with less | ⟨closed, equal⟩
    · exact .inl (less.trans_le first)
    · exact (equal.le.trans first).lt_or_eq.imp id fun reached => ⟨closed, reached⟩
  · have first := mul_le_mul_of_nonneg_right from' den.le
    have second := mul_le_mul_of_nonneg_right upTo den.le
    refine ⟨.inl (below.trans_le first), ?_⟩
    rcases contains.2 with less | ⟨closed, equal⟩
    · exact .inl (second.trans_lt less)
    · exact (second.trans equal.le).lt_or_eq.imp id fun reached => ⟨closed, reached⟩

/-- A decimal in an interval that is the nearest of its grid to the number, and the even one of two. -/
structure Picks (i : Interval) (d : Decimal) : Prop where
  member : i.Contains d.value
  nearest : ∀ n : ℕ, n ≠ d.digits → i.Contains (n * 10 ^ d.exponent) →
    |d.value - i.center| < |n * 10 ^ d.exponent - i.center| ∨
      |d.value - i.center| = |n * 10 ^ d.exponent - i.center| ∧ d.digits % 2 = 0 ∧ (n = d.digits + 1 ∨ d.digits = n + 1)

section Neighbours

variable {q : ℕ} (proper : i.Proper) (floor : (q : ℚ) * 10 ^ k ≤ i.center) (ceiling : i.center < (q + 1 : ℕ) * 10 ^ k)

include floor ceiling proper

/-- If neither neighbour of the number is in the interval, no point of the grid is. -/
theorem avoids_of_neighbours (below : ¬i.Contains (q * 10 ^ k)) (above : ¬i.Contains ((q + 1 : ℕ) * 10 ^ k)) (n : ℕ) :
    ¬i.Contains (n * 10 ^ k) := by
  intro contains
  have power := ten_zpow_pos k
  rcases Nat.lt_or_ge q n with greater | atMost
  · have beyond : ((q + 1 : ℕ) : ℚ) * 10 ^ k ≤ n * 10 ^ k :=
      mul_le_mul_of_nonneg_right (by exact_mod_cast greater) power.le
    exact above (contains.of_between proper (.inr ⟨ceiling.le, beyond⟩))
  · have beyond : (n : ℚ) * 10 ^ k ≤ q * 10 ^ k := mul_le_mul_of_nonneg_right (by exact_mod_cast atMost) power.le
    exact below (contains.of_between proper (.inl ⟨beyond, floor⟩))

theorem picks_below (here : i.Contains (q * 10 ^ k))
    (near : i.Contains ((q + 1 : ℕ) * 10 ^ k) →
      2 * i.center < (2 * q + 1) * 10 ^ k ∨ 2 * i.center = (2 * q + 1) * 10 ^ k ∧ q % 2 = 0) :
    i.Picks ⟨q, k⟩ := by
  refine ⟨here, fun n distinct contains => ?_⟩
  have power := ten_zpow_pos k
  dsimp only [Decimal.value] at distinct contains ⊢
  rw [abs_of_nonpos (sub_nonpos.mpr floor)]
  rcases Nat.lt_or_ge q n with greater | atMost
  · have beyond : ((q + 1 : ℕ) : ℚ) * 10 ^ k ≤ n * 10 ^ k :=
      mul_le_mul_of_nonneg_right (by exact_mod_cast greater) power.le
    have neighbour := near (contains.of_between proper (.inr ⟨ceiling.le, beyond⟩))
    rw [abs_of_nonneg (sub_nonneg.mpr (ceiling.le.trans beyond))]
    push_cast at beyond
    rcases neighbour with nearer | ⟨tie, even⟩
    · exact .inl (by linarith)
    · rcases eq_or_ne n (q + 1) with rfl | farther
      · refine .inr ⟨?_, even, .inl rfl⟩
        push_cast
        linarith
      · have strict : ((q + 1 : ℕ) : ℚ) * 10 ^ k < n * 10 ^ k :=
          mul_lt_mul_of_pos_right (by exact_mod_cast (by omega : q + 1 < n)) power
        push_cast at strict
        exact .inl (by linarith)
  · have beyond : (n : ℚ) * 10 ^ k < q * 10 ^ k :=
      mul_lt_mul_of_pos_right (by exact_mod_cast (by omega : n < q)) power
    rw [abs_of_nonpos (by linarith)]
    exact .inl (by linarith)

theorem picks_above (there : i.Contains ((q + 1 : ℕ) * 10 ^ k))
    (near : i.Contains (q * 10 ^ k) →
      (2 * q + 1) * 10 ^ k < 2 * i.center ∨ 2 * i.center = (2 * q + 1) * 10 ^ k ∧ q % 2 = 1) :
    i.Picks ⟨q + 1, k⟩ := by
  refine ⟨there, fun n distinct contains => ?_⟩
  have power := ten_zpow_pos k
  dsimp only [Decimal.value] at distinct contains ⊢
  rw [abs_of_nonneg (sub_nonneg.mpr ceiling.le)]
  rcases Nat.lt_or_ge q n with greater | atMost
  · have beyond : ((q + 1 : ℕ) : ℚ) * 10 ^ k < n * 10 ^ k :=
      mul_lt_mul_of_pos_right (by exact_mod_cast (by omega : q + 1 < n)) power
    rw [abs_of_nonneg (by linarith)]
    exact .inl (by linarith)
  · have beyond : (n : ℚ) * 10 ^ k ≤ q * 10 ^ k := mul_le_mul_of_nonneg_right (by exact_mod_cast atMost) power.le
    have neighbour := near (contains.of_between proper (.inl ⟨beyond, floor⟩))
    rw [abs_of_nonpos (sub_nonpos.mpr (beyond.trans floor))]
    push_cast
    rcases neighbour with nearer | ⟨tie, odd⟩
    · exact .inl (by linarith)
    · rcases eq_or_ne n q with rfl | farther
      · exact .inr ⟨by linarith, by omega, .inr rfl⟩
      · have strict : (n : ℚ) * 10 ^ k < q * 10 ^ k :=
          mul_lt_mul_of_pos_right (by exact_mod_cast (by omega : n < q)) power
        exact .inl (by linarith)

end Neighbours

/-- A point of a grid against a multiple of the number. -/
theorem point_lt_center_iff (proper : i.Proper) {c : ℕ} :
    n * (i.den * 10 ^ k.toNat) < c * i.value * 10 ^ (-k).toNat ↔ (n : ℚ) * 10 ^ k < c * i.center := by
  have den : (0 : ℚ) < i.den := by exact_mod_cast proper.den
  rw [point_lt_iff, Nat.cast_mul, ← center_mul_den proper, ← mul_assoc, mul_lt_mul_iff_left₀ den]

theorem center_lt_point_iff (proper : i.Proper) {c : ℕ} :
    c * i.value * 10 ^ (-k).toNat < n * (i.den * 10 ^ k.toNat) ↔ (c : ℚ) * i.center < n * 10 ^ k := by
  have den : (0 : ℚ) < i.den := by exact_mod_cast proper.den
  rw [lt_point_iff, Nat.cast_mul, ← center_mul_den proper, ← mul_assoc, mul_lt_mul_iff_left₀ den]

/-- A point below the number is in the interval if it does not pass the lower end. -/
theorem contains_below_iff (proper : i.Proper) (floor : (n : ℚ) * 10 ^ k ≤ i.center) :
    i.Contains (n * 10 ^ k) ↔
      if i.closed then i.low * 10 ^ (-k).toNat ≤ n * (i.den * 10 ^ k.toNat)
      else i.low * 10 ^ (-k).toNat < n * (i.den * 10 ^ k.toNat) := by
  have den : (0 : ℚ) < i.den := by exact_mod_cast proper.den
  have above : (i.value : ℚ) < i.high := by exact_mod_cast proper.above
  rw [← center_mul_den proper] at above
  have under : (n : ℚ) * 10 ^ k * i.den < i.high := (mul_le_mul_of_nonneg_right floor den.le).trans_lt above
  rw [Contains, and_iff_left (.inl under), le_point_iff, lt_point_iff]
  cases i.closed <;> simp [le_iff_lt_or_eq]

/-- A point above the number is in the interval if it does not pass the upper end. -/
theorem contains_above_iff (proper : i.Proper) (ceiling : i.center ≤ (n : ℚ) * 10 ^ k) :
    i.Contains (n * 10 ^ k) ↔
      if i.closed then n * (i.den * 10 ^ k.toNat) ≤ i.high * 10 ^ (-k).toNat
      else n * (i.den * 10 ^ k.toNat) < i.high * 10 ^ (-k).toNat := by
  have den : (0 : ℚ) < i.den := by exact_mod_cast proper.den
  have below : (i.low : ℚ) < i.value := by exact_mod_cast proper.below
  rw [← center_mul_den proper] at below
  have beyond : (i.low : ℚ) < (n : ℚ) * 10 ^ k * i.den := below.trans_le (mul_le_mul_of_nonneg_right ceiling den.le)
  rw [Contains, and_iff_right (.inl beyond), point_le_iff, point_lt_iff]
  cases i.closed <;> simp [le_iff_lt_or_eq]

/-- What is found on a grid is picked there, and where nothing is found the grid avoids the interval. -/
theorem onGrid?_cases (proper : i.Proper) (k : ℤ) :
    (∃ d, i.onGrid? true k = some d ∧ d.exponent = k ∧ i.Picks d) ∨
      i.onGrid? true k = none ∧ ∀ n : ℕ, ¬i.Contains (n * 10 ^ k) := by
  have unit : 0 < i.den * 10 ^ k.toNat := Nat.mul_pos proper.den (Nat.pow_pos (by decide))
  have parts := Nat.div_add_mod' (i.value * 10 ^ (-k).toNat) (i.den * 10 ^ k.toNat)
  have small := Nat.mod_lt (i.value * 10 ^ (-k).toNat) unit
  rw [onGrid?]
  generalize i.value * 10 ^ (-k).toNat / (i.den * 10 ^ k.toNat) = q at *
  generalize i.value * 10 ^ (-k).toNat % (i.den * 10 ^ k.toNat) = r at *
  have next : (q + 1) * (i.den * 10 ^ k.toNat) = q * (i.den * 10 ^ k.toNat) + i.den * 10 ^ k.toNat := Nat.succ_mul _ _
  have middle : (2 * q + 1) * (i.den * 10 ^ k.toNat) = 2 * (q * (i.den * 10 ^ k.toNat)) + i.den * 10 ^ k.toNat := by
    rw [Nat.succ_mul, Nat.mul_assoc]
  have double : 2 * i.value * 10 ^ (-k).toNat = 2 * (i.value * 10 ^ (-k).toNat) := Nat.mul_assoc _ _ _
  have floor : (q : ℚ) * 10 ^ k ≤ i.center := by
    have whole := mt (center_lt_point_iff (k := k) (n := q) (c := 1) proper).mpr (by rw [Nat.one_mul]; omega)
    simpa using whole
  have ceiling : i.center < (q + 1 : ℕ) * 10 ^ k := by
    have whole := (center_lt_point_iff (k := k) (n := q + 1) (c := 1) proper).mp (by rw [Nat.one_mul]; omega)
    simpa using whole
  have less : 2 * r < i.den * 10 ^ k.toNat ↔ 2 * i.center < (2 * q + 1) * 10 ^ k := by
    have whole := center_lt_point_iff (k := k) (n := 2 * q + 1) (c := 2) proper
    push_cast at whole
    rw [← whole]
    omega
  have greater : i.den * 10 ^ k.toNat < 2 * r ↔ (2 * q + 1) * 10 ^ k < 2 * i.center := by
    have whole := point_lt_center_iff (k := k) (n := 2 * q + 1) (c := 2) proper
    push_cast at whole
    rw [← whole]
    omega
  have equal : 2 * r = i.den * 10 ^ k.toNat → 2 * i.center = (2 * q + 1) * 10 ^ k := by
    intro half
    refine le_antisymm (not_lt.mp (mt greater.mpr ?_)) (not_lt.mp (mt less.mpr ?_)) <;> omega
  have below := contains_below_iff proper floor
  have above := contains_above_iff proper ceiling.le
  have found : ∀ {d : Decimal}, d.exponent = k → i.Picks d →
      (∃ e, some d = some e ∧ e.exponent = k ∧ i.Picks e) ∨
        some d = none ∧ ∀ n : ℕ, ¬i.Contains (n * 10 ^ k) :=
    fun exponent picks => .inl ⟨_, rfl, exponent, picks⟩
  by_cases exact : r = 0
  · have there : (q : ℚ) * 10 ^ k = i.center := by
      have whole := mt (point_lt_center_iff (k := k) (n := q) (c := 1) proper).mpr (by rw [Nat.one_mul]; omega)
      rw [Nat.cast_one, one_mul, not_lt] at whole
      exact floor.antisymm whole
    rw [if_pos exact]
    refine found rfl (picks_below proper floor ceiling (there ▸ contains_center proper) fun _ => .inl ?_)
    exact less.mp (by omega)
  · rw [if_neg exact]
    refine choice_of_cases (P := fun found? => (∃ d, found? = some d ∧ d.exponent = k ∧ i.Picks d) ∨
      found? = none ∧ ∀ n : ℕ, ¬i.Contains (n * 10 ^ k)) ?_ ?_ ?_ ?_ ?_
    · intro down up near
      refine found rfl (picks_below proper floor ceiling (below.mpr down) fun _ => ?_)
      exact near.imp less.mp fun tie => ⟨equal tie.1, tie.2⟩
    · intro down up far
      refine found rfl (picks_above proper floor ceiling (above.mpr up.2) fun _ => ?_)
      rcases Nat.lt_or_ge (i.den * 10 ^ k.toNat) (2 * r) with more | atMost
      · exact .inl (greater.mp more)
      · exact .inr ⟨equal (by omega), by omega⟩
    · intro down notUp
      refine found rfl (picks_below proper floor ceiling (below.mpr down) fun up => ?_)
      exact absurd ⟨rfl, above.mp up⟩ notUp
    · intro notDown up
      refine found rfl (picks_above proper floor ceiling (above.mpr up.2) fun down => ?_)
      exact absurd (below.mp down) notDown
    · intro notDown notUp
      refine .inr ⟨rfl, avoids_of_neighbours proper floor ceiling (mt below.mp notDown) fun up => ?_⟩
      exact notUp ⟨rfl, above.mp up⟩

/-- The search stops at the first grid with a point in the interval, if there is one in reach. -/
theorem shortestFrom_spec (proper : i.Proper) {fuel : Nat} {k : ℤ}
    (reached : ∃ j ≤ k, k < j + fuel ∧ ∃ n : ℕ, i.Contains (n * 10 ^ j)) :
    (i.shortestFrom fuel true k).exponent ≤ k ∧ i.Picks (i.shortestFrom fuel true k) ∧
      ∀ j ≤ k, (i.shortestFrom fuel true k).exponent < j → ∀ n : ℕ, ¬i.Contains (n * 10 ^ j) := by
  induction fuel generalizing k with
  | zero =>
    obtain ⟨j, le, less, -⟩ := reached
    exact absurd less (by rw [Nat.cast_zero]; omega)
  | succ fuel ih =>
    rw [shortestFrom]
    rcases onGrid?_cases proper k with ⟨d, found, exponent, picks⟩ | ⟨missing, avoids⟩
    · rw [found]
      exact ⟨exponent.le, picks, fun j le less => absurd (exponent ▸ less : k < j) le.not_gt⟩
    · have rising : (true && !(false && i.endsOn k)) = true := rfl
      rw [missing, proper.unguarded, rising]
      dsimp only
      obtain ⟨j, le, less, n, contains⟩ := reached
      have finer : j ≠ k := by
        rintro rfl
        exact avoids n contains
      obtain ⟨coarsest, picks, coarser⟩ := ih (k := k - 1) ⟨j, by omega, by omega, n, contains⟩
      refine ⟨by omega, picks, fun j' le' less' => ?_⟩
      rcases le'.lt_or_eq with below | rfl
      · exact coarser j' (by omega) less'
      · exact avoids

end Interval

/-- Dropping zeros keeps the value. -/
theorem Decimal.value_trimFrom (fuel : Nat) (d : Decimal) : (trimFrom fuel d).value = d.value := by
  induction fuel generalizing d with
  | zero => rfl
  | succ fuel ih =>
    rw [trimFrom]
    split
    · rename_i trailing
      have tens : ((d.digits / 10 : Nat) : ℚ) * 10 = d.digits := by
        exact_mod_cast Nat.div_mul_cancel (Nat.dvd_of_mod_eq_zero trailing.2)
      rw [ih, value, value, zpow_add_one₀ (by norm_num), ← tens]
      ring
    · rfl

/-! ## The decimal point -/

theorem decimalPointFrom_spec {value den fuel : Nat} {k : ℤ} (positive : 0 < den)
    (low : (10 : ℚ) ^ (k - 1) ≤ value / den) (high : (value : ℚ) / den < 10 ^ (k + fuel)) :
    (10 : ℚ) ^ (decimalPointFrom value den fuel k - 1) ≤ value / den ∧
      (value : ℚ) / den < 10 ^ decimalPointFrom value den fuel k := by
  have denPositive : (0 : ℚ) < den := by exact_mod_cast positive
  induction fuel generalizing k with
  | zero =>
    rw [Nat.cast_zero, add_zero] at high
    exact ⟨low, high⟩
  | succ fuel ih =>
    have below : (if 0 ≤ k then value < den * 10 ^ k.toNat else value * 10 ^ (-k).toNat < den) ↔
        (value : ℚ) / den < 10 ^ k := by
      have whole := @lt_point_iff den 1 value k
      rw [Nat.cast_one, one_mul, one_mul, ← div_lt_iff₀ denPositive] at whole
      rw [← whole]
      split
      · have none : (-k).toNat = 0 := by omega
        rw [none, pow_zero, mul_one]
      · have none : k.toNat = 0 := by omega
        rw [none, pow_zero, mul_one]
    rw [decimalPointFrom]
    by_cases here : (value : ℚ) / den < 10 ^ k
    · rw [if_pos (below.mpr here)]
      exact ⟨low, here⟩
    · rw [if_neg (mt below.mp here)]
      refine ih ?_ ?_
      · rw [add_sub_cancel_right]
        exact not_lt.mp here
      · have exponent : k + ((fuel + 1 : Nat) : ℤ) = k + 1 + fuel := by
          push_cast
          ring
        rwa [exponent] at high

section Estimate

variable {n m : ℕ} (low : 2 ^ n ≤ 10 ^ m) (high : 10 ^ m ≤ 2 ^ (n + 1))

include low high

/-- Powers with `n` bits to `m` digits: as many steps of the exponent as there are bits in it may lose one bit. -/
theorem two_zpow_le_ten_zpow {b : ℤ} (small : |b| ≤ n) :
    (2 : ℚ) ^ ((b - 1) * n) ≤ 10 ^ (b * m) ∧ (10 : ℚ) ^ (b * m) ≤ 2 ^ ((b + 1) * n) := by
  have lowQ : (2 : ℚ) ^ (n : ℤ) ≤ 10 ^ (m : ℤ) := by exact_mod_cast low
  have highQ : (10 : ℚ) ^ (m : ℤ) ≤ 2 ^ ((n : ℤ) + 1) := by exact_mod_cast high
  have raise : ∀ {e f : ℤ}, e ≤ f → (2 : ℚ) ^ e ≤ 2 ^ f := fun le => zpow_le_zpow_right₀ one_le_two le
  obtain ⟨within, within'⟩ := abs_le.mp small
  rw [mul_comm b, zpow_mul (10 : ℚ) m b]
  obtain ⟨k, rfl | rfl⟩ := b.eq_nat_or_neg
  · rw [zpow_natCast]
    constructor
    · calc (2 : ℚ) ^ (((k : ℤ) - 1) * n) ≤ 2 ^ ((n : ℤ) * k) := raise (by nlinarith)
        _ = (2 ^ (n : ℤ)) ^ k := by rw [zpow_mul, zpow_natCast]
        _ ≤ (10 ^ (m : ℤ)) ^ k := pow_le_pow_left₀ (two_zpow_pos _).le lowQ k
    · calc ((10 : ℚ) ^ (m : ℤ)) ^ k ≤ (2 ^ ((n : ℤ) + 1)) ^ k := pow_le_pow_left₀ (ten_zpow_pos _).le highQ k
        _ = 2 ^ (((n : ℤ) + 1) * k) := by rw [zpow_mul, zpow_natCast]
        _ ≤ 2 ^ (((k : ℤ) + 1) * n) := raise (by nlinarith)
  · rw [zpow_neg, zpow_natCast]
    constructor
    · calc (2 : ℚ) ^ ((-(k : ℤ) - 1) * n) ≤ 2 ^ (-(((n : ℤ) + 1) * k)) := raise (by nlinarith)
        _ = ((2 ^ ((n : ℤ) + 1)) ^ k)⁻¹ := by rw [zpow_neg, zpow_mul, zpow_natCast]
        _ ≤ ((10 ^ (m : ℤ)) ^ k)⁻¹ := inv_anti₀ (pow_pos (ten_zpow_pos _) k) (pow_le_pow_left₀ (ten_zpow_pos _).le highQ k)
    · calc (((10 : ℚ) ^ (m : ℤ)) ^ k)⁻¹ ≤ ((2 ^ (n : ℤ)) ^ k)⁻¹ :=
            inv_anti₀ (pow_pos (two_zpow_pos _) k) (pow_le_pow_left₀ (two_zpow_pos _).le lowQ k)
        _ = 2 ^ (-((n : ℤ) * k)) := by rw [zpow_neg, zpow_mul, zpow_natCast _ k]
        _ ≤ 2 ^ ((-(k : ℤ) + 1) * n) := raise (by nlinarith)

/-- A number of bits as a number of digits, without the fraction. -/
theorem digits_of_bits {b p : ℤ} (small : |b| ≤ n) (floor : p * n ≤ b * m) (next : b * m ≤ (p + 1) * n)
    (positive : n ≠ 0) : (10 : ℚ) ^ p ≤ 2 ^ (b + 1) ∧ (2 : ℚ) ^ (b - 1) ≤ 10 ^ (p + 1) := by
  obtain ⟨first, second⟩ := two_zpow_le_ten_zpow low high small
  have raise : ∀ {e f : ℤ}, e ≤ f → (10 : ℚ) ^ e ≤ 10 ^ f := fun le => zpow_le_zpow_right₀ (by norm_num) le
  constructor
  · refine (pow_le_pow_iff_left₀ (ten_zpow_pos p).le (two_zpow_pos _).le positive).mp ?_
    rw [← zpow_natCast, ← zpow_natCast, ← zpow_mul, ← zpow_mul]
    exact (raise floor).trans second
  · refine (pow_le_pow_iff_left₀ (two_zpow_pos _).le (ten_zpow_pos _).le positive).mp ?_
    rw [← zpow_natCast, ← zpow_natCast, ← zpow_mul, ← zpow_mul]
    exact first.trans (raise next)

end Estimate

/-- Where the search for the decimal point of a number starts, by its bits. -/
def pointEstimate (bits : ℤ) : ℤ := bits * 30103 / 100000 - 2

/-- The search for the decimal point of a number starts close to it. -/
theorem pointEstimate_spec {bits : ℤ} (small : |bits| ≤ 100000) :
    (10 : ℚ) ^ (pointEstimate bits - 1) ≤ 2 ^ (bits - 1) ∧ (2 : ℚ) ^ (bits + 1) ≤ 10 ^ (pointEstimate bits + 64) := by
  obtain ⟨n, m, exponent, digits, low, high⟩ :
      ∃ n m : ℕ, n = 100000 ∧ m = 30103 ∧ 2 ^ n ≤ 10 ^ m ∧ 10 ^ m ≤ 2 ^ (n + 1) :=
    ⟨100000, 30103, rfl, rfl, by decide +kernel, by decide +kernel⟩
  obtain ⟨first, second⟩ := digits_of_bits low high (b := bits) (p := bits * 30103 / 100000)
    (by rw [exponent]; exact small) (by rw [exponent, digits]; omega) (by rw [exponent, digits]; omega) (by omega)
  rw [pointEstimate]
  generalize bits * 30103 / 100000 = p at *
  constructor
  · calc (10 : ℚ) ^ (p - 2 - 1) = 10 ^ p * 10 ^ (-3 : ℤ) := by
          rw [← zpow_add₀ (by norm_num)]
          congr 1
          ring
      _ ≤ 2 ^ (bits + 1) * 10 ^ (-3 : ℤ) := mul_le_mul_of_nonneg_right first (ten_zpow_pos _).le
      _ ≤ 2 ^ (bits + 1) * 2 ^ (-2 : ℤ) := mul_le_mul_of_nonneg_left (by norm_num) (two_zpow_pos _).le
      _ = 2 ^ (bits - 1) := by
          rw [← zpow_add₀ two_ne_zero]
          congr 1
          ring
  · calc (2 : ℚ) ^ (bits + 1) = 2 ^ (bits - 1) * 2 ^ (2 : ℤ) := by
          rw [← zpow_add₀ two_ne_zero]
          congr 1
          ring
      _ ≤ 10 ^ (p + 1) * 2 ^ (2 : ℤ) := mul_le_mul_of_nonneg_right second (two_zpow_pos _).le
      _ ≤ 10 ^ (p + 1) * 10 ^ (61 : ℤ) := mul_le_mul_of_nonneg_left (by norm_num) (ten_zpow_pos _).le
      _ = 10 ^ (p - 2 + 64) := by
          rw [← zpow_add₀ (by norm_num)]
          congr 1
          ring

/-- The decimal point of a number that is neither very small nor very large. -/
theorem decimalPoint_spec {value den : Nat} (nonzero : value ≠ 0) (positive : 0 < den)
    (small : |(Nat.log2 value : ℤ) - Nat.log2 den| ≤ 100000) :
    (10 : ℚ) ^ (decimalPoint value den - 1) ≤ value / den ∧ (value : ℚ) / den < 10 ^ decimalPoint value den := by
  obtain ⟨start, stop⟩ := pointEstimate_spec small
  exact decimalPointFrom_spec positive (start.trans (two_zpow_le_quotient nonzero positive))
    ((quotient_lt_two_zpow value positive).trans_le stop)

/-! ## The shortest decimal of an interval -/

namespace Interval

variable {i : Interval}

theorem Contains.pos {x : ℚ} (proper : i.Proper) (contains : i.Contains x) : 0 < x := by
  have den : (0 : ℚ) < i.den := by exact_mod_cast proper.den
  have low : (0 : ℚ) < i.low := by exact_mod_cast proper.low
  have scaled : 0 < x * i.den := contains.1.elim low.trans fun atEnd => low.trans_eq atEnd.2
  exact pos_of_mul_pos_left scaled den.le

/-- A grid that is finer than the interval has a point in it. -/
theorem exists_contains (proper : i.Proper) {k : ℤ} (fine : (10 : ℚ) ^ k * i.den < i.value - i.low) :
    ∃ n : ℕ, i.Contains (n * 10 ^ k) := by
  have den : (0 : ℚ) < i.den := by exact_mod_cast proper.den
  have above : (i.value : ℚ) < i.high := by exact_mod_cast proper.above
  have power := ten_zpow_pos k
  have nonneg : 0 ≤ i.center / 10 ^ k := div_nonneg (div_nonneg (Nat.cast_nonneg _) den.le) power.le
  have floor := Nat.floor_le nonneg
  have ceiling := Nat.lt_floor_add_one (i.center / 10 ^ k)
  rw [le_div_iff₀ power] at floor
  rw [div_lt_iff₀ power] at ceiling
  have number := center_mul_den proper
  refine ⟨⌊i.center / 10 ^ k⌋₊, .inl ?_, .inl ?_⟩
  · have scaled := mul_lt_mul_of_pos_right ceiling den
    rw [number] at scaled
    linarith
  · have scaled := mul_le_mul_of_nonneg_right floor den.le
    rw [number] at scaled
    linarith

/-- An interval that is not very narrow has a point on a grid that the search reaches. -/
theorem exists_reached (proper : i.Proper) (room : i.value ≤ 2 ^ 55 * (i.value - i.low)) {point : ℤ}
    (low : (10 : ℚ) ^ (point - 1) ≤ i.center) :
    ∃ j ≤ point - 1, point - 1 < j + (64 : Nat) ∧ ∃ n : ℕ, i.Contains (n * 10 ^ j) := by
  refine ⟨point - 1 - 17, by omega, by omega, exists_contains proper ?_⟩
  have den : (0 : ℚ) < i.den := by exact_mod_cast proper.den
  have value : (0 : ℚ) < i.value := by exact_mod_cast proper.low.trans proper.below
  have wide : (i.value : ℚ) ≤ 2 ^ 55 * (i.value - i.low) := by
    have := Nat.cast_le (α := ℚ).mpr room
    rwa [Nat.cast_mul, Nat.cast_sub proper.below.le, Nat.cast_pow, Nat.cast_ofNat] at this
  have scaled := mul_le_mul_of_nonneg_right low den.le
  have split : (10 : ℚ) ^ (point - 1) = 10 ^ (point - 1 - 17) * 10 ^ 17 := by
    rw [← zpow_natCast, ← zpow_add₀ (by norm_num)]
    congr 1
    ring
  rw [center_mul_den proper, split] at scaled
  linarith

variable {d : Decimal} {point : ℤ} {count : ℕ}

/-- A decimal that is picked on a grid is the shortest one if all coarser grids avoid the interval, up to the one of
the leading digit. -/
theorem Picks.isShortest (proper : i.Proper) (picks : i.Picks d) (digits : point = d.exponent + 1 + count)
    (low : (10 : ℚ) ^ (point - 1) ≤ i.center) (high : i.center < 10 ^ point)
    (coarser : ∀ j ≤ point - 1, d.exponent < j → ∀ n : ℕ, ¬i.Contains (n * 10 ^ j)) :
    IsShortest i.Contains i.center (count + 1) d.value := by
  -- a decimal with few digits on a fine grid is less than the power of ten of the leading digit
  have lead : ∀ {n m : ℕ} {j : ℤ}, n < 10 ^ m → j + m ≤ point - 1 → i.Contains (n * 10 ^ j) →
      (n : ℚ) * 10 ^ j < 10 ^ (point - 1) ∧ i.Contains ((1 : ℕ) * 10 ^ (point - 1)) := by
    intro n m j few fine contains
    have less := point_lt_ten_zpow few fine
    rw [Nat.cast_one, one_mul]
    exact ⟨less, contains.of_between proper (.inl ⟨less.le, low⟩)⟩
  refine ⟨picks.member, ?_, ?_, ?_⟩
  · -- a decimal beyond the next power of ten would not be picked before that power
    have power : ((10 ^ (count + 1) : ℕ) : ℚ) * 10 ^ d.exponent = 10 ^ point := by
      rw [Nat.cast_pow, Nat.cast_ofNat, ← zpow_natCast, ← zpow_add₀ (by norm_num), digits]
      congr 1
      push_cast
      ring
    rcases Nat.lt_trichotomy d.digits (10 ^ (count + 1)) with less | same | more
    · exact ⟨d.digits, d.exponent, less, rfl⟩
    · refine ⟨1, point, Nat.one_lt_pow (Nat.succ_ne_zero count) (by decide), ?_⟩
      rw [Decimal.value, same, power, Nat.cast_one, one_mul]
    · have beyond : (10 : ℚ) ^ point < d.value := by
        rw [← power, Decimal.value]
        exact mul_lt_mul_of_pos_right (by exact_mod_cast more) (ten_zpow_pos _)
      have contains := picks.member.of_between proper (.inr ⟨high.le, beyond.le⟩)
      rw [← power] at contains
      have near := picks.nearest _ more.ne contains
      rw [power, abs_of_nonneg (by linarith), abs_of_nonneg (by linarith)] at near
      rcases near with nearer | ⟨tie, -⟩ <;> linarith
  · rintro y contains ⟨n, j, few, rfl⟩
    rw [Nat.add_sub_cancel] at few
    rcases Nat.eq_zero_or_pos count with none | some
    · rw [none, Nat.pow_zero, Nat.lt_one_iff] at few
      rw [few, Nat.cast_zero, zero_mul] at contains
      exact lt_irrefl _ (contains.pos proper)
    · rcases lt_or_ge j (d.exponent + 1) with finer | coarse
      · exact coarser (point - 1) (le_refl _) (by omega) 1 (lead few (by omega) contains).2
      · obtain ⟨m, same⟩ := grid_point n coarse
        rw [same] at contains
        exact coarser (d.exponent + 1) (by omega) (by omega) m contains
  · rintro y contains ⟨n, j, few, rfl⟩ distinct
    rcases lt_or_ge j d.exponent with finer | coarse
    · -- then the power of ten is on the grid, and nearer
      obtain ⟨less, contained⟩ := lead few (by push_cast; omega) contains
      have exponent : point - 1 = d.exponent := by
        by_contra other
        exact coarser (point - 1) (le_refl _) (by omega) 1 contained
      have near : |d.value - i.center| ≤ |(1 : ℕ) * 10 ^ d.exponent - i.center| := by
        by_cases one : 1 = d.digits
        · rw [Decimal.value, ← one]
        · rw [exponent] at contained
          exact (picks.nearest 1 one contained).elim le_of_lt fun tie => tie.1.le
      rw [← exponent, Nat.cast_one, one_mul, abs_of_nonpos (sub_nonpos.mpr low)] at near
      rw [abs_of_nonpos (sub_nonpos.mpr (less.le.trans low)) ]
      exact .inl (by linarith)
    · obtain ⟨m, same⟩ := grid_point n coarse
      rw [same] at contains distinct ⊢
      have other : m ≠ d.digits := by
        rintro rfl
        exact distinct rfl
      refine (picks.nearest m other contains).imp id fun tie => ⟨tie.1, d.digits / 2, d.exponent, ?_, ?_⟩
      · rw [Nat.mul_div_cancel' (Nat.dvd_of_mod_eq_zero tie.2.1)]
        rfl
      · rw [Decimal.value, ← sub_mul, abs_mul, abs_of_pos (ten_zpow_pos _)]
        rcases tie.2.2 with rfl | next
        · rw [Nat.cast_succ, add_sub_cancel_left, abs_one, one_mul]
        · rw [next, Nat.cast_succ, sub_add_cancel_left, abs_neg, abs_one, one_mul]

/-- The shortest decimal of an interval that is neither very narrow nor very far out. -/
theorem isShortest_shortest (proper : i.Proper) (room : i.value ≤ 2 ^ 55 * (i.value - i.low))
    (small : |(Nat.log2 i.value : ℤ) - Nat.log2 i.den| ≤ 100000) :
    ∃ count, IsShortest i.Contains i.center count i.shortest.value := by
  have nonzero : i.value ≠ 0 := (proper.low.trans proper.below).ne'
  obtain ⟨low, high⟩ := decimalPoint_spec nonzero proper.den small
  rw [shortest]
  generalize decimalPoint i.value i.den = point at *
  obtain ⟨coarsest, picks, coarser⟩ := shortestFrom_spec proper (exists_reached proper room low)
  rw [Decimal.value_trimFrom]
  generalize i.shortestFrom 64 true (point - 1) = d at *
  exact ⟨(point - 1 - d.exponent).toNat + 1, picks.isShortest proper (by omega) low high coarser⟩

end Interval

end DocTable.Number
