import DocTable.Proofs.Number.MonotoneRounding

/-!
# The nearest magnitude

The bits of a magnitude say where it stands among all magnitudes of its format (`Format.value_strictMono`): the next
bits are the next magnitude, one step of the grid further (`Format.value_succ`).  A number is given bits up to `b`
exactly if it is below the middle between the magnitudes of `b` and `b + 1`, or in the middle if `b` is even
(`Format.bitsAt_le_iff`).  So the bits at a number are those of the nearest magnitude, the even ones of two
(`Format.nearest_iff`), and the interval of a magnitude is the set of numbers that are given its bits
(`Format.contains_iff`).
-/

namespace DocTable.Number

set_option autoImplicit false

attribute [local instance] Number.corePower

/-- A number is rounded to `k` or less if it is below the middle of `k` and the next number, or in the middle if
`k` is even. -/
theorem nearest_le_iff {x : ℚ} (nonneg : 0 ≤ x) (k : Nat) :
    nearest x ≤ k ↔ 2 * x < 2 * k + 1 ∨ 2 * x = 2 * k + 1 ∧ k % 2 = 0 := by
  have den : (0 : ℚ) < x.den := by exact_mod_cast x.den_pos
  have left : ((2 * x.num.toNat : Nat) : ℚ) = 2 * x * x.den := by
    rw [Nat.cast_mul, natCast_num_toNat nonneg, Nat.cast_ofNat, mul_assoc]
  have right : (((2 * k + 1) * x.den : Nat) : ℚ) = (2 * k + 1) * x.den := by
    push_cast
    rfl
  rw [nearest, roundDiv_le_iff x.den_pos, ← Nat.cast_lt (α := ℚ), ← Nat.cast_inj (R := ℚ), left, right,
    mul_lt_mul_iff_left₀ den, mul_left_inj' den.ne']

/-- A number is between the ends of an interval, or at an end of a closed one. -/
def Interval.Contains (i : Interval) (x : ℚ) : Prop :=
  (i.low < x * i.den ∨ i.closed = true ∧ i.low = x * i.den) ∧
    (x * i.den < i.high ∨ i.closed = true ∧ x * i.den = i.high)

namespace Format

variable {f : Format} {b c m : Nat} {e : ℤ} {x : ℚ}

/-! ## Magnitudes in order -/

/-- The magnitude of some bits. -/
def value (f : Format) (bits : Nat) : ℚ := ((f.magnitude bits).1 : ℚ) * 2 ^ (f.magnitude bits).2

/-- Bits by the mantissa and the exponent of their magnitude. -/
structure Places (f : Format) (bits m : Nat) (e : ℤ) : Prop where
  least : f.leastExponent ≤ e
  high : m < 2 * 2 ^ (f.precision - 1)
  full : f.leastExponent < e → 2 ^ (f.precision - 1) ≤ m
  bits_eq : bits = (e - f.leastExponent).toNat * 2 ^ (f.precision - 1) + m

theorem places_magnitude (f : Format) (bits : Nat) :
    f.Places bits (f.magnitude bits).1 (f.magnitude bits).2 := by
  have unit : 0 < 2 ^ (f.precision - 1) := Nat.two_pow_pos _
  have parts := Nat.div_add_mod bits (2 ^ (f.precision - 1))
  have small := Nat.mod_lt bits unit
  rw [magnitude]
  split
  · rename_i none
    rw [none, Nat.mul_zero, Nat.zero_add] at parts
    refine ⟨le_refl _, by omega, fun above => absurd above (lt_irrefl _), ?_⟩
    rw [sub_self, Int.toNat_zero, Nat.zero_mul, Nat.zero_add]
  · rename_i some
    obtain ⟨k, field⟩ : ∃ k, bits / 2 ^ (f.precision - 1) = k + 1 := ⟨_, (Nat.succ_pred_eq_of_ne_zero some).symm⟩
    rw [field] at parts ⊢
    have exponent : (f.leastExponent + ((k + 1 : Nat) : ℤ) - 1 - f.leastExponent).toNat = k := by omega
    rw [Nat.mul_succ, Nat.mul_comm] at parts
    refine ⟨by omega, by omega, fun _ => by omega, ?_⟩
    rw [exponent]
    omega

/-- Bits have one mantissa and one exponent. -/
theorem Places.magnitude_eq (places : f.Places b m e) : f.magnitude b = (m, e) := by
  have unit : 0 < 2 ^ (f.precision - 1) := Nat.two_pow_pos _
  obtain ⟨least, high, full, rfl⟩ := places
  obtain ⟨k, exponent⟩ : ∃ k : Nat, e = f.leastExponent + k := ⟨(e - f.leastExponent).toNat, by omega⟩
  subst exponent
  have steps : (f.leastExponent + k - f.leastExponent).toNat = k := by omega
  rw [steps, magnitude]
  rcases Nat.lt_or_ge m (2 ^ (f.precision - 1)) with small | large
  · have none : k = 0 := by
      by_contra some
      exact absurd (full (by omega)) (Nat.not_le.mpr small)
    subst none
    rw [Nat.zero_mul, Nat.zero_add, Nat.div_eq_of_lt small, if_pos rfl, Nat.cast_zero, add_zero]
  · obtain ⟨r, rfl⟩ := Nat.exists_eq_add_of_le large
    have sum : k * 2 ^ (f.precision - 1) + (2 ^ (f.precision - 1) + r) = r + (k + 1) * 2 ^ (f.precision - 1) := by ring
    rw [sum, Nat.add_mul_div_right _ _ unit, Nat.add_mul_mod_self_right, Nat.div_eq_of_lt (by omega),
      Nat.mod_eq_of_lt (by omega), Nat.zero_add, if_neg (Nat.succ_ne_zero k)]
    congr 1
    push_cast
    ring

/-- The next bits have the next mantissa, or the first one of the next exponent. -/
theorem Places.succ (places : f.Places b m e) :
    f.Places (b + 1) (m + 1) e ∨ m + 1 = 2 * 2 ^ (f.precision - 1) ∧ f.Places (b + 1) (2 ^ (f.precision - 1)) (e + 1) := by
  have unit : 0 < 2 ^ (f.precision - 1) := Nat.two_pow_pos _
  obtain ⟨least, high, full, same⟩ := places
  rcases Nat.lt_or_ge (m + 1) (2 * 2 ^ (f.precision - 1)) with within | carried
  · exact .inl ⟨least, within, fun above => (full above).trans (Nat.le_succ m), by omega⟩
  · refine .inr ⟨by omega, by omega, by omega, fun _ => le_refl _, ?_⟩
    have next : (e + 1 - f.leastExponent).toNat = (e - f.leastExponent).toNat + 1 := by omega
    rw [next, Nat.succ_mul]
    omega

theorem Places.mantissa_pos (places : f.Places b m e) (nonzero : b ≠ 0) : 0 < m := by
  obtain ⟨least, -, full, same⟩ := places
  rcases least.lt_or_eq with above | rfl
  · exact (Nat.two_pow_pos _).trans_le (full above)
  · rw [sub_self, Int.toNat_zero, Nat.zero_mul, Nat.zero_add] at same
    omega

theorem Places.value_eq (places : f.Places b m e) : f.value b = m * 2 ^ e := by
  rw [value, places.magnitude_eq]

/-- The next magnitude is one step of the grid further. -/
theorem Places.value_succ (places : f.Places b m e) : f.value (b + 1) = (m + 1) * 2 ^ e := by
  rcases places.succ with next | ⟨full, next⟩
  · rw [next.value_eq, Nat.cast_succ]
  · have double : ((2 ^ (f.precision - 1) : Nat) : ℚ) * 2 = m + 1 := by
      have := congrArg (Nat.cast (R := ℚ)) full
      push_cast at this ⊢
      linarith
    rw [next.value_eq, zpow_add_one₀ two_ne_zero, ← double]
    ring

theorem value_strictMono (f : Format) : StrictMono f.value := by
  refine strictMono_nat_of_lt_succ fun b => ?_
  have places := f.places_magnitude b
  rw [places.value_eq, places.value_succ]
  exact mul_lt_mul_of_pos_right (lt_add_one _) (two_zpow_pos _)

theorem value_nonneg (f : Format) (b : Nat) : 0 ≤ f.value b :=
  mul_nonneg (Nat.cast_nonneg _) (two_zpow_pos _).le

theorem value_zero (f : Format) : f.value 0 = 0 := by
  have places : f.Places 0 0 f.leastExponent :=
    ⟨le_refl _, by positivity, fun above => absurd above (lt_irrefl _), by simp⟩
  rw [places.value_eq, Nat.cast_zero, zero_mul]

/-- Even bits have an even mantissa. -/
theorem Places.even_iff (wide : 1 < f.precision) (places : f.Places b m e) : m % 2 = 0 ↔ b % 2 = 0 := by
  obtain ⟨k, precision⟩ : ∃ k, f.precision - 1 = k + 1 := ⟨f.precision - 2, by omega⟩
  rw [places.bits_eq, precision, Nat.pow_succ, ← Nat.mul_assoc]
  omega

/-! ## The middle between two magnitudes -/

/-- A number is given bits up to `b` if it is below the middle between the magnitudes of `b` and `b + 1`, or in the
middle if `b` is even. -/
theorem bitsAt_le_iff (wide : 1 < f.precision) (positive : 0 < x) :
    f.bitsAt x ≤ b ↔ 2 * x < f.value b + f.value (b + 1) ∨ 2 * x = f.value b + f.value (b + 1) ∧ b % 2 = 0 := by
  have places := f.places_magnitude b
  generalize (f.magnitude b).1 = m at places
  generalize (f.magnitude b).2 = e at places
  have unit : 0 < 2 ^ (f.precision - 1) := Nat.two_pow_pos _
  have double : 2 ^ f.precision = 2 * 2 ^ (f.precision - 1) := by
    rw [← Nat.pow_succ', Nat.succ_eq_add_one, Nat.sub_add_cancel (by omega)]
  have step : (0 : ℚ) < 2 ^ e := two_zpow_pos e
  have middle : f.value b + f.value (b + 1) = (2 * m + 1) * 2 ^ e := by
    rw [places.value_eq, places.value_succ]
    ring
  -- the grid at the number
  have atLeast : f.leastExponent ≤ f.exponentAt x := le_max_right _ _
  have below : x < 2 ^ (f.exponentAt x + f.precision) :=
    (lt_two_zpow_gridExponent f.precision x).trans_le
      (zpow_le_zpow_right₀ (by norm_num) (add_le_add_left (le_max_left _ _) _))
  have above : f.leastExponent < f.exponentAt x → 2 ^ (f.exponentAt x + (f.precision - 1 : Nat)) ≤ x := by
    intro coarse
    have grid : f.exponentAt x = gridExponent f.precision x :=
      max_eq_left (le_of_lt ((lt_max_iff.mp coarse).resolve_right (lt_irrefl _)))
    rw [grid]
    exact two_zpow_gridExponent_le (by omega) positive
  have upper : nearest (x / 2 ^ f.exponentAt x) ≤ 2 ^ f.precision := nearest_le_two_pow positive.le below.le
  rw [middle, bitsAt, places.bits_eq]
  rcases lt_trichotomy (f.exponentAt x) e with finer | same | coarser
  · -- the number is below the first mantissa of the exponent
    have full := places.full (atLeast.trans_lt finer)
    refine iff_of_true ?_ (.inl ?_)
    · obtain ⟨steps, next⟩ : ∃ steps, (e - f.leastExponent).toNat =
          (f.exponentAt x - f.leastExponent).toNat + 1 + steps :=
        ⟨(e - f.leastExponent).toNat - (f.exponentAt x - f.leastExponent).toNat - 1, by omega⟩
      rw [next, Nat.add_mul, Nat.add_mul, Nat.one_mul]
      omega
    · have bound : x < (m : ℚ) * 2 ^ e := by
        calc x < 2 ^ (f.exponentAt x + f.precision) := below
          _ ≤ 2 ^ (e + (f.precision - 1 : Nat)) := zpow_le_zpow_right₀ (by norm_num) (by omega)
          _ = ((2 ^ (f.precision - 1) : Nat) : ℚ) * 2 ^ e := (natCast_two_pow _ _).symm
          _ ≤ m * 2 ^ e := mul_le_mul_of_nonneg_right (by exact_mod_cast full) step.le
      linarith
  · rw [same, Nat.add_le_add_iff_left, nearest_le_iff (div_nonneg positive.le step.le), ← mul_div_assoc,
      div_lt_iff₀ step, div_eq_iff step.ne', places.even_iff wide]
    rw [← places.bits_eq]
  · -- the number is beyond the last mantissa of the exponent
    have lower := above (places.least.trans_lt coarser)
    have full : 2 ^ (f.precision - 1) ≤ nearest (x / 2 ^ f.exponentAt x) := two_pow_le_nearest lower
    have high := places.high
    have least := places.least
    refine iff_of_false ?_ ?_
    · obtain ⟨steps, next⟩ : ∃ steps, (f.exponentAt x - f.leastExponent).toNat =
          (e - f.leastExponent).toNat + 1 + steps :=
        ⟨(f.exponentAt x - f.leastExponent).toNat - (e - f.leastExponent).toNat - 1, by omega⟩
      rw [next, Nat.add_mul, Nat.add_mul, Nat.one_mul]
      omega
    · have most : m + 1 ≤ 2 ^ f.precision := by
        rw [double]
        exact high
      have bound : ((m : ℚ) + 1) * 2 ^ e ≤ x := by
        calc ((m : ℚ) + 1) * 2 ^ e ≤ ((2 ^ f.precision : Nat) : ℚ) * 2 ^ e :=
              mul_le_mul_of_nonneg_right (by exact_mod_cast most) step.le
          _ = 2 ^ (e + f.precision) := natCast_two_pow _ _
          _ ≤ 2 ^ (f.exponentAt x + (f.precision - 1 : Nat)) := zpow_le_zpow_right₀ (by norm_num) (by omega)
          _ ≤ x := lower
      rintro (less | ⟨equal, -⟩) <;> nlinarith

/-! ## The nearest of all magnitudes -/

/-- The magnitude of some bits is nearer to a number than that of any others, or as near and the bits are even. -/
def Nearest (f : Format) (x : ℚ) (bits : Nat) : Prop :=
  ∀ other, other ≠ bits → |x - f.value bits| < |x - f.value other| ∨
    |x - f.value bits| = |x - f.value other| ∧ bits % 2 = 0

theorem nearest_bitsAt (wide : 1 < f.precision) (positive : 0 < x) : f.Nearest x (f.bitsAt x) := by
  intro other distinct
  have mono := f.value_strictMono
  generalize same : f.bitsAt x = b at distinct ⊢
  rcases lt_or_gt_of_ne distinct with less | greater
  · -- the magnitude is on the near side of the middle below it
    obtain ⟨c, rfl⟩ : ∃ c, b = c + 1 := ⟨b - 1, by omega⟩
    have below := mono.monotone (Nat.le_of_lt_succ less)
    have next := mono (Nat.lt_succ_self c)
    have lower := mt (bitsAt_le_iff (b := c) wide positive).mpr (by omega)
    rw [not_or, not_lt, not_and'] at lower
    have side : f.value c + f.value (c + 1) ≤ 2 * x := lower.1
    rw [abs_of_nonneg (by linarith : 0 ≤ x - f.value other)]
    rcases le_total (f.value (c + 1)) x with above | under
    · rw [abs_of_nonneg (by linarith)]
      exact .inl (by linarith)
    · rw [abs_of_nonpos (by linarith)]
      by_cases odd : c % 2 = 0
      · have strict := lt_of_le_of_ne side (Ne.symm (lower.2 odd))
        exact .inl (by linarith)
      · rcases side.lt_or_eq with strict | middle
        · exact .inl (by linarith)
        · rcases below.lt_or_eq with farther | equal
          · exact .inl (by linarith)
          · exact .inr ⟨by linarith, by omega⟩
  · have above := mono.monotone (Nat.succ_le_of_lt greater)
    have upper := (bitsAt_le_iff (b := b) wide positive).mp same.le
    have side : 2 * x ≤ f.value b + f.value (b + 1) := upper.elim le_of_lt fun middle => middle.1.le
    have next := mono (Nat.lt_succ_self b)
    rw [abs_of_nonpos (by linarith : x - f.value other ≤ 0)]
    rcases le_total x (f.value b) with under | beyond
    · rw [abs_of_nonpos (by linarith)]
      exact .inl (by linarith)
    · rw [abs_of_nonneg (by linarith)]
      rcases upper with strict | ⟨middle, even⟩
      · exact .inl (by linarith)
      · rcases above.lt_or_eq with farther | equal
        · exact .inl (by linarith)
        · exact .inr ⟨by linarith, even⟩

theorem Nearest.le {other : Nat} (nearest : f.Nearest x b) (distinct : other ≠ b) :
    |x - f.value b| ≤ |x - f.value other| :=
  (nearest other distinct).elim le_of_lt fun tie => tie.1.le

/-- Of two nearest magnitudes both would have even bits, and one between them would be nearer. -/
theorem Nearest.not_below (nearest : f.Nearest x b) (nearest' : f.Nearest x c) : ¬b < c := by
  intro less
  have mono := f.value_strictMono
  have order := mono less
  have tie : |x - f.value b| = |x - f.value c| := le_antisymm (nearest.le less.ne') (nearest'.le less.ne)
  have even : b % 2 = 0 := (nearest c less.ne').elim (fun nearer => absurd tie nearer.ne) fun both => both.2
  have even' : c % 2 = 0 := (nearest' b less.ne).elim (fun nearer => absurd tie.symm nearer.ne) fun both => both.2
  have first := mono (Nat.lt_succ_self b)
  have second := mono (show b + 1 < c by omega)
  have between : |x - f.value b| ≤ |x - f.value (b + 1)| := nearest.le (Nat.succ_ne_self b)
  have middle : x - f.value b = -(x - f.value c) :=
    (abs_eq_abs.mp tie).resolve_left fun same => order.ne (by linarith)
  have nearer : |x - f.value (b + 1)| < |x - f.value b| := by
    rw [abs_of_nonneg (by linarith : 0 ≤ x - f.value b), abs_lt]
    exact ⟨by linarith, by linarith⟩
  exact absurd between (not_le.mpr nearer)

theorem Nearest.unique (nearest : f.Nearest x b) (nearest' : f.Nearest x c) : b = c :=
  Nat.le_antisymm (Nat.not_lt.mp (nearest'.not_below nearest)) (Nat.not_lt.mp (nearest.not_below nearest'))

/-- The bits at a number are those of the nearest magnitude. -/
theorem nearest_iff (wide : 1 < f.precision) (positive : 0 < x) : f.Nearest x b ↔ f.bitsAt x = b := by
  constructor
  · exact (nearest_bitsAt wide positive).unique
  · rintro rfl
    exact nearest_bitsAt wide positive

/-- Nothing but zero is as near to zero as zero. -/
theorem nearest_zero_iff : f.Nearest 0 b ↔ b = 0 := by
  have zero : f.Nearest 0 0 := by
    intro other distinct
    have positive : f.value 0 < f.value other := f.value_strictMono (Nat.pos_of_ne_zero distinct)
    rw [value_zero] at positive ⊢
    rw [sub_zero, abs_zero, zero_sub, abs_neg, abs_of_pos positive]
    exact .inl positive
  constructor
  · exact fun nearest => nearest.unique zero
  · rintro rfl
    exact zero

theorem exists_nearest (wide : 1 < f.precision) (nonneg : 0 ≤ x) : ∃ bits, f.Nearest x bits := by
  rcases nonneg.lt_or_eq with positive | rfl
  · exact ⟨f.bitsAt x, nearest_bitsAt wide positive⟩
  · exact ⟨0, nearest_zero_iff.mpr rfl⟩

/-- A quotient is given the bits of the nearest magnitude, unless they are those of an infinity or beyond. -/
theorem magnitudeBits?_of_nearest (wide : 1 < f.precision) (finite : 0 < f.infinityBits) {num den : Nat}
    (positive : 0 < den) (nearest : f.Nearest ((num : ℚ) / den) b) :
    f.magnitudeBits? num den = if b < f.infinityBits then some b else none := by
  by_cases zero : num = 0
  · rw [zero, Nat.cast_zero, zero_div, nearest_zero_iff] at nearest
    rw [magnitudeBits?, if_pos zero, nearest, if_pos finite]
  · have quotient : (0 : ℚ) < num / den := by
      have : 0 < num := Nat.pos_of_ne_zero zero
      positivity
    rw [magnitudeBits?_eq f zero positive, (nearest_iff wide quotient).mp nearest]

/-- A decimal numeral is given the bits of the magnitude nearest to it. -/
theorem numeralBits?_of_nearest (wide : 1 < f.precision) (finite : 0 < f.infinityBits) {mantissa : Nat} {e : ℤ}
    (nearest : f.Nearest (mantissa * 10 ^ e) b) (negative : Bool) :
    f.numeralBits? ⟨negative, mantissa, 10, e⟩ =
      if b < f.infinityBits then some (if negative then f.signBits + b else b) else none := by
  have whole : 0 ≤ e → (mantissa : ℚ) * 10 ^ e = ((mantissa * 10 ^ e.natAbs : Nat) : ℚ) / (1 : Nat) := by
    intro nonneg
    rw [Nat.cast_one, div_one, Nat.cast_mul, Nat.cast_pow, Nat.cast_ofNat, ← zpow_natCast,
      Int.natAbs_of_nonneg nonneg]
  have fraction : ¬0 ≤ e → (mantissa : ℚ) * 10 ^ e = (mantissa : ℚ) / (10 ^ e.natAbs : Nat) := by
    intro below
    rw [div_eq_mul_inv, Nat.cast_pow, Nat.cast_ofNat, ← zpow_natCast, ← zpow_neg]
    congr 2
    omega
  rw [numeralBits?]
  dsimp only
  by_cases nonneg : 0 ≤ e
  · rw [whole nonneg] at nearest
    rw [if_pos nonneg, magnitudeBits?_of_nearest wide finite Nat.one_pos nearest]
    exact apply_ite _ _ _ _
  · rw [fraction nonneg] at nearest
    rw [if_neg nonneg, magnitudeBits?_of_nearest wide finite (Nat.pow_pos (by decide)) nearest]
    exact apply_ite _ _ _ _

/-! ## The interval of a magnitude -/

theorem two_zpow_mul_scale (e : ℤ) : (2 : ℚ) ^ e * (2 ^ (-e).toNat : Nat) = (2 ^ e.toNat : Nat) := by
  rw [mul_comm, natCast_two_pow, Nat.cast_pow, Nat.cast_ofNat, ← zpow_natCast]
  congr 1
  omega

theorem interval_eq (places : f.Places b m e) : f.interval b =
    { low := (4 * m - if m = 2 ^ (f.precision - 1) ∧ f.leastExponent < e then 1 else 2) * 2 ^ e.toNat
      value := 4 * m * 2 ^ e.toNat
      high := (4 * m + 2) * 2 ^ e.toNat
      den := 4 * 2 ^ (-e).toNat
      closed := m % 2 == 0 } := by
  rw [interval, places.magnitude_eq]
  simp only [Bool.and_eq_true, beq_iff_eq, decide_eq_true_eq]

theorem interval_den_pos (f : Format) (b : Nat) : 0 < (f.interval b).den := by
  rw [interval_eq (f.places_magnitude b)]
  exact Nat.mul_pos (by decide) (Nat.two_pow_pos _)

theorem interval_value (f : Format) (b : Nat) : f.value b * (f.interval b).den = (f.interval b).value := by
  have places := f.places_magnitude b
  have scale := two_zpow_mul_scale (f.magnitude b).2
  rw [interval_eq places, places.value_eq]
  dsimp only
  rw [Nat.cast_mul, Nat.cast_mul, Nat.cast_mul, ← scale]
  ring

theorem interval_high (f : Format) (b : Nat) :
    (f.value b + f.value (b + 1)) * (f.interval b).den = 2 * (f.interval b).high := by
  have places := f.places_magnitude b
  have scale := two_zpow_mul_scale (f.magnitude b).2
  rw [interval_eq places, places.value_eq, places.value_succ]
  dsimp only
  rw [Nat.cast_mul, Nat.cast_mul, Nat.cast_add, Nat.cast_mul, ← scale]
  push_cast
  ring

/-- The lower end is the middle below the magnitude, also where the grid gets coarser. -/
theorem interval_low (f : Format) (b : Nat) :
    (f.value b + f.value (b + 1)) * (f.interval (b + 1)).den = 2 * (f.interval (b + 1)).low := by
  have places := f.places_magnitude b
  generalize (f.magnitude b).1 = m at places
  generalize (f.magnitude b).2 = e at places
  have unit : 0 < 2 ^ (f.precision - 1) := Nat.two_pow_pos _
  rw [places.value_eq, places.value_succ]
  rcases places.succ with next | ⟨full, next⟩
  · have inside : ¬(m + 1 = 2 ^ (f.precision - 1) ∧ f.leastExponent < e) := by
      rintro ⟨first, above⟩
      have := places.full above
      omega
    have low : 4 * (m + 1) - 2 = 4 * m + 2 := by omega
    rw [interval_eq next, if_neg inside, low]
    dsimp only
    rw [Nat.cast_mul, Nat.cast_mul, Nat.cast_add, Nat.cast_mul, ← two_zpow_mul_scale e]
    push_cast
    ring
  · have least := places.least
    have low : 4 * 2 ^ (f.precision - 1) - 1 = 2 * m + 1 := by omega
    rw [interval_eq next, if_pos ⟨rfl, by omega⟩, low]
    dsimp only
    rw [Nat.cast_mul, Nat.cast_mul, Nat.cast_add, Nat.cast_mul, ← two_zpow_mul_scale (e + 1),
      zpow_add_one₀ two_ne_zero]
    push_cast
    ring

theorem interval_closed (wide : 1 < f.precision) (b : Nat) : (f.interval b).closed = true ↔ b % 2 = 0 := by
  have places := f.places_magnitude b
  rw [interval_eq places]
  dsimp only
  rw [beq_iff_eq, places.even_iff wide]

/-- The interval of a magnitude contains the numbers that are given its bits. -/
theorem contains_iff (wide : 1 < f.precision) (positive : 0 < x) (nonzero : b ≠ 0) :
    (f.interval b).Contains x ↔ f.bitsAt x = b := by
  obtain ⟨c, rfl⟩ : ∃ c, b = c + 1 := ⟨b - 1, by omega⟩
  have den : (0 : ℚ) < (f.interval (c + 1)).den := by exact_mod_cast f.interval_den_pos (c + 1)
  have same : f.bitsAt x = c + 1 ↔ ¬f.bitsAt x ≤ c ∧ f.bitsAt x ≤ c + 1 := by omega
  -- an end of the interval is the middle between two magnitudes
  have ends : ∀ {sum end' : ℚ}, sum * (f.interval (c + 1)).den = 2 * end' →
      (end' < x * (f.interval (c + 1)).den ↔ sum < 2 * x) ∧ (x * (f.interval (c + 1)).den < end' ↔ 2 * x < sum) ∧
        (x * (f.interval (c + 1)).den = end' ↔ 2 * x = sum) := by
    intro sum end' middle
    have scaled : end' = sum / 2 * (f.interval (c + 1)).den := by linarith
    rw [scaled, mul_lt_mul_iff_left₀ den, mul_lt_mul_iff_left₀ den, mul_left_inj' den.ne']
    exact ⟨⟨fun _ => by linarith, fun _ => by linarith⟩, ⟨fun _ => by linarith, fun _ => by linarith⟩,
      ⟨fun _ => by linarith, fun _ => by linarith⟩⟩
  obtain ⟨above, -, atLow⟩ := ends (f.interval_low c)
  obtain ⟨-, below, atHigh⟩ := ends (f.interval_high (c + 1))
  rw [same, bitsAt_le_iff wide positive, bitsAt_le_iff wide positive, Interval.Contains, interval_closed wide,
    above, below, atHigh, eq_comm (b := x * _), atLow, not_or, not_lt, le_iff_lt_or_eq,
    and_comm (a := (c + 1) % 2 = 0) (b := 2 * x = f.value (c + 1) + _)]
  refine and_congr_left fun _ => ?_
  constructor
  · rintro (less | ⟨even, equal⟩)
    · exact ⟨.inl less, fun tie => less.ne' tie.1⟩
    · exact ⟨.inr equal.symm, fun tie => by omega⟩
  · rintro ⟨less | equal, untied⟩
    · exact .inl less
    · have odd : ¬c % 2 = 0 := fun even => untied ⟨equal.symm, even⟩
      exact .inr ⟨by omega, equal.symm⟩

end Format

end DocTable.Number
