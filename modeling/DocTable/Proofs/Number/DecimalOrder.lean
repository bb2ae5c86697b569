import DocTable.Proofs.Attribute.Order
import DocTable.Proofs.Number.MonotoneRounding
import DocTable.Proofs.Number.PlainDecimals
import DocTable.Proofs.Number.WrittenNumbers

/-!
# Plain decimals are read in order

A plain numeral is a plain decimal by its parts, and has an exact value (`PlainNumeral.value`).  Reading it
as an attribute's number rounds that value to 64 bits, correctly as long as the power of five that it needs
is exact, which is up to the 55th (`Extended.powerOfFive_exact`).  Rounding keeps the order, so of two such
numerals the one with the smaller value is never read as the larger number
(`PlainNumeral.rank_le_of_value_le`).

The two signs are treated at once: a minus negates the rank (`Extended.rank_scale_true`), and negating turns
the order of ranks round.

As a double a numeral is read from the same digits (`PlainNumeral.readLiteral?_text`), and the bits of doubles
keep the order of the magnitudes too, whatever the number of places
(`PlainNumeral.bits_le_of_magnitude_le`).
-/

namespace DocTable.Number

set_option autoImplicit false

attribute [local instance] Number.corePower

/-! ## Numerals -/

/-- A decimal by its parts: a sign or none, digits, and perhaps a point with digits behind it. -/
structure PlainNumeral where
  sign : List Char
  digits : List Char
  fraction? : Option (List Char)
  signed : sign ∈ signs
  all : ∀ c ∈ digits, c.isDigit = true
  allBehind : ∀ c ∈ fraction?.getD [], c.isDigit = true
  nonempty : digits ≠ [] ∨ fraction?.getD [] ≠ []

namespace PlainNumeral

/-- The characters of a numeral behind its sign. -/
def body (d : PlainNumeral) : List Char := d.digits ++ Extended.tail d.fraction?

/-- The text of a numeral. -/
def text (d : PlainNumeral) : String := String.ofList (d.sign ++ d.body)

/-- Whether a numeral has a minus. -/
def negative (d : PlainNumeral) : Bool := d.sign = ['-']

/-- The number that the digits of a numeral make without the point. -/
def mantissa (d : PlainNumeral) : Nat := Nat.ofDigitChars 10 (d.digits ++ d.fraction?.getD []) 0

/-- The number of digits behind the point. -/
def places (d : PlainNumeral) : Nat := (d.fraction?.getD []).length

/-- The exact value of a numeral without its sign. -/
def magnitude (d : PlainNumeral) : ℚ := (d.mantissa : ℚ) / (10 ^ d.places : Nat)

/-- The exact value of a numeral. -/
def value (d : PlainNumeral) : ℚ := if d.negative then -d.magnitude else d.magnitude

theorem magnitude_nonneg (d : PlainNumeral) : 0 ≤ d.magnitude :=
  div_nonneg (Nat.cast_nonneg _) (Nat.cast_nonneg _)

theorem read?_text (d : PlainNumeral) :
    Extended.read? d.text = Extended.decimal? d.negative d.mantissa d.places :=
  Extended.read?_tail d.signed d.all d.allBehind d.nonempty

end PlainNumeral

/-- One number is at most another if they have one sign and their magnitudes say so, if only the first has a
minus, or if both are zero. -/
theorem PlainNumeral.cases_of_value_le {d e : PlainNumeral} (le : d.value ≤ e.value) :
    (d.negative = false ∧ e.negative = false ∧ d.magnitude ≤ e.magnitude) ∨
    (d.negative = true ∧ e.negative = true ∧ e.magnitude ≤ d.magnitude) ∨
    (d.negative = true ∧ e.negative = false) ∨ (d.magnitude = 0 ∧ e.magnitude = 0) := by
  have nonneg := d.magnitude_nonneg
  have nonneg' := e.magnitude_nonneg
  rw [value, value] at le
  cases signD : d.negative <;> cases signE : e.negative <;>
    simp only [signD, signE, if_true, Bool.false_eq_true, if_false] at le
  · exact .inl ⟨rfl, rfl, le⟩
  · exact .inr (.inr (.inr ⟨by linarith, by linarith⟩))
  · exact .inr (.inr (.inl ⟨rfl, rfl⟩))
  · exact .inr (.inl ⟨rfl, rfl, neg_le_neg_iff.mp le⟩)

namespace Extended

/-! ## Ranks of magnitudes -/

theorem rank_zero (negative : Bool) : (finite negative 0 0).rank = 0 := rfl

theorem rank_ofParts_true (parts : Nat × Int) : (ofParts true parts).rank = -(ofParts false parts).rank := by
  rw [ofParts, ofParts]
  split
  · rfl
  · split
    · rfl
    · rw [rank, rank]
      split <;> rfl

/-- A minus reflects the rank. -/
theorem rank_scale_true (mantissa : Nat) (exponent fives : Int) :
    (scale true mantissa exponent fives).rank = -(scale false mantissa exponent fives).rank := by
  have rounds : ∀ m e, (round true m e).rank = -(round false m e).rank := by
    intro m e
    rw [round, round]
    split
    · rfl
    · exact rank_ofParts_true _
  rw [scale, scale]
  split
  · exact rounds _ _
  · split
    · split <;> rfl
    · split
      · exact rank_ofParts_true _
      · exact rounds _ _

/-- The rank of the digits of a decimal, with some of them behind the point. -/
def digitsRank (value places : Nat) : ℤ ×ₗ ℤ ×ₗ ℤ :=
  if value = 0 then 0 else (scale false value (-(places : Int)) (-(places : Int))).rank

theorem rank_of_decimal? {negative : Bool} {value places : Nat} {x : Extended}
    (read : decimal? negative value places = some x) :
    x.rank = if negative then -digitsRank value places else digitsRank value places := by
  rw [decimal?] at read
  rw [digitsRank]
  split at read
  · cases read
    rename_i zero
    rw [if_pos zero, neg_zero, ite_self, rank_zero]
  · rename_i nonzero
    dsimp only at read
    split at read
    · cases read
    · cases read
      rw [if_neg nonzero]
      cases negative with
      | false => rfl
      | true => exact rank_scale_true _ _ _

/-! ## Correctly rounded decimals -/

/-- Up to the 55th, a power of five is kept whole. -/
theorem powerOfFive_exact {n : Nat} (small : n ≤ 55) :
    ∃ m e, powerOfFive n = some (m, e) ∧ e ≤ 0 ∧ m = 5 ^ n * 2 ^ (-e).toNat := by
  have checked : ∀ n < 56, (powerOfFive n).any
      (fun parts => decide (parts.2 ≤ 0 ∧ parts.1 = 5 ^ n * 2 ^ (-parts.2).toNat)) = true := by decide +kernel
  obtain ⟨⟨m, e⟩, found, exact⟩ := (Option.any_eq_true _ _).mp (checked n (Nat.lt_succ_of_le small))
  exact ⟨m, e, found, of_decide_eq_true exact⟩

/-- A mantissa of 64 bits and an exponent that stand for a rational number rounded. -/
structure Rounds (parts : Nat × Int) (x : ℚ) : Prop where
  low : 2 ^ (precision - 1) ≤ parts.1
  high : parts.1 < 2 ^ precision
  value : (parts.1 : ℚ) * 2 ^ parts.2 = rounded precision x

theorem rounds_roundBits {n : Nat} (nonzero : n ≠ 0) (e : Int) :
    Rounds (roundBits precision n e) (n * 2 ^ e) := by
  obtain ⟨low, high, _⟩ := roundBits_spec (show 0 < precision by decide) nonzero e
  exact ⟨low, high, roundBits_value (by decide) nonzero e⟩

theorem rounds_roundQuotient {num den : Nat} (nonzero : num ≠ 0) (positive : 0 < den) (e : Int) :
    Rounds (roundQuotient precision num den e) (num / den * 2 ^ e) := by
  obtain ⟨n, nonzeroN, bits, _⟩ := roundQuotient_le nonzero positive.ne' e
  have value := roundQuotient_value (show 0 < precision by decide) nonzero positive e
  rw [bits] at value ⊢
  obtain ⟨low, high, _⟩ := roundBits_spec (show 0 < precision by decide) nonzeroN
    (e - ((precision + 2 + Nat.log2 den : Nat) : Int) - 1)
  exact ⟨low, high, value⟩

/-- With at most 55 places the digits of a decimal are rounded correctly. -/
theorem exists_rounds {value places : Nat} (nonzero : value ≠ 0) (few : places ≤ 55) :
    ∃ parts, scale false value (-(places : Int)) (-(places : Int)) = ofParts false parts ∧
      Rounds parts ((value : ℚ) / (10 ^ places : Nat)) := by
  rw [scale]
  by_cases whole : places = 0
  · subst whole
    refine ⟨roundBits precision value 0, ?_, ?_⟩
    · rw [if_pos (by decide), round, if_neg nonzero]
      rfl
    · simpa using rounds_roundBits nonzero 0
  · obtain ⟨m, e, found, nonpos, power⟩ := powerOfFive_exact few
    have positive : 0 < m := by
      rw [power]
      positivity
    refine ⟨roundQuotient precision value m (-(places : Int) - e), ?_, ?_⟩
    · rw [if_neg (by omega), Int.natAbs_neg, Int.natAbs_natCast, found]
      exact if_pos (by omega)
    · have quotient : (value : ℚ) / m * 2 ^ (-(places : Int) - e) = value / (10 ^ places : Nat) := by
        have ten : ((10 ^ places : Nat) : ℚ) = 5 ^ places * 2 ^ (places : ℤ) := by
          rw [zpow_natCast, ← mul_pow]
          norm_num
        have five : (m : ℚ) = 5 ^ places * 2 ^ (-e) := by
          have two : (2 : ℚ) ^ (-e) = 2 ^ (-e).toNat := by
            rw [← zpow_natCast, Int.toNat_of_nonneg (by omega)]
          rw [power, two]
          push_cast
          rfl
        rw [ten, five, zpow_sub₀ two_ne_zero, zpow_neg, zpow_neg]
        field_simp
      rw [← quotient]
      exact rounds_roundQuotient nonzero positive _

/-- Rounded numbers are ordered by their exponents and then by their mantissas. -/
theorem Rounds.lex {parts parts' : Nat × Int} {x y : ℚ} (rounds : Rounds parts x) (rounds' : Rounds parts' y)
    (positive : 0 < x) (le : x ≤ y) : parts.2 < parts'.2 ∨ parts.2 = parts'.2 ∧ parts.1 ≤ parts'.1 := by
  have order : (parts.1 : ℚ) * 2 ^ parts.2 ≤ parts'.1 * 2 ^ parts'.2 := by
    rw [rounds.value, rounds'.value]
    exact rounded_mono (by decide) positive le
  rcases lt_trichotomy parts.2 parts'.2 with less | same | greater
  · exact .inl less
  · rw [same] at order
    exact .inr ⟨same, by exact_mod_cast le_of_mul_le_mul_right order (two_zpow_pos _)⟩
  · have above : (parts'.1 : ℚ) * 2 ^ parts'.2 < parts.1 * 2 ^ parts.2 := by
      calc (parts'.1 : ℚ) * 2 ^ parts'.2 < ((2 ^ precision : Nat) : ℚ) * 2 ^ parts'.2 :=
            mul_lt_mul_of_pos_right (by exact_mod_cast rounds'.high) (two_zpow_pos _)
        _ = 2 ^ (parts'.2 + precision) := natCast_two_pow _ _
        _ ≤ 2 ^ (parts.2 + (precision - 1 : Nat)) := by
            refine zpow_le_zpow_right₀ (by norm_num) ?_
            have bits : precision = 64 := rfl
            omega
        _ = ((2 ^ (precision - 1) : Nat) : ℚ) * 2 ^ parts.2 := (natCast_two_pow _ _).symm
        _ ≤ parts.1 * 2 ^ parts.2 :=
            mul_le_mul_of_nonneg_right (by exact_mod_cast rounds.low) (two_zpow_pos _).le
    exact absurd order (not_le.mpr above)

theorem rank_ofParts_nonneg (parts : Nat × Int) : 0 ≤ (ofParts false parts).rank := by
  have above : ∀ {a : ℤ} {v : ℤ ×ₗ ℤ}, 0 < a → (0 : ℤ ×ₗ ℤ ×ₗ ℤ) ≤ toLex (a, v) :=
    fun less => (Prod.Lex.toLex_lt_toLex.mpr (.inl less)).le
  rw [ofParts]
  split
  · exact above (by decide)
  · split
    · exact le_refl _
    · rw [rank]
      split
      · exact le_refl _
      · exact above (by decide)

/-- Larger parts make a number of no lower rank: what is beyond the exponents is infinite, and what is below
them is zero. -/
theorem rank_ofParts_mono {parts parts' : Nat × Int} (nonzero : parts'.1 ≠ 0)
    (le : parts.2 < parts'.2 ∨ parts.2 = parts'.2 ∧ parts.1 ≤ parts'.1) :
    (ofParts false parts).rank ≤ (ofParts false parts').rank := by
  have limit : exponentLimit = 2147483647 := rfl
  rcases lt_or_ge (parts.2 + precision) (-exponentLimit - 1) with small | notSmall
  · have zero : ofParts false parts = .finite false 0 0 := by
      rw [ofParts, if_neg (by omega), if_pos small]
    rw [zero, rank_zero]
    exact rank_ofParts_nonneg parts'
  · rcases lt_or_ge exponentLimit (parts'.2 + precision) with large | notLarge
    · have infinite : ofParts false parts' = .infinite false := if_pos large
      have below : ∀ {a : ℤ} {v : ℤ ×ₗ ℤ}, a < 2 → toLex (a, v) ≤ (Extended.infinite false).rank :=
        fun less => (Prod.Lex.toLex_lt_toLex.mpr (.inl less)).le
      rw [infinite, ofParts]
      split
      · exact le_refl _
      · rw [if_neg (by omega), rank.eq_2]
        split
        · exact below (show (0 : ℤ) < 2 by decide)
        · exact below (show (1 : ℤ) < 2 by decide)
    · have finite : ofParts false parts = .finite false parts.1 parts.2 := by
        rw [ofParts, if_neg (by omega), if_neg (by omega)]
      have finite' : ofParts false parts' = .finite false parts'.1 parts'.2 := by
        rw [ofParts, if_neg (by omega), if_neg (by omega)]
      rw [finite, finite', rank, rank, if_neg nonzero]
      split
      · exact (Prod.Lex.toLex_lt_toLex.mpr (.inl (show (0 : ℤ) < 1 by decide))).le
      · refine Prod.Lex.toLex_le_toLex.mpr (.inr ⟨rfl, Prod.Lex.toLex_le_toLex.mpr ?_⟩)
        exact le.imp id fun same => ⟨same.1, Int.ofNat_le.mpr same.2⟩

theorem digitsRank_nonneg {value places : Nat} (few : places ≤ 55) : 0 ≤ digitsRank value places := by
  rw [digitsRank]
  split
  · exact le_refl _
  · rename_i nonzero
    obtain ⟨parts, scaled, _⟩ := exists_rounds nonzero few
    rw [scaled]
    exact rank_ofParts_nonneg parts

/-- Digits that stand for a larger number have no lower rank. -/
theorem digitsRank_mono {value places value' places' : Nat} (few : places ≤ 55) (few' : places' ≤ 55)
    (le : (value : ℚ) / (10 ^ places : Nat) ≤ value' / (10 ^ places' : Nat)) :
    digitsRank value places ≤ digitsRank value' places' := by
  by_cases zero : value = 0
  · rw [digitsRank, if_pos zero]
    exact digitsRank_nonneg few'
  · have positive : (0 : ℚ) < value / (10 ^ places : Nat) := by
      have : 0 < value := Nat.pos_of_ne_zero zero
      positivity
    have nonzero : value' ≠ 0 := by
      rintro rfl
      rw [Nat.cast_zero, zero_div] at le
      exact absurd positive (not_lt.mpr le)
    obtain ⟨parts, scaled, rounds⟩ := exists_rounds zero few
    obtain ⟨parts', scaled', rounds'⟩ := exists_rounds nonzero few'
    have filled : parts'.1 ≠ 0 := (Nat.lt_of_lt_of_le (Nat.two_pow_pos _) rounds'.low).ne'
    rw [digitsRank, digitsRank, if_neg zero, if_neg nonzero, scaled, scaled']
    exact rank_ofParts_mono filled (rounds.lex rounds' positive le)

end Extended

namespace PlainNumeral

variable {d e : PlainNumeral}

theorem mantissa_eq_zero (zero : d.magnitude = 0) : d.mantissa = 0 := by
  rw [magnitude, div_eq_zero_iff] at zero
  have power : ((10 ^ d.places : Nat) : ℚ) ≠ 0 := by positivity
  exact_mod_cast zero.resolve_right power

/-- Of two numerals with at most 55 digits behind the point, the one with the smaller value is not read as the
larger number. -/
theorem rank_le_of_value_le {x y : Extended} (few : d.places ≤ 55) (few' : e.places ≤ 55)
    (read : Extended.read? d.text = some x) (read' : Extended.read? e.text = some y) (le : d.value ≤ e.value) :
    x.rank ≤ y.rank := by
  rw [read?_text] at read read'
  rw [Extended.rank_of_decimal? read, Extended.rank_of_decimal? read']
  rcases cases_of_value_le le with ⟨signD, signE, less⟩ | ⟨signD, signE, less⟩ | ⟨signD, signE⟩ | ⟨zero, zero'⟩
  · rw [signD, signE]
    exact Extended.digitsRank_mono few few' less
  · rw [signD, signE]
    exact neg_le_neg (Extended.digitsRank_mono few' few less)
  · rw [signD, signE]
    exact (neg_nonpos.mpr (Extended.digitsRank_nonneg few)).trans (Extended.digitsRank_nonneg few')
  · rw [mantissa_eq_zero zero, mantissa_eq_zero zero']
    simp [Extended.digitsRank]

end PlainNumeral

/-! ## Doubles -/

/-- The reading of a mantissa after digits. -/
def Mantissa.advance (m : Mantissa) (cs : List Char) : Mantissa :=
  { m with
    value := Nat.ofDigitChars 10 cs m.value
    places := if m.point then m.places + cs.length else m.places
    digits := m.digits || !cs.isEmpty }

theorem readMantissa_append {cs : List Char} (digits : ∀ c ∈ cs, c.isDigit = true) (m : Mantissa)
    (rest : List Char) : readMantissa 10 m (cs ++ rest) = readMantissa 10 (m.advance cs) rest := by
  induction cs generalizing m with
  | nil => simp [Mantissa.advance]
  | cons c others ih =>
    have digit := digits c List.mem_cons_self
    have noSeparator : c ≠ '_' := by
      rintro rfl
      cases digit
    have noPoint : c ≠ '.' := by
      rintro rfl
      cases digit
    rw [List.cons_append, readMantissa, if_neg noSeparator, if_neg noPoint, digitOf?_of_isDigit digit]
    dsimp only
    rw [ih fun d member => digits d (List.mem_cons_of_mem _ member)]
    congr 1
    simp only [Mantissa.advance, Nat.ofDigitChars_cons, List.length_cons, List.isEmpty_cons, Nat.mul_comm 10,
      Bool.true_or, Bool.not_false, Bool.or_true, Mantissa.mk.injEq, and_true]
    refine ⟨rfl, ?_⟩
    split <;> omega

/-- The exponent that is read behind the digits of a numeral; without a mark it is zero. -/
def readTail? : List Char → Option Int
  | [] => some 0
  | mark :: rest =>
    if lowerLetter mark = 'e' then
      match readExponent? rest with
      | some (e, []) => some e
      | _ => none
    else none

namespace PlainNumeral

variable (d : PlainNumeral)

theorem isDigit_or_point_of_mem_body : ∀ c ∈ d.body, c.isDigit = true ∨ c = '.' :=
  Extended.isDigit_or_point_of_mem_tail d.all d.allBehind

/-- The digits of a numeral are read up to what is no digit. -/
theorem readMantissa_body {rest : List Char} (stops : ∀ m, readMantissa 10 m rest = (m, rest)) :
    ∃ point, readMantissa 10 ⟨0, 0, false, false⟩ (d.body ++ rest) = (⟨d.mantissa, d.places, true, point⟩, rest) := by
  have some : (!d.digits.isEmpty || !(d.fraction?.getD []).isEmpty) = true := by
    simpa [Bool.or_eq_true, List.isEmpty_iff] using d.nonempty
  rw [body, List.append_assoc, readMantissa_append d.all, mantissa, places]
  cases parts : d.fraction? with
  | none =>
    rw [parts] at some
    refine ⟨false, ?_⟩
    rw [Extended.tail, List.nil_append, stops]
    simpa [Mantissa.advance] using some
  | some fraction =>
    have behind : ∀ c ∈ fraction, c.isDigit = true := by
      have all := d.allBehind
      rwa [parts, Option.getD_some] at all
    rw [parts] at some
    refine ⟨true, ?_⟩
    rw [Extended.tail, List.cons_append, readMantissa, if_neg (by decide), if_pos rfl]
    dsimp only [Mantissa.advance]
    rw [if_neg Bool.false_ne_true, readMantissa_append behind, stops]
    simpa [Mantissa.advance, Nat.ofDigitChars_append] using some

theorem lowerLetter_of_mem_body : ∀ c ∈ d.body, lowerLetter c = c := by
  intro c member
  rcases d.isDigit_or_point_of_mem_body c member with digit | rfl
  · exact lowerLetter_of_isDigit digit
  · rfl

/-- A numeral has neither letters nor separators. -/
theorem isPlain_of_mem_text : ∀ c ∈ d.sign ++ d.body, c ∈ ['-', '+', '.'] ∨ c.isDigit = true := by
  intro c member
  rcases List.mem_append.mp member with inSign | inBody
  · rcases Encode.mem_sign d.signed inSign with rfl | rfl
    · exact .inl (by decide)
    · exact .inl (by decide)
  · rcases d.isDigit_or_point_of_mem_body c inBody with digit | rfl
    · exact .inr digit
    · simp

theorem body_ne_nil : d.body ≠ [] := by
  rw [body]
  cases parts : d.fraction? with
  | none =>
    have filled := d.nonempty
    rw [parts] at filled
    exact List.append_ne_nil_of_left_ne_nil (filled.resolve_right fun some => some rfl) _
  | some fraction => exact List.append_ne_nil_of_right_ne_nil _ (List.cons_ne_nil _ _)

theorem takeSign_append (rest : List Char) : takeSign (d.sign ++ (d.body ++ rest)) = (d.negative, d.body ++ rest) := by
  refine Extended.takeSign_append_of_head d.signed fun c head => ?_
  rw [List.head?_append_of_ne_nil _ d.body_ne_nil] at head
  exact Extended.ne_sign_of_isDigit_or_point (d.isDigit_or_point_of_mem_body c (List.mem_of_mem_head? head))

/-- Digits with a point are read up to what follows them, which may be an exponent. -/
theorem readNumeral?_append {rest : List Char} (plain : ∀ c ∈ rest, c ≠ '_' ∧ lowerLetter c ≠ 'x')
    (stops : ∀ m, readMantissa 10 m rest = (m, rest)) : readNumeral? (d.sign ++ (d.body ++ rest)) =
      (readTail? rest).map fun e => ⟨d.negative, d.mantissa, 10, e - d.places⟩ := by
  have unmarked : ∀ x c others, d.body ++ rest = '0' :: x :: c :: others → lowerLetter x ≠ 'x' := by
    intro x c others same
    have member : x ∈ d.body ++ rest := by simp [same]
    rcases List.mem_append.mp member with inBody | inRest
    · rw [d.lowerLetter_of_mem_body x inBody]
      rcases d.isDigit_or_point_of_mem_body x inBody with digit | rfl
      · rintro rfl
        cases digit
      · decide
    · exact (plain x inRest).2
  have unseparated : (d.sign ++ (d.body ++ rest)).contains '_' = false := by
    rw [← Bool.not_eq_true, List.contains_iff_mem, ← List.append_assoc]
    intro member
    rcases List.mem_append.mp member with inText | inRest
    · exact (d.isPlain_of_mem_text _ inText).elim (by decide) (by decide)
    · exact (plain '_' inRest).1 rfl
  obtain ⟨point, read⟩ := d.readMantissa_body stops
  rw [readNumeral?, d.takeSign_append]
  simp only [unseparated, Bool.not_false, Bool.true_or, Bool.not_true, Bool.or_false]
  split
  case' h_1 x c others same => rw [if_neg (unmarked x c others same)]
  all_goals
    dsimp only
    rw [read]
    cases rest with
    | nil => simp [readTail?]
    | cons mark others =>
      simp only [readTail?, Bool.not_true, Bool.false_eq_true, if_false]
      split
      · rcases readExponent? others with _ | ⟨e, _ | ⟨c, more⟩⟩ <;> rfl
      · rfl

theorem readNumeral?_text : readNumeral? (d.sign ++ d.body) =
    some ⟨d.negative, d.mantissa, 10, -(d.places : Int)⟩ := by
  have read := d.readNumeral?_append (List.forall_mem_nil _) fun m => rfl
  rw [List.append_nil] at read
  rw [read, readTail?, Option.map_some, zero_sub]

/-- A numeral is a decimal, also with an exponent behind it. -/
theorem isDecimal_append {rest : List Char} (exponent : DocTable.Encode.isExponent rest = true) :
    DocTable.Encode.isDecimal (String.ofList (d.sign ++ (d.body ++ rest))) = true := by
  have mark := Encode.mark_of_isExponent exponent
  have stops : ∀ c ∈ rest.head?, c.isDigit = false := by
    intro c head
    rcases mark c head with rfl | rfl <;> rfl
  have filled := d.nonempty
  have behind := d.allBehind
  rw [DocTable.Encode.isDecimal, String.toList_ofList, d.takeSign_append]
  dsimp only
  rw [body, List.append_assoc]
  cases parts : d.fraction? with
  | none =>
    rw [parts] at filled
    rw [Extended.tail, List.nil_append, Encode.takeDigits_digits d.all stops]
    dsimp only
    split
    · exact absurd (mark '.' rfl) (by decide)
    · simpa [exponent] using filled
  | some fraction =>
    rw [parts, Option.getD_some] at filled behind
    rw [Extended.tail, List.cons_append, Encode.takeDigits_digits d.all (by rintro c head; cases head; rfl)]
    change ((!d.digits.isEmpty || (DocTable.Encode.takeDigits (fraction ++ rest)).1) &&
      DocTable.Encode.isExponent (DocTable.Encode.takeDigits (fraction ++ rest)).2) = true
    rw [Encode.takeDigits_digits behind stops]
    simpa [exponent] using filled

/-- A numeral is read as the exact number that its digits make. -/
theorem readLiteral?_text : readLiteral? d.text =
    some (.finite ⟨d.negative, d.mantissa, 10, -(d.places : Int)⟩) := by
  have decimal := d.isDecimal_append (show DocTable.Encode.isExponent [] = true from rfl)
  rw [List.append_nil] at decimal
  rw [text, Encode.readLiteral?_of_isDecimal decimal, String.toList_ofList, d.readNumeral?_text, Option.map_some]

end PlainNumeral

namespace Format

theorem numeralBits?_eq (f : Format) (negative : Bool) (mantissa places : Nat) :
    f.numeralBits? ⟨negative, mantissa, 10, -(places : Int)⟩ =
      (f.magnitudeBits? mantissa (10 ^ places)).map fun bits =>
        if negative then f.signBits + bits else bits := by
  rw [numeralBits?]
  dsimp only
  rw [Int.natAbs_neg, Int.natAbs_natCast]
  by_cases whole : places = 0
  · subst whole
    rw [if_pos (by decide), Nat.pow_zero, Nat.mul_one]
  · rw [if_neg (by omega)]

end Format

namespace PlainNumeral

variable {d e : PlainNumeral}

/-- A numeral that is read as a double has the bits of its magnitude. -/
theorem exists_bits_of_read {x : Binary64} (read : Binary64.read d.text = .ok x) :
    ∃ bits, Format.double.magnitudeBits? d.mantissa (10 ^ d.places) = some bits ∧
      x = .ofMagnitude d.negative bits := by
  rw [Binary64.read, Format.read, d.readLiteral?_text] at read
  dsimp only at read
  rw [Format.numeralBits?_eq] at read
  cases found : Format.double.magnitudeBits? d.mantissa (10 ^ d.places) with
  | none =>
    rw [found] at read
    cases read
  | some bits =>
    rw [found] at read
    cases read
    exact ⟨bits, rfl, rfl⟩

/-- The bits of a larger magnitude are larger. -/
theorem bits_le_of_magnitude_le {bits bits' : Nat}
    (found : Format.double.magnitudeBits? d.mantissa (10 ^ d.places) = some bits)
    (found' : Format.double.magnitudeBits? e.mantissa (10 ^ e.places) = some bits')
    (le : d.magnitude ≤ e.magnitude) : bits ≤ bits' :=
  Format.double.magnitudeBits?_mono (by decide) (Nat.pow_pos (by decide)) (Nat.pow_pos (by decide)) le
    found found'

end PlainNumeral

end DocTable.Number
