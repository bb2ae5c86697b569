import DocTable.Proofs.Number.ExponentNumerals
import DocTable.Number.Integer

/-!
# Decimal integers

A decimal integer is a sign or none and digits without superfluous zeros in front; it stands for an exact
integer (`IntegerNumeral.value`).  The text of an integer is one (`IntegerNumeral.ofInt`).

Such a text is read in base ten, since no mark of a base can stand in it.  It is read as the integer of
64 bits that it stands for exactly if it stands for one (`IntegerNumeral.readSignedAnyBase_text`), and
without a sign as an unsigned one (`IntegerNumeral.readUnsignedAnyBase_text`).  With at most 308 digits it
is also in the range of doubles (`IntegerNumeral.exists_read_text`).
-/

namespace DocTable.Number

set_option autoImplicit false

attribute [local instance] Number.corePower

/-- A decimal integer by its parts: a sign or none, and digits, of which the first is zero only if it is
the only one. -/
structure IntegerNumeral where
  sign : List Char
  digits : List Char
  signed : sign ∈ signs
  all : ∀ c ∈ digits, c.isDigit = true
  leading : digits = ['0'] ∨ ∃ c rest, digits = c :: rest ∧ c ≠ '0'

namespace IntegerNumeral

/-- The text of an integer. -/
def text (p : IntegerNumeral) : String := String.ofList (p.sign ++ p.digits)

/-- The integer without its sign. -/
def magnitude (p : IntegerNumeral) : Nat := Nat.ofDigitChars 10 p.digits 0

/-- The integer that a text stands for. -/
def value (p : IntegerNumeral) : Int := if p.sign = ['-'] then -(p.magnitude : Int) else p.magnitude

/-- The integer of a number, with a minus if it is negative. -/
def ofInt (n : Int) : IntegerNumeral where
  sign := if n < 0 then ['-'] else []
  digits := Nat.toDigits 10 n.natAbs
  signed := by split <;> decide
  all := isDigit_toDigits n.natAbs
  leading := by
    rcases Nat.eq_zero_or_pos n.natAbs with zero | positive
    · exact .inl (by rw [zero, Nat.toDigits_zero])
    · exact .inr (head_toDigits positive)

theorem text_ofInt (n : Int) : (ofInt n).text = toString n :=
  String.toList_inj.mp (by rw [text, String.toList_ofList, toList_toString]; rfl)

theorem value_ofInt (n : Int) : (ofInt n).value = n := by
  have digits : (ofInt n).magnitude = n.natAbs := Nat.ofDigitChars_ten_toDigits
  have sign : (ofInt n).sign = ['-'] ↔ n < 0 := by
    show (if n < 0 then ['-'] else []) = ['-'] ↔ n < 0
    split <;> simp [*]
  rw [value, digits, ite_cond_congr (propext sign)]
  split <;> omega

variable (p : IntegerNumeral)

theorem toList_text : p.text.toList = p.sign ++ p.digits := String.toList_ofList

theorem digits_ne_nil : p.digits ≠ [] := by
  rcases p.leading with zero | ⟨c, rest, same, -⟩
  · rw [zero]
    exact List.cons_ne_nil _ _
  · rw [same]
    exact List.cons_ne_nil _ _

theorem takeSign_text : takeSign p.text.toList = (decide (p.sign = ['-']), p.digits) := by
  rw [toList_text]
  exact Extended.takeSign_append p.signed fun c member => .inl (p.all c member)

/-- The characters of an integer are digits behind one sign. -/
theorem isDigit_or_sign : ∀ c ∈ p.text.toList, c.isDigit = true ∨ c = '-' ∨ c = '+' := by
  intro c member
  rw [toList_text] at member
  rcases List.mem_append.mp member with inSign | inDigits
  · exact .inr (Encode.mem_sign p.signed inSign)
  · exact .inl (p.all c inDigits)

theorem noSeparator_mem_text : '_' ∉ p.text.toList := fun member =>
  (p.isDigit_or_sign '_' member).elim (by decide) (by decide)

/-! ## Reading in a free base -/

/-- The base is ten, except for a single zero. -/
theorem readDigits_chosenBase (limit : Nat) :
    readDigits (chosenBase p.digits).1 limit true 0 (chosenBase p.digits).2 =
      if p.magnitude ≤ limit then .ok p.magnitude else .error .outOfRange := by
  rcases p.leading with zero | ⟨c, rest, same, nonzero⟩
  · rw [magnitude, zero]
    rfl
  · have ten : chosenBase p.digits = (10, p.digits) := by
      rw [same]
      unfold chosenBase
      split
      · rename_i chars
        exact absurd (List.cons_eq_cons.mp chars).1 nonzero
      · rename_i chars
        exact absurd (List.cons_eq_cons.mp chars).1 nonzero
      · rfl
    rw [ten]
    exact readDigits_digits p.all true (Nat.zero_le limit)

theorem readUnsignedAnyBase_digits (width : Nat) : readUnsignedAnyBase width p.digits =
    if p.magnitude ≤ 2 ^ width - 1 then .ok p.magnitude else .error .outOfRange := by
  have filled : p.digits.isEmpty = false := List.isEmpty_eq_false_iff.mpr p.digits_ne_nil
  have unseparated : p.digits.contains '_' = false := by
    rw [List.contains_eq_mem, decide_eq_false_iff_not]
    exact fun member => absurd (p.all '_' member) (by decide)
  have read := p.readDigits_chosenBase (2 ^ width - 1)
  rw [readUnsignedAnyBase, filled, if_neg Bool.false_ne_true]
  simp only [read]
  by_cases within : p.magnitude ≤ 2 ^ width - 1
  · simp only [if_pos within, unseparated, Bool.false_and, Bool.false_eq_true, if_false]
  · simp only [if_neg within]

/-- **An integer is read as one of 64 bits exactly if it fits.** -/
theorem readSignedAnyBase_text : readSignedAnyBase 64 p.text =
    if -9223372036854775808 ≤ p.value ∧ p.value < 9223372036854775808 then .ok p.value
    else .error .outOfRange := by
  have limit : 2 ^ 64 - 1 = 18446744073709551615 := rfl
  have bound : 2 ^ (64 - 1) = 9223372036854775808 := rfl
  rw [readSignedAnyBase, p.takeSign_text, value]
  simp only [p.readUnsignedAnyBase_digits, limit]
  by_cases within : p.magnitude ≤ 18446744073709551615
  · rw [if_pos within, signedOf]
    simp only [bound, decide_eq_true_eq]
    by_cases negative : p.sign = ['-']
    · simp only [if_pos negative]
      split <;> rename_i small
      · rw [if_neg (by omega)]
      · rw [if_pos (by omega)]
    · simp only [if_neg negative]
      split <;> rename_i small
      · rw [if_neg (by omega)]
      · rw [if_pos (by omega)]
  · rw [if_neg within, signedOf, if_neg]
    split <;> omega

/-- A sign keeps an integer from being read as an unsigned one. -/
theorem readUnsignedAnyBase_text : (readUnsignedAnyBase 64 p.text.toList).toOption =
    if p.sign = [] ∧ p.value < 18446744073709551616 then some p.magnitude else none := by
  have limit : 2 ^ 64 - 1 = 18446744073709551615 := rfl
  rw [toList_text, value]
  have signed := p.signed
  simp only [signs, List.mem_cons, List.not_mem_nil, or_false] at signed
  rcases signed with none | minus | plus
  · rw [none, List.nil_append, p.readUnsignedAnyBase_digits, limit]
    by_cases within : p.magnitude ≤ 18446744073709551615
    · rw [if_pos within, if_pos ⟨rfl, by rw [if_neg (by decide)]; omega⟩]
      rfl
    · have large : ¬(p.magnitude : Int) < 18446744073709551616 := by omega
      rw [if_neg within, if_neg fun both => large (by simpa using both.2)]
      rfl
  · rw [minus, if_neg (by simp)]
    rfl
  · rw [plus, if_neg (by simp)]
    rfl

end IntegerNumeral

/-! ## The range of doubles -/

namespace Format

/-- The nearest magnitude is no larger than one that is large enough. -/
theorem Nearest.le_of_le_value {f : Format} {x : ℚ} {b M : Nat} (nearest : f.Nearest x b)
    (le : x ≤ f.value M) : b ≤ M := by
  by_contra above
  have larger := f.value_strictMono (Nat.not_le.mp above)
  have nearer := nearest.le (Nat.ne_of_lt (Nat.not_le.mp above))
  rw [abs_of_nonpos (by linarith), abs_of_nonpos (by linarith)] at nearer
  linarith

/-- The largest finite double. -/
theorem value_largest : double.value (double.infinityBits - 1) = ((2 ^ 53 - 1) * 2 ^ 971 : Nat) := by
  have parts : double.magnitude (double.infinityBits - 1) = (2 ^ 53 - 1, 971) := by decide +kernel
  rw [value, parts]
  show ((2 ^ 53 - 1 : Nat) : ℚ) * 2 ^ ((971 : Nat) : ℤ) = ((2 ^ 53 - 1) * 2 ^ 971 : Nat)
  rw [zpow_natCast, Nat.cast_mul, Nat.cast_pow, Nat.cast_ofNat]

end Format

namespace IntegerNumeral

variable (p : IntegerNumeral)

/-- An integer as a numeral. -/
def decimal : DecimalNumeral :=
  ⟨⟨p.sign, p.digits, none, p.signed, p.all, List.forall_mem_nil _, .inl p.digits_ne_nil⟩, none⟩

theorem text_decimal : p.decimal.text = p.text := by
  rw [DecimalNumeral.text, text, PlainNumeral.body]
  simp [decimal, Extended.tail, Exponent.tail]

theorem readMagnitude_decimal : p.decimal.readMagnitude = p.magnitude := by
  simp [DecimalNumeral.readMagnitude, DecimalNumeral.readExponent, decimal, PlainNumeral.magnitude,
    PlainNumeral.mantissa, PlainNumeral.places, magnitude]

/-- **An integer of at most 308 digits is read as a finite double.** -/
theorem exists_read_text (short : p.digits.length ≤ 308) : ∃ x, Binary64.read p.text = .ok x := by
  obtain ⟨bits, nearest⟩ := Format.double.exists_nearest (by decide) p.decimal.readMagnitude_nonneg
  have finite : bits < Format.double.infinityBits := by
    refine Nat.lt_of_le_of_lt (nearest.le_of_le_value (M := Format.double.infinityBits - 1) ?_) (by decide)
    have powers : ∀ n ≤ 308, 10 ^ n ≤ (2 ^ 53 - 1) * 2 ^ 971 := by decide +kernel
    have digits : p.magnitude ≤ (2 ^ 53 - 1) * 2 ^ 971 :=
      calc p.magnitude ≤ (0 + 1) * 10 ^ p.digits.length := Nat.le_of_lt (ofDigitChars_lt p.all 0)
        _ = 10 ^ p.digits.length := by rw [Nat.zero_add, Nat.one_mul]
        _ ≤ (2 ^ 53 - 1) * 2 ^ 971 := powers _ short
    rw [readMagnitude_decimal, Format.value_largest]
    exact_mod_cast digits
  exact ⟨_, by rw [← p.text_decimal, p.decimal.read_text nearest, if_pos finite]⟩

end IntegerNumeral

end DocTable.Number
