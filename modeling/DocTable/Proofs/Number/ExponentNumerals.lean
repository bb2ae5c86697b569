import DocTable.Proofs.Number.DecimalOrder
import DocTable.Proofs.Number.NearestMagnitudes
import DocTable.Proofs.Number.WrittenNumbers

/-!
# Numerals with exponents

A decimal numeral is a plain one, perhaps with an exponent behind it; these are all the texts that are accepted as
decimals (`Encode.isDecimal_iff`).

As a double it is read from the digits of the plain numeral and the exponent.  Only the first digits of a long exponent
count, so it is read as the exponent that it is exactly if it has an absolute value below a hundred thousand
(`Exponent.readValue_eq_iff`).  The bits are those of the nearest magnitude (`DecimalNumeral.read_text`).
-/

namespace DocTable.Number

set_option autoImplicit false

attribute [local instance] Number.corePower

/-! ## Exponents -/

/-- An exponent by its parts: a mark, a sign or none, and digits. -/
structure Exponent where
  mark : Char
  sign : List Char
  digits : List Char
  marked : mark = 'e' ∨ mark = 'E'
  signed : sign ∈ signs
  nonempty : digits ≠ []
  all : ∀ c ∈ digits, c.isDigit = true

/-- The digits of an exponent are read as their number, unless that has more than five digits. -/
theorem readExponentDigits_digits {cs : List Char} (digits : ∀ c ∈ cs, c.isDigit = true) {e : Nat} (short : e < 100000) :
    ∃ n < 100000, readExponentDigits e cs = (n, []) ∧
      (Nat.ofDigitChars 10 cs e < 100000 → n = Nat.ofDigitChars 10 cs e) := by
  induction cs generalizing e with
  | nil => exact ⟨e, short, rfl, fun _ => rfl⟩
  | cons c rest ih =>
    obtain ⟨digit, others⟩ := List.forall_mem_cons.mp digits
    have noSeparator : c ≠ '_' := by
      rintro rfl
      cases digit
    have bounds := toNat_of_isDigit digit
    have zero : '0'.toNat = 48 := rfl
    rw [readExponentDigits, if_neg noSeparator, isDigit_eq, if_pos digit, Nat.ofDigitChars_cons]
    by_cases few : e < 10000
    · obtain ⟨n, small, read, value⟩ := ih others (show e * 10 + (c.toNat - 48) < 100000 by omega)
      rw [if_pos few]
      rw [Nat.mul_comm e] at read value
      exact ⟨n, small, by rwa [Nat.mul_comm e], value⟩
    · obtain ⟨n, small, read, -⟩ := ih others short
      rw [if_neg few]
      refine ⟨n, small, read, fun less => ?_⟩
      have grown := le_ofDigitChars rest (10 * e + (c.toNat - '0'.toNat))
      omega

namespace Exponent

variable (x : Exponent)

/-- The characters of an exponent. -/
def chars : List Char := x.mark :: (x.sign ++ x.digits)

/-- The integer that an exponent stands for. -/
def value : ℤ :=
  if x.sign = ['-'] then -(Nat.ofDigitChars 10 x.digits 0 : ℤ) else Nat.ofDigitChars 10 x.digits 0

/-- The integer that an exponent is read as. -/
def readValue : ℤ :=
  if x.sign = ['-'] then -((readExponentDigits 0 x.digits).1 : ℤ) else (readExponentDigits 0 x.digits).1

/-- An exponent is read as it stands exactly if it has at most five digits, leading zeros apart. -/
theorem readValue_eq_iff : x.readValue = x.value ↔ |x.value| < 100000 := by
  obtain ⟨n, small, read, value⟩ := readExponentDigits_digits x.all (show 0 < 100000 by decide)
  rw [readValue, Exponent.value, read]
  dsimp only
  split <;> rw [abs_lt] <;> constructor <;> intro given
  · omega
  · have := value (by omega)
    omega
  · omega
  · have := value (by omega)
    omega

theorem takeSign_append : takeSign (x.sign ++ x.digits) = (decide (x.sign = ['-']), x.digits) :=
  Extended.takeSign_append x.signed fun c member => .inl (x.all c member)

theorem lowerLetter_mark : lowerLetter x.mark = 'e' := by
  rcases x.marked with same | same <;> rw [same] <;> decide

theorem readTail?_chars : readTail? x.chars = some x.readValue := by
  obtain ⟨n, -, read, -⟩ := readExponentDigits_digits x.all (show 0 < 100000 by decide)
  obtain ⟨c, rest, filled⟩ := List.exists_cons_of_ne_nil x.nonempty
  have digit : c.isDigit = true := x.all c (filled ▸ List.mem_cons_self)
  rw [chars, readTail?, if_pos x.lowerLetter_mark, readExponent?, x.takeSign_append, readValue, read]
  rw [filled] at read ⊢
  simp only [isDigit_eq, digit, if_true, read, decide_eq_true_eq]

/-- No digit, point or separator is read where an exponent begins. -/
theorem readMantissa_chars (m : Mantissa) : readMantissa 10 m x.chars = (m, x.chars) := by
  rw [chars, readMantissa]
  rcases x.marked with same | same <;> rw [same] <;> rfl

theorem plain_of_mem_chars : ∀ c ∈ x.chars, c ≠ '_' ∧ lowerLetter c ≠ 'x' := by
  intro c member
  rcases List.mem_cons.mp member with rfl | behind
  · rcases x.marked with same | same <;> rw [same] <;> decide
  · rcases List.mem_append.mp behind with inSign | inDigits
    · rcases Encode.mem_sign x.signed inSign with rfl | rfl <;> decide
    · have digit := x.all c inDigits
      rw [lowerLetter_of_isDigit digit]
      refine ⟨?_, ?_⟩ <;> rintro rfl <;> cases digit

/-- The characters of an exponent, if there is one. -/
def tail (exponent? : Option Exponent) : List Char :=
  match exponent? with
  | none => []
  | some x => x.chars

end Exponent

theorem Encode.isExponent_iff {rest : List Char} :
    DocTable.Encode.isExponent rest = true ↔ ∃ exponent?, Exponent.tail exponent? = rest := by
  constructor
  · intro exponent
    cases rest with
    | nil => exact ⟨none, rfl⟩
    | cons mark others =>
      simp only [DocTable.Encode.isExponent, Bool.and_eq_true, Bool.or_eq_true, beq_iff_eq, List.all_eq_true,
        Bool.not_eq_true', List.isEmpty_eq_false_iff] at exponent
      obtain ⟨marked, nonempty, digits⟩ := exponent
      obtain ⟨sign, signed, whole⟩ := takeSign_append others
      refine ⟨some ⟨mark, sign, (takeSign others).2, marked, signed, nonempty, digits⟩, ?_⟩
      rw [Exponent.tail, Exponent.chars, ← whole]
  · rintro ⟨exponent?, rfl⟩
    cases exponent? with
    | none => rfl
    | some x =>
      simp only [Exponent.tail, Exponent.chars, DocTable.Encode.isExponent, x.takeSign_append, Bool.and_eq_true,
        Bool.or_eq_true, beq_iff_eq, List.all_eq_true, Bool.not_eq_true', List.isEmpty_eq_false_iff]
      exact ⟨x.marked, x.nonempty, x.all⟩

/-! ## Decimals -/

/-- A plain numeral, perhaps with an exponent behind it. -/
structure DecimalNumeral where
  plain : PlainNumeral
  exponent? : Option Exponent

namespace DecimalNumeral

variable (d : DecimalNumeral)

/-- The text of a numeral. -/
def text : String := String.ofList (d.plain.sign ++ (d.plain.body ++ Exponent.tail d.exponent?))

/-- The integer that the exponent stands for, zero if there is none. -/
def exponent : ℤ := (d.exponent?.map Exponent.value).getD 0

/-- The integer that the exponent is read as. -/
def readExponent : ℤ := (d.exponent?.map Exponent.readValue).getD 0

/-- The exact value of a numeral without its sign. -/
def magnitude : ℚ := d.plain.magnitude * 10 ^ d.exponent

/-- The exact value of a numeral. -/
def value : ℚ := if d.plain.negative then -d.magnitude else d.magnitude

/-- The value without sign that a numeral is read as. -/
def readMagnitude : ℚ := d.plain.magnitude * 10 ^ d.readExponent

theorem readExponent_eq_iff : d.readExponent = d.exponent ↔ |d.exponent| < 100000 := by
  rw [readExponent, exponent]
  cases d.exponent? with
  | none => exact iff_of_true rfl (by decide)
  | some x => exact x.readValue_eq_iff

theorem readMagnitude_nonneg : 0 ≤ d.readMagnitude :=
  mul_nonneg d.plain.magnitude_nonneg (zpow_pos (by norm_num) _).le

end DecimalNumeral

namespace Encode

open DocTable.Encode

/-- The texts of numerals are the decimals. -/
theorem isDecimal_iff {text : String} : isDecimal text = true ↔ ∃ d : DecimalNumeral, d.text = text := by
  constructor
  · intro decimal
    obtain ⟨sign, digits, fraction?, rest, signed, rfl, all, allBehind, nonempty, exponent⟩ := isDecimal_parts decimal
    obtain ⟨exponent?, rfl⟩ := isExponent_iff.mp exponent
    exact ⟨⟨⟨sign, digits, fraction?, signed, all, allBehind, nonempty⟩, exponent?⟩, rfl⟩
  · rintro ⟨⟨p, exponent?⟩, rfl⟩
    exact p.isDecimal_append (isExponent_iff.mpr ⟨exponent?, rfl⟩)

end Encode

namespace DecimalNumeral

variable (d : DecimalNumeral)

theorem hasExponent_text : DocTable.Encode.hasExponent d.text = d.exponent?.isSome := by
  rw [DocTable.Encode.hasExponent, text, String.toList_ofList, ← List.append_assoc, List.any_append]
  have none : (d.plain.sign ++ d.plain.body).any (fun c => c == 'e' || c == 'E') = false := by
    rw [List.any_eq_false]
    intro c member
    rcases d.plain.isPlain_of_mem_text c member with sign | digit
    · simp only [List.mem_cons, List.not_mem_nil, or_false] at sign
      rcases sign with rfl | rfl | rfl <;> decide
    · simp only [Bool.or_eq_true, beq_iff_eq, not_or]
      refine ⟨?_, ?_⟩ <;> rintro rfl <;> cases digit
  rw [none, Bool.false_or]
  cases d.exponent? with
  | none => rfl
  | some x =>
    refine List.any_eq_true.mpr ⟨x.mark, List.mem_cons_self, ?_⟩
    simpa using x.marked

theorem readNumeral?_text : readNumeral? d.text.toList =
    some ⟨d.plain.negative, d.plain.mantissa, 10, d.readExponent - d.plain.places⟩ := by
  rw [text, String.toList_ofList, readExponent]
  cases d.exponent? with
  | none => exact d.plain.readNumeral?_append (List.forall_mem_nil _) fun m => rfl
  | some x =>
    rw [Exponent.tail, d.plain.readNumeral?_append x.plain_of_mem_chars x.readMantissa_chars, x.readTail?_chars]
    rfl

/-- A numeral is read as the double nearest to what it is read as, if there is one. -/
theorem read_text {bits : Nat} (nearest : Format.double.Nearest d.readMagnitude bits) :
    Binary64.read d.text =
      if bits < Format.double.infinityBits then .ok (.ofMagnitude d.plain.negative bits) else .error .outOfRange := by
  have scaled : d.readMagnitude = d.plain.mantissa * 10 ^ (d.readExponent - d.plain.places) := by
    rw [readMagnitude, PlainNumeral.magnitude, zpow_sub₀ (by norm_num), zpow_natCast, Nat.cast_pow, Nat.cast_ofNat]
    ring
  rw [scaled] at nearest
  rw [Binary64.read, Format.read, Encode.readLiteral?_of_isDecimal (Encode.isDecimal_iff.mpr ⟨d, rfl⟩),
    d.readNumeral?_text, Option.map_some]
  dsimp only
  rw [Format.numeralBits?_of_nearest (by decide) (by decide) nearest]
  by_cases finite : bits < Format.double.infinityBits
  · simp only [if_pos finite]
    rfl
  · simp only [if_neg finite]
    rfl

end DecimalNumeral

end DocTable.Number
