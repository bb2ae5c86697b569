import DocTable.Attribute.Encode
import DocTable.Proofs.Number.Magnitudes

/-!
# Plain decimals

A plain decimal has a sign or none, digits, a point among them or none, and nothing else (`PlainDecimal`).
Whatever is written for a number is one: the text of an integer, the positional notation of a decimal, and
so the text of every finite number (`PlainDecimal.toString`, `PlainDecimal.positional`).

A plain decimal is read by its digits and the number of those behind the point (`Extended.read?_tail`),
which gives a finite number (`PlainDecimal.exists_read?`) unless there are hundreds of millions of them
(`Extended.read?_of_long`).
-/

namespace DocTable.Number

set_option autoImplicit false

attribute [local instance] Number.corePower

/-- The signs that a decimal may have. -/
def signs : List (List Char) := [[], ['-'], ['+']]

/-- A decimal text without an exponent. -/
inductive PlainDecimal : String → Prop where
  | whole {sign digits : List Char} (signed : sign ∈ signs) (nonempty : digits ≠ [])
      (all : ∀ c ∈ digits, c.isDigit = true) : PlainDecimal (String.ofList (sign ++ digits))
  | pointed {sign digits fraction : List Char} (signed : sign ∈ signs)
      (nonempty : digits ≠ [] ∨ fraction ≠ []) (all : ∀ c ∈ digits, c.isDigit = true)
      (allBehind : ∀ c ∈ fraction, c.isDigit = true) :
      PlainDecimal (String.ofList (sign ++ (digits ++ '.' :: fraction)))

/-! ## Digits -/

theorem isDigit_eq (c : Char) : isDigit c = c.isDigit := rfl

theorem toNat_of_isDigit {c : Char} (digit : c.isDigit = true) : 48 ≤ c.toNat ∧ c.toNat ≤ 57 := by
  simpa [Char.isDigit, UInt32.le_iff_toNat_le] using digit

theorem lowerLetter_of_isDigit {c : Char} (digit : c.isDigit = true) : lowerLetter c = c := by
  refine if_neg fun upper => ?_
  have low : 65 ≤ c.toNat := upper.1
  have high := (toNat_of_isDigit digit).2
  omega

theorem ofDigitChars_lt {cs : List Char} (digits : ∀ c ∈ cs, c.isDigit = true) (init : Nat) :
    Nat.ofDigitChars 10 cs init < (init + 1) * 10 ^ cs.length := by
  induction cs generalizing init with
  | nil => simp
  | cons c rest ih =>
    have bounds := toNat_of_isDigit (digits c List.mem_cons_self)
    have zero : '0'.toNat = 48 := rfl
    have step := ih (fun d member => digits d (List.mem_cons_of_mem _ member))
      (10 * init + (c.toNat - '0'.toNat))
    rw [Nat.ofDigitChars_cons]
    refine Nat.lt_of_lt_of_le step ?_
    rw [List.length_cons, Nat.pow_succ', ← Nat.mul_assoc]
    exact Nat.mul_le_mul_right _ (by omega)

namespace Extended

/-- The reading after digits. -/
def Progress.advance (p : Progress) (cs : List Char) : Progress :=
  { p with
    value := Nat.ofDigitChars 10 cs p.value
    count := p.count + cs.length
    places := if p.point then p.places + cs.length else p.places
    before := if cs.isEmpty then p.before else .digit }

theorem readDigitsWithPoint_append {cs : List Char} (digits : ∀ c ∈ cs, c.isDigit = true) (p : Progress)
    (rest : List Char) :
    readDigitsWithPoint 10 p (cs ++ rest) = readDigitsWithPoint 10 (p.advance cs) rest := by
  induction cs generalizing p with
  | nil => simp [Progress.advance]
  | cons c others ih =>
    have digit := digits c List.mem_cons_self
    have noPoint : ¬(c = '.' ∧ (!p.point) = true) := by
      rintro ⟨rfl, _⟩
      cases digit
    have noSeparator : c ≠ '_' := by
      rintro rfl
      cases digit
    rw [List.cons_append, readDigitsWithPoint, if_neg noPoint, if_neg noSeparator,
      digitOf?_of_isDigit digit]
    dsimp only
    rw [ih fun d member => digits d (List.mem_cons_of_mem _ member)]
    congr 1
    simp only [Progress.advance, Nat.ofDigitChars_cons, List.length_cons, List.isEmpty_cons,
      Bool.false_eq_true, if_false, Nat.mul_comm 10, Progress.mk.injEq, true_and]
    refine ⟨rfl, by omega, ?_, ite_self _, trivial⟩
    split <;> omega

theorem readDigitsWithPoint_all {cs : List Char} (digits : ∀ c ∈ cs, c.isDigit = true) (p : Progress) :
    readDigitsWithPoint 10 p cs = (p.advance cs, []) := by
  have whole := readDigitsWithPoint_append digits p []
  rw [List.append_nil] at whole
  exact whole

/-- A point and the digits behind it, if there is one. -/
def tail (fraction? : Option (List Char)) : List Char :=
  match fraction? with
  | none => []
  | some fraction => '.' :: fraction

/-- What digits with a point are read to. -/
theorem readDigitsWithPoint_tail {digits : List Char} {fraction? : Option (List Char)}
    (all : ∀ c ∈ digits, c.isDigit = true) (allBehind : ∀ c ∈ fraction?.getD [], c.isDigit = true)
    (count : Nat) {before : Before} (unseparated : before ≠ .separator) :
    ∃ after, after ≠ Before.separator ∧
      readDigitsWithPoint 10 ⟨0, count, 0, false, before, false⟩ (digits ++ tail fraction?) =
        (⟨Nat.ofDigitChars 10 (digits ++ fraction?.getD []) 0,
          count + digits.length + (fraction?.getD []).length, (fraction?.getD []).length,
          fraction?.isSome, after, false⟩, []) := by
  have kept : ∀ (cs : List Char) {b : Before}, b ≠ .separator →
      (if cs.isEmpty then b else .digit) ≠ .separator := by
    intro cs b fine
    split
    · exact fine
    · decide
  rw [readDigitsWithPoint_append all]
  cases fraction? with
  | none =>
    refine ⟨_, kept digits unseparated, ?_⟩
    simp [tail, readDigitsWithPoint, Progress.advance]
  | some fraction =>
    have behind : ∀ c ∈ fraction, c.isDigit = true := allBehind
    refine ⟨_, kept fraction (show Before.other ≠ .separator by decide), ?_⟩
    have fine : ((if digits.isEmpty then before else .digit) == Before.separator) = false := by
      have := kept digits unseparated
      simpa using this
    rw [tail, readDigitsWithPoint, if_pos ⟨rfl, rfl⟩, readDigitsWithPoint_all behind]
    simp only [Progress.advance, Bool.false_or, fine, Option.getD_some, Nat.ofDigitChars_append, if_true,
      Nat.zero_add, Bool.false_eq_true, if_false, Option.isSome_some]

/-- Digits with a point have no mark of another base; a zero in front is read with the mark. -/
theorem markedBase_tail {digits : List Char} {fraction? : Option (List Char)}
    (all : ∀ c ∈ digits, c.isDigit = true) :
    (markedBase (digits ++ tail fraction?) = (10, 0, digits ++ tail fraction?) ∧
      startsWithZero (digits ++ tail fraction?) = false) ∨
    ∃ rest, digits = '0' :: rest ∧
      markedBase (digits ++ tail fraction?) = (10, 1, rest ++ tail fraction?) ∧
      startsWithZero (digits ++ tail fraction?) = true := by
  have noMark : ∀ mark : Char, mark.isDigit = true ∨ mark = '.' →
      lowerLetter mark ≠ 'b' ∧ lowerLetter mark ≠ 'o' ∧ lowerLetter mark ≠ 'x' := by
    rintro mark (digit | rfl)
    · rw [lowerLetter_of_isDigit digit]
      refine ⟨?_, ?_, ?_⟩ <;> rintro rfl <;> exact absurd digit (by decide)
    · decide
  cases digits with
  | nil =>
    refine .inl ?_
    cases fraction? with
    | none => exact ⟨rfl, rfl⟩
    | some fraction => exact ⟨rfl, rfl⟩
  | cons c rest =>
    by_cases zero : c = '0'
    · subst zero
      refine .inr ⟨rest, rfl, ?_, rfl⟩
      have next : ∀ mark others, rest ++ tail fraction? = mark :: others →
          mark.isDigit = true ∨ mark = '.' := by
        intro mark others split
        cases rest with
        | nil =>
          cases fraction? with
          | none => cases split
          | some fraction =>
            cases split
            exact .inr rfl
        | cons d more =>
          cases split
          exact .inl (all _ (List.mem_cons_of_mem _ List.mem_cons_self))
      rw [List.cons_append]
      cases split : rest ++ tail fraction? with
      | nil => rfl
      | cons mark others =>
        obtain ⟨notB, notO, notX⟩ := noMark mark (next mark others split)
        simp only [markedBase, notB, notO, notX, if_false]
    · refine .inl ?_
      rw [List.cons_append]
      constructor
      · rw [markedBase.eq_def]
        split <;> simp_all
      · rw [startsWithZero.eq_def]
        split <;> simp_all

/-- The mantissa of digits with a point. -/
theorem readMantissa?_tail {digits : List Char} {fraction? : Option (List Char)}
    (all : ∀ c ∈ digits, c.isDigit = true) (allBehind : ∀ c ∈ fraction?.getD [], c.isDigit = true)
    (nonempty : digits ≠ [] ∨ fraction?.getD [] ≠ []) :
    readMantissa? (digits ++ tail fraction?) =
      some ((Nat.ofDigitChars 10 (digits ++ fraction?.getD []) 0, 10, (fraction?.getD []).length), []) := by
  rw [readMantissa?]
  rcases markedBase_tail all with ⟨unmarked, noZero⟩ | ⟨rest, rfl, marked, zero⟩
  · obtain ⟨after, fine, read⟩ :=
      readDigitsWithPoint_tail all allBehind 0 (show Before.other ≠ .separator by decide)
    have some : 0 + digits.length + (fraction?.getD []).length ≠ 0 := by
      rcases nonempty with here | behind
      · have := List.length_pos_iff.mpr here
        omega
      · have := List.length_pos_iff.mpr behind
        omega
    have unseparated : (after == Before.separator) = false := by simpa using fine
    rw [unmarked, noZero]
    dsimp only
    simp only [Bool.false_eq_true, if_false, read, unseparated, some, Bool.or_false, decide_false]
  · obtain ⟨after, fine, read⟩ :=
      readDigitsWithPoint_tail (fun c member => all c (List.mem_cons_of_mem _ member)) allBehind 1
        (show Before.digit ≠ .separator by decide)
    have some : 1 + rest.length + (fraction?.getD []).length ≠ 0 := by omega
    have unseparated : (after == Before.separator) = false := by simpa using fine
    rw [marked, zero]
    dsimp only
    simp only [if_true, read, unseparated, some, Bool.or_false, decide_false, Bool.false_eq_true, if_false,
      List.cons_append, Nat.ofDigitChars_cons]
    rfl

/-- What the digits of a decimal are read as, with some of them behind the point. -/
def decimal? (negative : Bool) (value places : Nat) : Option Extended :=
  if value = 0 then some (.finite negative 0 0)
  else
    let top := -(places : Int) + (Nat.log2 value : Int) + 1
    if exponentLimit < top ∨ top < -exponentLimit - 1 then none
    else some (scale negative value (-(places : Int)) (-(places : Int)))

theorem isDigit_or_point_of_mem_tail {digits : List Char} {fraction? : Option (List Char)}
    (all : ∀ c ∈ digits, c.isDigit = true) (allBehind : ∀ c ∈ fraction?.getD [], c.isDigit = true) :
    ∀ c ∈ digits ++ tail fraction?, c.isDigit = true ∨ c = '.' := by
  intro c member
  rcases List.mem_append.mp member with here | behind
  · exact .inl (all c here)
  · cases fraction? with
    | none => exact absurd behind List.not_mem_nil
    | some fraction =>
      rcases List.mem_cons.mp behind with rfl | there
      · exact .inr rfl
      · exact .inl (allBehind c there)

/-- A sign is taken off whole if none follows it. -/
theorem takeSign_append_of_head {sign body : List Char} (signed : sign ∈ signs)
    (unsigned : ∀ c ∈ body.head?, c ≠ '-' ∧ c ≠ '+') :
    takeSign (sign ++ body) = (decide (sign = ['-']), body) := by
  simp only [signs, List.mem_cons, List.not_mem_nil, or_false] at signed
  rcases signed with rfl | rfl | rfl
  · rw [List.nil_append, takeSign.eq_def]
    split
    · exact absurd rfl (unsigned '-' rfl).1
    · exact absurd rfl (unsigned '+' rfl).2
    · rfl
  · rfl
  · rfl

theorem ne_sign_of_isDigit_or_point {c : Char} (plain : c.isDigit = true ∨ c = '.') : c ≠ '-' ∧ c ≠ '+' := by
  rcases plain with digit | rfl
  · refine ⟨?_, ?_⟩ <;> rintro rfl <;> exact absurd digit (by decide)
  · decide

/-- The sign of digits is taken off whole. -/
theorem takeSign_append {sign body : List Char} (signed : sign ∈ signs)
    (plain : ∀ c ∈ body, c.isDigit = true ∨ c = '.') :
    takeSign (sign ++ body) = (decide (sign = ['-']), body) :=
  takeSign_append_of_head signed fun c head => ne_sign_of_isDigit_or_point (plain c (List.mem_of_mem_head? head))

/-- A sign, digits and perhaps a point with digits behind it are read by the digits. -/
theorem read?_tail {sign digits : List Char} {fraction? : Option (List Char)} (signed : sign ∈ signs)
    (all : ∀ c ∈ digits, c.isDigit = true) (allBehind : ∀ c ∈ fraction?.getD [], c.isDigit = true)
    (nonempty : digits ≠ [] ∨ fraction?.getD [] ≠ []) :
    read? (String.ofList (sign ++ (digits ++ tail fraction?))) =
      decimal? (sign = ['-']) (Nat.ofDigitChars 10 (digits ++ fraction?.getD []) 0)
        (fraction?.getD []).length := by
  have chars := isDigit_or_point_of_mem_tail all allBehind
  have noLetter : 'f' ∉ (String.ofList (sign ++ (digits ++ tail fraction?))).toList := by
    rw [String.toList_ofList]
    intro member
    rcases List.mem_append.mp member with inSign | inBody
    · simp only [signs, List.mem_cons, List.not_mem_nil, or_false] at signed
      rcases signed with rfl | rfl | rfl <;> simp at inSign
    · exact (chars 'f' inBody).elim (by decide) (by decide)
  rw [read?_eq_readFinite? noLetter, readFinite?, String.toList_ofList, takeSign_append signed chars]
  have bits : digitBits 10 = 1 := rfl
  simp only [readMantissa?_tail all allBehind nonempty, readPower?, bind, Option.bind, pure, decimal?,
    bits, if_true, Nat.mul_one, Int.add_zero, Bool.false_eq_true, if_false]

/-- The digits of a decimal are a number, unless their number of bits is beyond the exponents. -/
theorem exists_decimal? {value places : Nat} {top : Int} (negative : Bool)
    (below : value ≠ 0 → (Nat.log2 value : Int) + 2 - places ≤ top) (possible : top ≤ exponentLimit)
    (few : (places : Int) ≤ exponentLimit) :
    ∃ x, decimal? negative value places = some x ∧ x.Within top := by
  rw [decimal?]
  split
  · exact ⟨_, rfl, .inl rfl⟩
  · rename_i nonzero
    have bound := below nonzero
    dsimp only
    rw [if_neg (by omega)]
    exact ⟨_, rfl, scale_within nonzero places bound possible⟩

end Extended

theorem ten_pow_le (n : Nat) : 10 ^ n ≤ 2 ^ (10 * (n / 3) + 10) := by
  have thousand : ∀ k : Nat, 10 ^ (3 * k) ≤ 2 ^ (10 * k) := by
    intro k
    rw [Nat.pow_mul, Nat.pow_mul]
    exact Nat.pow_le_pow_left (by decide) k
  calc 10 ^ n ≤ 10 ^ (3 * (n / 3 + 1)) := Nat.pow_le_pow_right (by decide) (by omega)
    _ ≤ 2 ^ (10 * (n / 3 + 1)) := thousand _
    _ = 2 ^ (10 * (n / 3) + 10) := rfl

/-- The bits of a decimal by the number of its digits. -/
theorem log2_lt_of_lt_ten_pow {value n : Nat} (nonzero : value ≠ 0) (bound : value < 10 ^ n) :
    Nat.log2 value < 10 * (n / 3) + 10 :=
  (Nat.log2_lt nonzero).mpr (Nat.lt_of_lt_of_le bound (ten_pow_le n))

/-- A number of characters, `2 ^ 29`, with which no decimal is beyond the exponents. -/
def readableLength : Nat := 536870912

/-- The bits that a decimal of fewer characters has at most. -/
def writtenBits : Int := 1790000000

/-- Digits with a point are a number, unless there are very many of them. -/
theorem Extended.exists_read?_tail {sign digits : List Char} (fraction? : Option (List Char))
    (signed : sign ∈ signs) (all : ∀ c ∈ digits, c.isDigit = true)
    (allBehind : ∀ c ∈ fraction?.getD [], c.isDigit = true) (nonempty : digits ≠ [] ∨ fraction?.getD [] ≠ [])
    (few : digits.length + (fraction?.getD []).length < readableLength) :
    ∃ x, read? (String.ofList (sign ++ (digits ++ tail fraction?))) = some x ∧ x.Within writtenBits := by
  have digit : ∀ c ∈ digits ++ fraction?.getD [], c.isDigit = true := by
    intro c member
    exact (List.mem_append.mp member).elim (all c) (allBehind c)
  have limit : exponentLimit = 2147483647 := rfl
  have longest : readableLength = 536870912 := rfl
  rw [read?_tail signed all allBehind nonempty]
  refine exists_decimal? _ (fun nonzero => ?_) (by decide) (by omega)
  have value := ofDigitChars_lt digit 0
  rw [Nat.zero_add, Nat.one_mul, List.length_append] at value
  have bits := log2_lt_of_lt_ten_pow nonzero value
  rw [writtenBits]
  omega

/-- A plain decimal is a number, unless it is very long. -/
theorem PlainDecimal.exists_read? {text : String} (plain : PlainDecimal text)
    (short : text.length < readableLength) : ∃ x, Extended.read? text = some x ∧ x.Within writtenBits := by
  cases plain with
  | @whole sign digits signed nonempty all =>
    rw [String.length_ofList, List.length_append] at short
    have read := Extended.exists_read?_tail none signed all (List.forall_mem_nil _) (.inl nonempty)
      (by simp only [Option.getD_none, List.length_nil]; omega)
    rwa [Extended.tail, List.append_nil] at read
  | @pointed sign digits fraction signed nonempty all allBehind =>
    rw [String.length_ofList, List.length_append, List.length_append, List.length_cons] at short
    exact Extended.exists_read?_tail (some fraction) signed all allBehind nonempty
      (by simp only [Option.getD_some]; omega)

theorem PlainDecimal.of_tail {sign digits : List Char} (fraction? : Option (List Char))
    (signed : sign ∈ signs) (nonempty : digits ≠ []) (all : ∀ c ∈ digits, c.isDigit = true)
    (allBehind : ∀ c ∈ fraction?.getD [], c.isDigit = true) :
    PlainDecimal (String.ofList (sign ++ (digits ++ Extended.tail fraction?))) := by
  cases fraction? with
  | none =>
    rw [Extended.tail, List.append_nil]
    exact .whole signed nonempty all
  | some fraction => exact .pointed signed (.inl nonempty) all allBehind

/-- The sign in front of a number. -/
def signOf (negative : Bool) : List Char := if negative then ['-'] else []

theorem signOf_mem (negative : Bool) : signOf negative ∈ signs := by
  cases negative <;> decide

theorem ofList_signOf (negative : Bool) (cs : List Char) :
    (if negative then "-" ++ String.ofList cs else String.ofList cs) =
      String.ofList (signOf negative ++ cs) := by
  cases negative with
  | false => rfl
  | true => exact String.ofList_append.symm

/-- Integers are written plainly. -/
theorem PlainDecimal.toString (n : Int) : PlainDecimal (toString n) := by
  have text : ToString.toString n = String.ofList (signOf (n < 0) ++ Nat.toDigits 10 n.natAbs) := by
    rw [← String.toList_inj, String.toList_ofList, toList_toString]
    simp [signOf]
  rw [text]
  exact .whole (signOf_mem _) (List.ne_nil_of_length_pos Nat.length_toDigits_pos)
    fun c => Nat.isDigit_of_mem_toDigits (by decide) (by decide)

/-- The digits of a decimal in positional notation, and those behind the point. -/
theorem Decimal.exists_positional (d : Decimal) : ∃ (digits : List Char) (fraction? : Option (List Char)),
    d.positional = String.ofList (digits ++ Extended.tail fraction?) ∧ digits ≠ [] ∧
      (∀ c ∈ digits, c.isDigit = true) ∧ (∀ c ∈ fraction?.getD [], c.isDigit = true) ∧
      Nat.ofDigitChars 10 (digits ++ fraction?.getD []) 0 = d.digits * 10 ^ d.exponent.toNat ∧
      (fraction?.getD []).length = (-d.exponent).toNat := by
  have chars : d.chars = Nat.toDigits 10 d.digits := Nat.toList_repr
  have filled : 0 < (Nat.toDigits 10 d.digits).length := Nat.length_toDigits_pos
  have digit : ∀ c ∈ Nat.toDigits 10 d.digits, c.isDigit = true :=
    fun c => Nat.isDigit_of_mem_toDigits (by decide) (by decide)
  have zeros : ∀ (n : Nat), ∀ c ∈ List.replicate n '0', c.isDigit = true := by
    intro n c member
    rw [List.eq_of_mem_replicate member]
    rfl
  have both : ∀ {cs ds : List Char}, (∀ c ∈ cs, c.isDigit = true) → (∀ c ∈ ds, c.isDigit = true) →
      ∀ c ∈ cs ++ ds, c.isDigit = true := by
    intro cs ds first second c member
    exact (List.mem_append.mp member).elim (first c) (second c)
  have value : Nat.ofDigitChars 10 (Nat.toDigits 10 d.digits) 0 = d.digits := Nat.ofDigitChars_ten_toDigits
  rw [Decimal.positional, Decimal.point, chars]
  split
  · -- the digits start behind the point
    rename_i behind
    have whole : d.exponent.toNat = 0 := by omega
    refine ⟨['0'], some (List.replicate (-((Nat.toDigits 10 d.digits).length + d.exponent)).toNat '0' ++
      Nat.toDigits 10 d.digits), ?_, List.cons_ne_nil _ _, zeros 1, both (zeros _) digit, ?_, ?_⟩
    · rw [← String.toList_inj]
      simp [Extended.tail]
    · rw [Option.getD_some, Nat.ofDigitChars_append, Nat.ofDigitChars_append, whole,
        Nat.ofDigitChars_replicate_zero]
      simpa [Nat.ofDigitChars] using value
    · rw [Option.getD_some, List.length_append, List.length_replicate]
      omega
  · split
    · -- the point stands behind the digits
      have none : (-d.exponent).toNat = 0 := by omega
      refine ⟨Nat.toDigits 10 d.digits ++ List.replicate (((Nat.toDigits 10 d.digits).length +
        d.exponent).toNat - (Nat.toDigits 10 d.digits).length) '0', Option.none, ?_, ?_, both digit (zeros _),
        List.forall_mem_nil _, ?_, none.symm⟩
      · rw [Extended.tail, List.append_nil, String.ofList_append]
      · exact List.append_ne_nil_of_left_ne_nil (List.ne_nil_of_length_pos filled) _
      · have places : ((Nat.toDigits 10 d.digits).length + d.exponent).toNat -
            (Nat.toDigits 10 d.digits).length = d.exponent.toNat := by omega
        rw [Option.getD_none, List.append_nil, Nat.ofDigitChars_append, value,
          Nat.ofDigitChars_replicate_zero, places, Nat.mul_comm]
    · -- the point stands among the digits
      have whole : d.exponent.toNat = 0 := by omega
      refine ⟨(Nat.toDigits 10 d.digits).take ((Nat.toDigits 10 d.digits).length + d.exponent).toNat,
        some ((Nat.toDigits 10 d.digits).drop ((Nat.toDigits 10 d.digits).length + d.exponent).toNat),
        ?_, ?_, fun c member => digit c (List.mem_of_mem_take member),
        fun c member => digit c (List.mem_of_mem_drop member), ?_, ?_⟩
      · rw [← String.toList_inj]
        simp [Extended.tail]
      · refine List.ne_nil_of_length_pos ?_
        rw [List.length_take]
        omega
      · rw [Option.getD_some, List.take_append_drop, value, whole, Nat.pow_zero, Nat.mul_one]
      · rw [Option.getD_some, List.length_drop]
        omega

theorem PlainDecimal.positional (negative : Bool) (d : Decimal) :
    PlainDecimal (if negative then "-" ++ d.positional else d.positional) := by
  obtain ⟨digits, fraction?, text, nonempty, all, allBehind, _, _⟩ := d.exists_positional
  rw [text, ofList_signOf]
  exact .of_tail fraction? (signOf_mem negative) nonempty all allBehind

/-- Positional notation is read by the digits. -/
theorem Extended.read?_positional (negative : Bool) (d : Decimal) :
    read? (if negative then "-" ++ d.positional else d.positional) =
      decimal? negative (d.digits * 10 ^ d.exponent.toNat) (-d.exponent).toNat := by
  obtain ⟨digits, fraction?, text, nonempty, all, allBehind, value, places⟩ := d.exists_positional
  have sign : decide (signOf negative = ['-']) = negative := by
    cases negative <;> decide
  rw [text, ofList_signOf, read?_tail (signOf_mem negative) all allBehind (.inl nonempty), value, places, sign]

end DocTable.Number
