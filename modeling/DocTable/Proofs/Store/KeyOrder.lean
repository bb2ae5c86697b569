import DocTable.Proofs.Attribute.ConsistentOrder
import DocTable.Proofs.Number.DoubleOrder
import DocTable.Proofs.Store.Slot

/-!
# The octets of a key are in the order of its values

Storage keys are compared octet by octet, and nothing else orders what a query reads.  So each way of writing
a value has to keep the order of values: texts and byte strings are compared by their octets, and escaping
keeps the order of octets (`StorageKey.escape_lt_escape`); the octets of a double are those of one number that
grows with the double (`StorageKey.number_eq`, `StorageKey.number_lt_number_iff`).

Doubles and the numbers that attributes are compared by are two roundings of one decimal.  Neither turns the
order round, so octets and comparison never contradict each other, though either may call equal what the
other tells apart (`KeyPart.not_written_lt_of_gt`).
-/

namespace DocTable

set_option autoImplicit false

attribute [local instance] Number.corePower

open Number

/-! ## Octets -/

namespace StorageKey

/-- Escaped octets are in the order of the octets. -/
theorem escape_lt_escape {a b : Bytes} (less : a < b) : escape a < escape b := by
  induction a generalizing b with
  | nil =>
    cases b with
    | nil => exact absurd less (List.not_lt_nil _)
    | cons y ys =>
      simp only [escape]
      split
      · exact List.nil_lt_cons _ _
      · split <;> exact List.nil_lt_cons _ _
  | cons x xs ih =>
    cases b with
    | nil => exact absurd less (List.not_lt_nil _)
    | cons y ys =>
      rcases List.cons_lt_cons_iff.mp less with first | ⟨rfl, rest⟩
      · -- the first of the octets for a larger one is larger, but for zero and one, which share it
        simp only [escape]
        split_ifs <;> simp only [List.cons_lt_cons_iff, UInt8.lt_iff_toNat_lt, ← UInt8.toNat_inj] at * <;> grind
      · simp only [escape]
        split_ifs <;> simp [ih rest]

/-- The octets of a number at a fixed width, the highest first. -/
def octets (width n : Nat) : Bytes := (List.range width).reverse.map fun i => UInt8.ofNat (n / 256 ^ i % 256)

theorem octets_succ (width n : Nat) :
    octets (width + 1) n = UInt8.ofNat (n / 256 ^ width % 256) :: octets width n := by
  rw [octets, List.range_succ, List.reverse_append, List.map_append]
  rfl

/-- Octets at one width are in the order of the numbers that fit. -/
theorem octets_lt_octets_iff {width m n : Nat} :
    octets width m < octets width n ↔ m % 256 ^ width < n % 256 ^ width := by
  induction width with
  | zero =>
    rw [Nat.pow_zero, Nat.mod_one, Nat.mod_one]
    exact iff_of_false (List.not_lt_nil _) (Nat.lt_irrefl _)
  | succ width ih =>
    have small : m % 256 ^ width < 256 ^ width := Nat.mod_lt _ (Nat.pow_pos (by decide))
    have small' : n % 256 ^ width < 256 ^ width := Nat.mod_lt _ (Nat.pow_pos (by decide))
    rw [Nat.mod_pow_succ, Nat.mod_pow_succ, octets_succ, octets_succ, List.cons_lt_cons_iff, ih,
      UInt8.lt_iff_toNat_lt, ← UInt8.toNat_inj, UInt8.toNat_ofNat', UInt8.toNat_ofNat', Nat.mod_mod, Nat.mod_mod]
    rcases Nat.lt_trichotomy (m / 256 ^ width % 256) (n / 256 ^ width % 256) with first | same | first
    · have room := Nat.mul_le_mul_left (256 ^ width) first
      rw [Nat.succ_eq_add_one, Nat.mul_add, Nat.mul_one] at room
      exact iff_of_true (.inl first) (by omega)
    · rw [same]
      omega
    · have room := Nat.mul_le_mul_left (256 ^ width) first
      rw [Nat.succ_eq_add_one, Nat.mul_add, Nat.mul_one] at room
      exact iff_of_false (by omega) (by omega)

theorem bigEndian_lt_bigEndian_iff {m n : Nat} (fitsM : m < 2 ^ 64) (fitsN : n < 2 ^ 64) :
    bigEndian m < bigEndian n ↔ m < n := by
  have size : (256 : Nat) ^ 8 = 2 ^ 64 := rfl
  have order := @octets_lt_octets_iff 8 m n
  rwa [size, Nat.mod_eq_of_lt fitsM, Nat.mod_eq_of_lt fitsN] at order

/-! ## Numbers -/

theorem xor_two_pow_of_lt {n k : Nat} (less : n < 2 ^ k) : n ^^^ 2 ^ k = 2 ^ k + n := by
  apply Nat.eq_of_testBit_eq
  intro i
  rw [Nat.testBit_xor]
  rcases Nat.lt_trichotomy i k with below | rfl | above
  · rw [Nat.testBit_two_pow_add_gt below, Nat.testBit_two_pow_of_ne below.ne', Bool.xor_false]
  · rw [Nat.testBit_two_pow_add_eq, Nat.testBit_two_pow_self, Bool.xor_true]
  · have power : 2 ^ (k + 1) ≤ 2 ^ i := Nat.pow_le_pow_right (by decide) above
    rw [Nat.pow_succ] at power
    rw [Nat.testBit_two_pow_of_ne above.ne, Nat.testBit_lt_two_pow (by omega),
      Nat.testBit_lt_two_pow (by omega), Bool.xor_false]

/-- The first octet of a double, and the number that the other ones make, by its sign and the bits of its
magnitude. -/
def numberCode (negative : Bool) (bits : Nat) : UInt8 × Nat :=
  if negative then
    if bits = 0 then (0x80, 0) else (0x7F, 2 ^ 63 - 1 - bits)
  else (0x80, 2 ^ 63 + bits)

theorem numberCode_lt {negative : Bool} {bits : Nat} (bound : bits < 2 ^ 63) :
    (numberCode negative bits).2 < 2 ^ 64 := by
  rw [numberCode]
  split_ifs <;> dsimp only <;> omega

variable {x y : Binary64}

/-- A double is zero or more up to the bits of the zero with a sign. -/
theorem isNonnegative_iff (isNumber : x.isNaN = false) : isNonnegative x = true ↔ x.bits.toNat ≤ 2 ^ 63 := by
  have sign : x.isNegative = true ↔ 2 ^ 63 ≤ x.bits.toNat := decide_eq_true_iff
  have zero : (x.bits == (0x8000000000000000 : UInt64)) = true ↔ x.bits.toNat = 2 ^ 63 := by
    rw [beq_iff_eq, ← UInt64.toNat_inj]
    exact Iff.rfl
  rw [isNonnegative, isNumber, Bool.not_false, Bool.true_and, Bool.or_eq_true, Bool.not_eq_true',
    ← Bool.not_eq_true, sign, zero]
  omega

theorem number_eq (isNumber : x.isNaN = false) :
    number x = (numberCode x.isNegative (Format.double.magnitudePart x.bits.toNat)).1 ::
      bigEndian (numberCode x.isNegative (Format.double.magnitudePart x.bits.toNat)).2 := by
  have bound := x.magnitudePart_lt_two_pow
  have word := x.toNat_bits_eq
  generalize Format.double.magnitudePart x.bits.toNat = bits at bound word
  rw [number, numberCode]
  cases negative : x.isNegative with
  | false =>
    rw [negative, if_neg Bool.false_ne_true] at word
    have mask : (0x8000000000000000 : UInt64).toNat = 2 ^ 63 := rfl
    rw [if_pos ((isNonnegative_iff isNumber).mpr (by omega)), UInt64.toNat_xor, word, mask, xor_two_pow_of_lt bound]
    rfl
  | true =>
    rw [negative, if_pos rfl] at word
    by_cases zero : bits = 0
    · have same : x.bits = 0x8000000000000000 := by
        rw [← UInt64.toNat_inj, word, zero]
        rfl
      rw [if_pos ((isNonnegative_iff isNumber).mpr (by omega)), if_pos rfl, if_pos zero, same]
      rfl
    · have ones : (0xFFFFFFFFFFFFFFFF : UInt64) = -1 := rfl
      have size : UInt64.size = 2 ^ 64 := rfl
      have turned : (x.bits ^^^ 0xFFFFFFFFFFFFFFFF).toNat = 2 ^ 63 - 1 - bits := by
        rw [ones, UInt64.xor_neg_one, UInt64.toNat_not, word]
        omega
      rw [if_neg (mt (isNonnegative_iff isNumber).mp (by omega)), if_pos rfl, if_neg zero, turned]

/-- The octets of doubles are in the order of the doubles, and those of the zero with a sign are just below those of
the zero without. -/
theorem number_lt_number_iff (numberX : x.isNaN = false) (numberY : y.isNaN = false) :
    number x < number y ↔ x.signedBits < y.signedBits ∨ x.bits.toNat = 2 ^ 63 ∧ y.bits.toNat = 0 := by
  have first : (0x7F : UInt8) < 0x80 := by decide
  have second : ¬(0x80 : UInt8) < 0x7F := by decide
  have distinct : (0x80 : UInt8) ≠ 0x7F := by decide
  have boundX := x.magnitudePart_lt_two_pow
  have boundY := y.magnitudePart_lt_two_pow
  rw [number_eq numberX, number_eq numberY, List.cons_lt_cons_iff,
    bigEndian_lt_bigEndian_iff (numberCode_lt boundX) (numberCode_lt boundY), Binary64.signedBits, Binary64.signedBits,
    numberCode, numberCode]
  have wordX := x.toNat_bits_eq
  have wordY := y.toNat_bits_eq
  generalize Format.double.magnitudePart x.bits.toNat = m at *
  generalize Format.double.magnitudePart y.bits.toNat = n at *
  rw [wordX, wordY]
  split_ifs <;>
    simp only [first, second, distinct, UInt8.lt_irrefl, true_or, false_or, true_and, false_and, true_iff,
      false_iff] <;> omega

end StorageKey

/-- Of two decimals that are keys the octets of the smaller one are not larger. -/
theorem Number.PlainNumeral.number_le_of_value_lt {d e : PlainNumeral} {x y : Binary64}
    (read : Binary64.read d.text = .ok x) (read' : Binary64.read e.text = .ok y) (less : d.value < e.value) :
    StorageKey.number x = StorageKey.number y ∨ StorageKey.number x < StorageKey.number y := by
  obtain ⟨bits, found, rfl⟩ := exists_bits_of_read read
  obtain ⟨bits', found', rfl⟩ := exists_bits_of_read read'
  have infinity : Format.double.infinityBits = 2047 * 2 ^ 52 := rfl
  have sign : Format.double.signBits = 2 ^ 63 := rfl
  have finite := Format.lt_infinityBits_of_magnitudeBits? (by decide) found
  have finite' := Format.lt_infinityBits_of_magnitudeBits? (by decide) found'
  rcases Std.lt_trichotomy (StorageKey.number (.ofMagnitude d.negative bits))
    (StorageKey.number (.ofMagnitude e.negative bits')) with smaller | same | larger
  · exact .inr smaller
  · exact .inl same
  · exfalso
    rw [StorageKey.number_lt_number_iff (Binary64.isNaN_ofMagnitude finite') (Binary64.isNaN_ofMagnitude finite),
      Binary64.signedBits_ofMagnitude finite, Binary64.signedBits_ofMagnitude finite',
      Binary64.toNat_ofMagnitude finite, Binary64.toNat_ofMagnitude finite', sign] at larger
    rcases cases_of_value_le less.le with ⟨signD, signE, order⟩ | ⟨signD, signE, order⟩ | ⟨signD, signE⟩ |
      ⟨zero, zero'⟩
    · have le := bits_le_of_magnitude_le found found' order
      simp only [signD, signE, Bool.false_eq_true, if_false] at larger
      omega
    · have le := bits_le_of_magnitude_le found' found order
      simp only [signD, signE, if_true] at larger
      omega
    · simp only [signD, signE, Bool.false_eq_true, if_true, if_false] at larger
      omega
    · rw [value, value, zero, zero', neg_zero, ite_self, ite_self] at less
      exact absurd less (lt_irrefl _)

/-! ## Key values -/

theorem lt_of_compareBytes_gt {a b : Bytes} (greater : compareBytes a b = .gt) : b < a := by
  fun_induction compareBytes a b with
  | case1 => cases greater
  | case2 => cases greater
  | case3 => exact List.nil_lt_cons _ _
  | case4 => cases greater
  | case5 x rest y others _ first => exact List.cons_lt_cons_iff.mpr (.inl first)
  | case6 x rest y others notLess notGreater ih =>
    have same : y = x := UInt8.le_antisymm (UInt8.not_lt.mp notLess) (UInt8.not_lt.mp notGreater)
    exact List.cons_lt_cons_iff.mpr (.inr ⟨same, ih greater⟩)

/-- A value that is no number, or a plain decimal with at most 55 digits behind the point. -/
def AttributeValue.IsPlainScalar (v : AttributeValue) : Prop :=
  ∀ text, v = .n text → ∃ d : PlainNumeral, d.text = text ∧ d.places ≤ 55

/-- The octets of a key value are not smaller than those of a smaller value. -/
theorem KeyPart.not_written_lt_of_gt {v w : AttributeValue} {p q : KeyPart} (partV : v.keyPart? = some p)
    (partW : w.keyPart? = some q) (plainV : v.IsPlainScalar) (plainW : w.IsPlainScalar)
    (greater : v.compare? w = some .gt) : ¬ p.written < q.written := by
  have contradicts : ∀ {a b : Bytes}, b = a ∨ b < a → ¬ StorageKey.escape a < StorageKey.escape b := by
    rintro a b (rfl | less)
    · exact List.lt_irrefl _
    · exact List.lt_asymm (StorageKey.escape_lt_escape less)
  cases v with
  | s | raw =>
    cases w with
    | s | raw =>
      cases partV
      cases partW
      exact contradicts (.inr (lt_of_compareBytes_gt (Option.some_inj.mp greater)))
    | _ => cases greater
  | b x =>
    cases w with
    | b y =>
      cases partV
      cases partW
      exact contradicts (.inr (lt_of_compareBytes_gt (Option.some_inj.mp greater)))
    | _ => cases greater
  | n x =>
    cases w with
    | n y =>
      obtain ⟨d, rfl, few⟩ := plainV x rfl
      obtain ⟨e, rfl, few'⟩ := plainW y rfl
      have less := (PlainNumeral.value_order_of_compareNumbers? few few' greater).2 rfl
      simp only [AttributeValue.keyPart?] at partV partW
      split at partV
      · rename_i x readX
        split at partW
        · rename_i y readY
          cases partV
          cases partW
          exact contradicts (PlainNumeral.number_le_of_value_lt readY readX less)
        · cases partW
      · cases partV
    | _ => cases greater
  | _ => cases greater

end DocTable
