import DocTable.Proofs.Number.IntegerNumerals
import DocTable.Proofs.Outcome
import DocTable.Yaml.Node

/-!
# What a plain decimal integer means

A plain scalar that is a decimal integer means that integer if it fits 64 bits, signed or, without a sign
in front, unsigned; otherwise it means a double (`Yaml.meaningOf_text`).  It is no fixed word, which all
lack digits, and no timestamp, which needs a dash behind four digits.  An integer with more than 308 digits
might be out of the range of doubles and would then be mere text.
-/

namespace DocTable.Yaml

set_option autoImplicit false

attribute [local instance] Number.corePower

open Number

variable (p : IntegerNumeral)

/-- No text with a digit has a fixed meaning. -/
theorem fixedMeaning?_of_isDigit {text : String} {c : Char} (member : c ∈ text.toList)
    (digit : c.isDigit = true) : fixedMeaning? text = none := by
  have other : ∀ words : List String, (words.all fun word => word.toList.all fun d => !d.isDigit) = true →
      text ∉ words := by
    intro words digitless isWord
    have noDigit := List.all_eq_true.mp (List.all_eq_true.mp digitless text isWord) c member
    rw [digit] at noDigit
    cases noDigit
  have noMerge : text ≠ "<<" := fun same => other ["<<"] (by decide +kernel) (same ▸ List.mem_cons_self)
  simp only [fixedMeaning?, List.contains_eq_mem, decide_eq_true_eq]
  rw [if_neg (other _ (by decide +kernel)), if_neg (other _ (by decide +kernel)),
    if_neg (other _ (by decide +kernel)), if_neg (other _ (by decide +kernel)),
    if_neg (other _ (by decide +kernel)), if_neg (other _ (by decide +kernel)), if_neg noMerge]

theorem fixedMeaning?_text : fixedMeaning? p.text = none := by
  obtain ⟨c, rest, same⟩ := List.exists_cons_of_ne_nil p.digits_ne_nil
  have inDigits : c ∈ p.digits := same ▸ List.mem_cons_self
  exact fixedMeaning?_of_isDigit (p.toList_text ▸ List.mem_append_right _ inDigits) (p.all c inDigits)

/-- A decimal integer has no dash behind its digits. -/
theorem timestamp_read?_text : Timestamp.read? p.text = none := by
  have noYear : Timestamp.readYear? p.text.toList = none := by
    rw [p.toList_text, Timestamp.readYear?]
    have signed := p.signed
    simp only [signs, List.mem_cons, List.not_mem_nil, or_false] at signed
    rcases signed with none | minus | plus
    · have digits : p.digits.takeWhile isDigit = p.digits := List.takeWhile_eq_self_iff.mpr p.all
      rw [none, List.nil_append, digits]
      split
      · rfl
      · rename_i four
        rw [List.drop_eq_nil_of_le (by omega)]
        rfl
    · rw [minus]
      rfl
    · rw [plus]
      rfl
  rw [Timestamp.read?, Timestamp.readDate?, noYear]
  rfl

/-- No mark of a base stands behind a leading zero. -/
theorem markedInteger?_text : markedInteger? p.text.toList = none := by
  have unmarked : ∀ mark rest, p.text.toList ≠ '0' :: mark :: rest := by
    intro mark rest same
    have noSign : p.sign = [] := by
      have signed := p.signed
      simp only [signs, List.mem_cons, List.not_mem_nil, or_false] at signed
      rcases signed with none | minus | plus
      · exact none
      · rw [p.toList_text, minus] at same
        cases same
      · rw [p.toList_text, plus] at same
        cases same
    rw [p.toList_text, noSign, List.nil_append] at same
    rcases p.leading with zero | ⟨c, others, nonzero, other⟩
    · cases zero.symm.trans same
    · exact other (List.cons_eq_cons.mp (nonzero.symm.trans same)).1
  unfold markedInteger?
  split
  · rename_i mark rest same
    exact absurd same (unmarked mark rest)
  · rfl

/-- The integers that mean themselves: those of 64 bits, and up to twice as large without a sign. -/
def Fits (p : IntegerNumeral) : Prop :=
  -9223372036854775808 ≤ p.value ∧
    (p.value < 9223372036854775808 ∨ p.sign = [] ∧ p.value < 18446744073709551616)

instance : Decidable (Fits p) := inferInstanceAs (Decidable (_ ∧ _))

theorem integerOf?_text : integerOf? p.text = if Fits p then some p.value else none := by
  have unsigned := p.readUnsignedAnyBase_text
  rw [integerOf?, p.readSignedAnyBase_text]
  by_cases word : -9223372036854775808 ≤ p.value ∧ p.value < 9223372036854775808
  · rw [if_pos word, if_pos ⟨word.1, .inl word.2⟩]
  · rw [if_neg word]
    dsimp only
    by_cases large : p.sign = [] ∧ p.value < 18446744073709551616
    · have value : p.value = p.magnitude := if_neg (by rw [large.1]; decide)
      rw [if_pos large] at unsigned
      rw [Outcome.ok_of_toOption unsigned, if_pos ⟨by omega, .inr large⟩, value]
    · rw [if_neg large] at unsigned
      rw [if_neg fun fits => fits.2.elim (fun small => word ⟨fits.1, small⟩) large]
      cases read : readUnsignedAnyBase 64 p.text.toList with
      | ok n =>
        rw [read] at unsigned
        cases unsigned
      | error fault => exact markedInteger?_text p

theorem isFloatText_text : isFloatText p.text.toList = true := by
  have digits : p.digits.takeWhile isDigit = p.digits := List.takeWhile_eq_self_iff.mpr p.all
  have nothing : p.digits.dropWhile isDigit = [] := List.dropWhile_eq_nil_iff.mpr p.all
  rw [isFloatText, p.takeSign_text]
  simp only [digits, nothing]
  simpa [isFloatExponent] using p.digits_ne_nil

/-- **A plain decimal integer means itself if it fits, and otherwise a double.** -/
theorem meaningOf_text (short : p.digits.length ≤ 308) (timestamps : Bool) :
    (Fits p → meaningOf timestamps p.text = .int p.value) ∧
      (¬Fits p → ∃ x, meaningOf timestamps p.text = .float x) := by
  have bare : p.text.toList.filter (· != '_') = p.text.toList :=
    List.filter_eq_self.mpr fun c member =>
      bne_iff_ne.mpr fun same => p.noSeparator_mem_text (same ▸ member)
  have number : meaningOf timestamps p.text = (numberMeaning? p.text).getD (.text p.text) := by
    obtain ⟨c, head, starts⟩ : ∃ c, p.text.toList.head? = some c ∧
        (c == '+' || c == '-' || isDigit c) = true := by
      obtain ⟨c, rest, same⟩ := List.exists_cons_of_ne_nil
        (List.append_ne_nil_of_right_ne_nil p.sign p.digits_ne_nil)
      rw [p.toList_text, same]
      refine ⟨c, rfl, ?_⟩
      rcases p.isDigit_or_sign c (by rw [p.toList_text, same]; exact List.mem_cons_self) with
        digit | rfl | rfl
      · rw [isDigit_eq, digit, Bool.or_true]
      · rfl
      · rfl
    have noTimestamp : (if timestamps then Timestamp.read? p.text else none) = none := by
      rw [timestamp_read?_text, ite_self]
    rw [meaningOf, head]
    dsimp only
    rw [if_pos starts, fixedMeaning?_text, noTimestamp]
  rw [number, numberMeaning?]
  simp only [bare, String.ofList_toList, integerOf?_text]
  constructor
  · intro fits
    rw [if_pos fits]
    rfl
  · intro large
    obtain ⟨x, read⟩ := p.exists_read_text short
    rw [if_neg large, isFloatText_text, read]
    exact ⟨x, rfl⟩

end DocTable.Yaml
