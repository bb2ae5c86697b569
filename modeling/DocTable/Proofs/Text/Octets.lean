import DocTable.Text.Bytes

/-!
# Texts and their octets

Octets are the octets of one text at most (`Text.utf8_injective`).  Reading them gives this text
(`Text.read_eq_ok_iff`), and gives them back as they are exactly if there is none
(`Text.read_eq_error_iff`).

The other reading, octet by octet, agrees with this one: where every octet belongs to a character, the
octets are those of the text of these characters (`Text.flatMap_of_marksFrom`).  So in octets that are no
text some octet belongs to none (`Text.Raw.marks_ne`).
-/

namespace DocTable.Text

set_option autoImplicit false

theorem utf8_injective {a b : String} (same : utf8 a = utf8 b) : a = b := by
  apply String.toByteArray_inj.mp
  apply ByteArray.ext
  exact Array.toList_inj.mp same

variable {bytes : Bytes}

theorem read_eq_ok_iff {text : String} : read bytes = .ok text ↔ utf8 text = bytes := by
  have valid : ∀ t, utf8 t = bytes → (⟨bytes.toArray⟩ : ByteArray).IsValidUTF8 := by
    rintro t rfl
    exact t.isValidUTF8
  rw [read]
  split
  · rename_i isValid
    have octets : utf8 (String.ofByteArray ⟨bytes.toArray⟩ isValid) = bytes := rfl
    exact ⟨fun same => Except.ok.inj same ▸ octets,
      fun same => congrArg _ (utf8_injective (octets.trans same.symm))⟩
  · rename_i notValid
    exact ⟨nofun, fun same => absurd (valid text same) notValid⟩

theorem read_eq_error_iff {raw : Raw} : read bytes = .error raw ↔ raw.octets = bytes := by
  cases done : read bytes with
  | ok text => exact ⟨nofun, fun same => absurd (read_eq_ok_iff.mp done) (same ▸ raw.noText text)⟩
  | error other =>
    have octets : other.octets = bytes := by
      rw [read] at done
      split at done
      · cases done
      · cases done
        rfl
    rw [Except.error.injEq, Raw.ext_iff, octets, eq_comm]

/-! ## Characters of octets -/

theorem octet_eq {n : Nat} {b : UInt8} (same : n = b.toNat) : UInt8.ofNat n = b := by
  rw [same, UInt8.ofNat_toNat]

theorem val_ofNat {n : Nat} (valid : n.isValidChar) : (Char.ofNat n).val.toNat = n := by
  rw [Char.ofNat, dif_pos valid]
  rfl

/-- A limit that one first octet has of its own. -/
theorem toNat_limit (first own limit usual : UInt8) : (if first == own then limit else usual).toNat =
    if first.toNat = own.toNat then limit.toNat else usual.toNat := by
  simp only [beq_iff_eq, UInt8.toNat_inj]
  split <;> rfl

/-- An octet that is not replaced starts the octets of its character. -/
theorem leadingChar_spec (first : UInt8) (rest : Bytes) : leadingChar first rest = (replacement, 0) ∨
    String.utf8EncodeChar (leadingChar first rest).1 = first :: rest.take (leadingChar first rest).2 := by
  fun_cases leadingChar first rest
  case case1 small =>
    have small : first.toNat < 128 := small
    refine .inr ?_
    rw [String.utf8EncodeChar, val_ofNat (.inl (by omega)), if_pos (by omega), UInt8.ofNat_toNat]
    rfl
  case case2 tail _ b more within =>
    simp only [Bool.and_eq_true, decide_eq_true_eq, isContinuation, UInt8.le_iff_toNat_le, UInt8.reduceToNat]
      at within
    obtain ⟨⟨low, high⟩, lowB, highB⟩ := within
    refine .inr ?_
    simp only [tail]
    rw [String.utf8EncodeChar, val_ofNat (.inl (by omega)), if_neg (by omega), if_pos (by omega),
      octet_eq (b := first) (by omega), octet_eq (b := b) (by omega)]
    rfl
  case case3 tail _ b _ c more low high within =>
    simp only [Bool.and_eq_true, decide_eq_true_eq, isContinuation, UInt8.le_iff_toNat_le, low, high, toNat_limit,
      UInt8.reduceToNat] at within
    obtain ⟨⟨⟨⟨lowF, highF⟩, lowB⟩, highB⟩, lowC, highC⟩ := within
    have above : 128 ≤ b.toNat ∧ (first.toNat = 224 → 160 ≤ b.toNat) := by split at lowB <;> omega
    have below : b.toNat ≤ 191 ∧ (first.toNat = 237 → b.toNat ≤ 159) := by split at highB <;> omega
    refine .inr ?_
    simp only [tail]
    rw [String.utf8EncodeChar, val_ofNat (by unfold Nat.isValidChar; omega), if_neg (by omega), if_neg (by omega),
      if_pos (by omega), octet_eq (b := first) (by omega), octet_eq (b := b) (by omega), octet_eq (b := c) (by omega)]
    rfl
  case case4 tail _ b _ c _ _ _ d more low high within =>
    simp only [Bool.and_eq_true, decide_eq_true_eq, isContinuation, UInt8.le_iff_toNat_le, low, high, toNat_limit,
      UInt8.reduceToNat] at within
    obtain ⟨⟨⟨⟨⟨lowF, highF⟩, lowB⟩, highB⟩, lowC, highC⟩, lowD, highD⟩ := within
    have above : 128 ≤ b.toNat ∧ (first.toNat = 240 → 144 ≤ b.toNat) := by split at lowB <;> omega
    have below : b.toNat ≤ 191 ∧ (first.toNat = 244 → b.toNat ≤ 143) := by split at highB <;> omega
    refine .inr ?_
    simp only [tail]
    rw [String.utf8EncodeChar, val_ofNat (by unfold Nat.isValidChar; omega), if_neg (by omega), if_neg (by omega),
      if_neg (by omega), octet_eq (b := first) (by omega), octet_eq (b := b) (by omega), octet_eq (b := c) (by omega),
      octet_eq (b := d) (by omega)]
    rfl
  all_goals exact .inl rfl

theorem utf8_eq_flatMap (text : String) : utf8 text = text.toList.flatMap String.utf8EncodeChar := by
  have octets : text.toByteArray = text.toList.utf8Encode := by
    rw [← String.toByteArray_ofList, String.ofList_toList]
  rw [utf8, String.toUTF8_eq_toByteArray, octets, List.utf8Encode, List.data_toByteArray]

/-- Octets of which each belongs to a character are those of the characters. -/
theorem flatMap_of_marksFrom {pending : Nat} {cs : List Char} (marks : marksFrom pending bytes = cs.map some) :
    cs.flatMap String.utf8EncodeChar = bytes.drop pending := by
  fun_induction marksFrom pending bytes generalizing cs with
  | case1 =>
    obtain rfl := List.map_eq_nil_iff.mp marks.symm
    rw [List.drop_nil, List.flatMap_nil]
  | case2 pending _ rest ih => exact ih marks
  | case3 b rest c used leads ih =>
    cases cs with
    | nil => cases marks
    | cons d cs =>
      obtain ⟨first, others⟩ := List.cons_eq_cons.mp marks
      split at first
      · cases first
      · rename_i isChar
        cases first
        rcases leadingChar_spec b rest with replaced | octets
        · rw [leads] at replaced
          exact absurd (Prod.mk.inj replaced) isChar
        · rw [leads] at octets
          rw [List.flatMap_cons, octets, ih others, List.cons_append, List.take_append_drop, List.drop_zero]

theorem Raw.marks_ne (raw : Raw) (text : String) : raw.marks ≠ text.toList.map some :=
  fun marks => raw.noText text (by rw [utf8_eq_flatMap, flatMap_of_marksFrom marks, List.drop_zero])

end DocTable.Text
