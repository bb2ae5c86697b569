import DocTable.Proofs.Text.Octets
import DocTable.Table.Schema
import DocTable.Attribute.Compare
import Mathlib

/-!
# The order of key values

Values of one kind are ordered by the comparison of attribute values as by a linear order, as long as
all numbers among them can be read (`AttributeValue.compares_rank`).  Texts and byte strings are ordered
by their octets.  A number is ordered by its sign, then by its exponent and its mantissa, which turn round
for negative numbers; the two zeros share a rank (`Number.Extended.compares_rank`).
-/

namespace DocTable

set_option autoImplicit false

open Number

/-! ## Comparisons of pairs -/

/-- Comparing first parts and then second parts is comparing in lexicographic order. -/
theorem compares_then {α β : Type} [Preorder α] [Preorder β] {first second : Ordering} {a b : α}
    {c d : β} (compared : first.Compares a b) (comparedNext : second.Compares c d) :
    (first.then second).Compares (toLex (a, c)) (toLex (b, d)) := by
  cases first with
  | lt => exact Prod.Lex.toLex_lt_toLex.mpr (.inl compared)
  | gt => exact Prod.Lex.toLex_lt_toLex.mpr (.inl compared)
  | eq =>
    have same : a = b := compared
    subst same
    cases second with
    | lt => exact Prod.Lex.toLex_lt_toLex.mpr (.inr ⟨rfl, comparedNext⟩)
    | gt => exact Prod.Lex.toLex_lt_toLex.mpr (.inr ⟨rfl, comparedNext⟩)
    | eq =>
      have sameNext : c = d := comparedNext
      rw [sameNext]
      exact rfl

theorem compares_neg {order : Ordering} {a b : ℤ} (compared : order.Compares a b) :
    order.Compares (-b) (-a) := by
  cases order with
  | lt => exact neg_lt_neg compared
  | gt => exact neg_lt_neg compared
  | eq => exact congrArg _ (Eq.symm compared)

theorem compares_natCast (m n : ℕ) : (compare m n).Compares (m : ℤ) (n : ℤ) := by
  have compared : (compare m n).Compares m n := (compare_iff m n).mp rfl
  cases order : compare m n with
  | lt =>
    rw [order] at compared
    exact Int.ofNat_lt.mpr compared
  | gt =>
    rw [order] at compared
    exact Int.ofNat_lt.mpr compared
  | eq =>
    rw [order] at compared
    exact congrArg _ compared

/-! ## Numbers -/

namespace Number.Extended

/-- The rank of a number: where it stands on the line, then its exponent and its mantissa as far as
they count there. -/
def rank : Extended → ℤ ×ₗ ℤ ×ₗ ℤ
  | .infinite negative => toLex (if negative then -2 else 2, toLex (0, 0))
  | .finite negative m e =>
    if m = 0 then toLex (0, toLex (0, 0))
    else if negative then toLex (-1, toLex (-e, -(m : ℤ)))
    else toLex (1, toLex (e, (m : ℤ)))

/-- Numbers are compared by their ranks. -/
theorem compares_rank (x y : Extended) : (x.cmp y).Compares x.rank y.rank := by
  -- numbers at different places of the line
  have apart : ∀ {a b : ℤ} {v w : ℤ ×ₗ ℤ}, a < b → toLex (a, v) < toLex (b, w) :=
    fun less => Prod.Lex.toLex_lt_toLex.mpr (.inl less)
  cases x with
  | infinite a =>
    cases y with
    | infinite b => cases a <;> cases b <;> first | rfl | exact apart (by decide)
    | finite b n d => cases a <;> simp only [cmp, rank] <;> split_ifs <;> exact apart (by decide)
  | finite a m e =>
    cases y with
    | infinite b => cases b <;> simp only [cmp, rank] <;> split_ifs <;> exact apart (by decide)
    | finite b n d =>
      by_cases zeroM : m = 0
      · by_cases zeroN : n = 0
        · simp only [cmp, rank, zeroM, zeroN, and_self, if_true]
          exact rfl
        · cases b <;> simp only [cmp, rank, zeroM, zeroN, and_false, if_true, if_false] <;>
            exact apart (by decide)
      · by_cases zeroN : n = 0
        · cases a <;> simp only [cmp, rank, zeroM, zeroN, false_and, if_true, if_false] <;>
            exact apart (by decide)
        · have magnitude : ∀ {m n : ℕ} {e d : ℤ}, m ≠ 0 → n ≠ 0 →
              compareMagnitude m e n d = Ordering.eq.then ((compare e d).then (compare m n)) := by
            intro m n e d positiveM positiveN
            simp [compareMagnitude, positiveM, positiveN]
          have exponents : ∀ e d : ℤ, (compare e d).Compares e d := fun e d => (compare_iff e d).mp rfl
          simp only [cmp, rank, zeroM, zeroN, and_self, if_false]
          cases a <;> cases b
          · rw [magnitude zeroM zeroN]
            exact compares_then rfl (compares_then (exponents e d) (compares_natCast m n))
          · exact apart (by decide)
          · exact apart (by decide)
          · rw [magnitude zeroN zeroM]
            exact compares_then rfl
              (compares_then (compares_neg (exponents d e)) (compares_neg (compares_natCast n m)))

end Number.Extended

/-! ## Octets -/

theorem compares_bytes (a b : Bytes) :
    (compareBytes a b).Compares (a.map UInt8.toNat) (b.map UInt8.toNat) := by
  induction a generalizing b with
  | nil =>
    cases b with
    | nil => exact rfl
    | cons y ys => exact List.nil_lt_cons _ _
  | cons x xs ih =>
    cases b with
    | nil => exact List.nil_lt_cons _ _
    | cons y ys =>
      rw [compareBytes, List.map_cons, List.map_cons]
      split
      · rename_i less
        exact List.cons_lt_cons_iff.mpr (.inl less)
      · rename_i notLess
        split
        · rename_i greater
          exact List.cons_lt_cons_iff.mpr (.inl greater)
        · rename_i notGreater
          have same : x.toNat = y.toNat :=
            le_antisymm (not_lt.mp notGreater) (not_lt.mp notLess)
          rw [same]
          cases order : compareBytes xs ys with
          | lt =>
            have tail := ih ys
            rw [order] at tail
            exact List.cons_lt_cons_iff.mpr (.inr ⟨rfl, tail⟩)
          | gt =>
            have tail := ih ys
            rw [order] at tail
            exact List.cons_lt_cons_iff.mpr (.inr ⟨rfl, tail⟩)
          | eq =>
            have tail := ih ys
            rw [order] at tail
            exact congrArg _ tail

/-! ## Key values -/

namespace AttributeValue

/-- A value of a kind whose values are ordered; a number has to be one that can be read. -/
def IsOrdered (kind : String) (v : AttributeValue) : Prop :=
  v.keyKind? = some kind ∧ ∀ text, v = .n text → ∃ x, Extended.read? text = some x

/-- The rank of a value among the ordered values of its kind. -/
def rank : AttributeValue → (ℤ ×ₗ ℤ ×ₗ ℤ) ×ₗ List ℕ
  | .n text => toLex (((Extended.read? text).map Extended.rank).getD 0, [])
  | .b bytes => toLex (0, bytes.map UInt8.toNat)
  | v => toLex (0, (v.textOctets?.getD []).map UInt8.toNat)

/-- A value of the kind of texts has octets. -/
theorem textOctets?_of_keyKind? {v : AttributeValue} (kind : v.keyKind? = some "S") :
    ∃ octets, v.textOctets? = some octets := by
  cases v with
  | s text => exact ⟨_, rfl⟩
  | raw octets => exact ⟨_, rfl⟩
  | _ => simp [keyKind?] at kind

/-- Texts are told apart by their octets. -/
theorem eq_iff_of_textOctets? {v w : AttributeValue} {x y : Bytes} (octetsV : v.textOctets? = some x)
    (octetsW : w.textOctets? = some y) : v = w ↔ x = y := by
  refine ⟨fun same => Option.some.inj (octetsV.symm.trans (same ▸ octetsW)), fun same => ?_⟩
  subst same
  cases v with
  | s t =>
    cases octetsV
    cases w with
    | s u => exact congrArg _ (Text.utf8_injective (Option.some.inj octetsW)).symm
    | raw u => exact absurd (Option.some.inj octetsW).symm (u.noText t)
    | _ => cases octetsW
  | raw t =>
    cases octetsV
    cases w with
    | s u => exact absurd (Option.some.inj octetsW) (t.noText u)
    | raw u => exact congrArg _ (Text.Raw.ext (Option.some.inj octetsW)).symm
    | _ => cases octetsW
  | _ => cases octetsV

/-- Texts are compared by their octets. -/
theorem compares_texts {v w : AttributeValue} {x y : Bytes} (octetsV : v.textOctets? = some x)
    (octetsW : w.textOctets? = some y) :
    v.compare? w = some (compareBytes x y) ∧ v.rank = toLex (0, x.map UInt8.toNat) := by
  cases v <;> cases octetsV <;> cases w <;> cases octetsW <;> exact ⟨rfl, rfl⟩

/-- The ordered values of a kind are compared by their ranks. -/
theorem compares_rank {kind : String} {v w : AttributeValue} (orderedV : v.IsOrdered kind)
    (orderedW : w.IsOrdered kind) :
    ∃ order : Ordering, v.compare? w = some order ∧ order.Compares v.rank w.rank := by
  obtain ⟨kindV, readV⟩ := orderedV
  obtain ⟨kindW, readW⟩ := orderedW
  have kinds : v.keyKind? = w.keyKind? := kindV.trans kindW.symm
  by_cases text : v.keyKind? = some "S"
  · obtain ⟨x, octetsV⟩ := textOctets?_of_keyKind? text
    obtain ⟨y, octetsW⟩ := textOctets?_of_keyKind? (kinds.symm.trans text)
    obtain ⟨compared, rankV⟩ := compares_texts octetsV octetsW
    refine ⟨Ordering.eq.then (compareBytes x y), compared, ?_⟩
    rw [rankV, (compares_texts octetsW octetsV).2]
    exact compares_then rfl (compares_bytes x y)
  · cases v with
    | n x =>
      cases w with
      | n y =>
        obtain ⟨a, foundA⟩ := readV x rfl
        obtain ⟨b, foundB⟩ := readW y rfl
        refine ⟨(a.cmp b).then .eq, ?_, compares_then ?_ rfl⟩
        · simp [compare?, compareNumbers?, foundA, foundB]
        · simpa [foundA, foundB] using Extended.compares_rank a b
      | _ => simp [keyKind?] at kinds
    | b x =>
      cases w with
      | b y =>
        exact ⟨Ordering.eq.then (compareBytes x y), rfl, compares_then rfl (compares_bytes x y)⟩
      | _ => simp [keyKind?] at kinds
    | s | raw => exact absurd rfl text
    | _ => cases kindV

end AttributeValue

end DocTable
