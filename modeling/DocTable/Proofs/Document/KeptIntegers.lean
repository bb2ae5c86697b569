import DocTable.Proofs.Document.EncodedTrees
import DocTable.Proofs.Yaml.IntegerScalars

/-!
# Integers keep their value

A plain decimal integer in a document takes one of three ways.  If it fits 64 bits it is read as that
integer; if it is too large but still fits without a sign, it means an integer that is not kept as one; and
beyond that it means a double, which is not taken for it either, since a text of digits is recognised.  In
the last two cases the text itself is kept (`Document.ofNode_integer`).

Encoded, an integer is written out and a kept text stays, so each becomes a number whose text stands for
exactly the integer (`Document.encodes_integer`), wherever it stands (`Document.integers_kept`).
-/

namespace DocTable

set_option autoImplicit false

open Number

/-- A plain scalar that is a decimal integer of at most 308 digits. -/
def Yaml.Node.IsInteger (node : Yaml.Node) : Prop :=
  ∃ (line : Nat) (p : IntegerNumeral), p.digits.length ≤ 308 ∧ node = .scalar line "" true p.text

/-! ## Integers as leaves -/

namespace Document

open Yaml

theorem isIntegerText_text (p : IntegerNumeral) : isIntegerText p.text = true := by
  rw [isIntegerText, p.takeSign_text]
  simp only [Bool.and_eq_true, Bool.not_eq_true', List.isEmpty_eq_false_iff, List.all_eq_true]
  exact ⟨p.digits_ne_nil, p.all⟩

/-- **An integer is read as one of 64 bits if it fits, and kept as its text if it does not.** -/
theorem ofNode_integer (p : IntegerNumeral) (short : p.digits.length ≤ 308) (line : Nat) :
    ofNode (.scalar line "" true p.text) =
      .ok (if -9223372036854775808 ≤ p.value ∧ p.value < 9223372036854775808 then .int64 p.value
        else .numeral p.text) := by
  have meaning : Node.meaning "" true p.text = .ok (meaningOf true p.text) := by
    rw [Node.meaning, if_neg (by simp), taggedMeaning, if_neg (by simp)]
    simp
  have tag : (Node.scalar line "" true p.text).shortTag = (meaningOf true p.text).tag.short := rfl
  have scalar : ofScalar (Node.scalar line "" true p.text).shortTag "" true p.text =
      .ok (if -9223372036854775808 ≤ p.value ∧ p.value < 9223372036854775808 then .int64 p.value
        else .numeral p.text) := by
    rw [ofScalar, meaning, tag]
    obtain ⟨whole, double⟩ := meaningOf_text p short true
    by_cases fits : Fits p
    · rw [whole fits]
      simp only [Meaning.tag, StandardTag.short]
      rw [if_neg (by decide), if_neg (by decide), if_pos trivial]
      by_cases word : p.value < 9223372036854775808
      · rw [if_pos word, if_pos ⟨fits.1, word⟩]
      · rw [if_neg word, if_neg fun both => word both.2]
    · obtain ⟨x, means⟩ := double fits
      rw [means]
      simp only [Meaning.tag, StandardTag.short]
      rw [if_neg (by decide), if_neg (by decide), if_neg (by decide), if_pos trivial, isIntegerText_text,
        if_pos rfl, if_neg fun both => fits ⟨both.1, .inl both.2⟩]
  rw [ofNode, scalar]

theorem plainDecimal_text (p : IntegerNumeral) : Encode.plainDecimal p.text = .ok p.text := by
  have decimal : Encode.isDecimal p.text = true :=
    Encode.isDecimal_iff.mpr ⟨p.decimal, p.text_decimal⟩
  have unmarked : Encode.hasExponent p.text = false := by
    rw [← p.text_decimal, p.decimal.hasExponent_text]
    rfl
  rw [Encode.plainDecimal, decimal, unmarked]
  rfl

/-- **An integer becomes a number whose text stands for exactly that integer.** -/
theorem encodes_integer {leaf : Node} {line : Nat} (p : IntegerNumeral) (short : p.digits.length ≤ 308)
    (same : leaf = .scalar line "" true p.text) : ∃ v, ofNode leaf = .ok v ∧
      ∃ n : IntegerNumeral, v.encode = .ok (.n n.text) ∧ n.value = p.value := by
  refine ⟨_, by rw [same, ofNode_integer p short], ?_⟩
  split
  · exact ⟨.ofInt p.value, by rw [IntegerNumeral.text_ofInt]; rfl, IntegerNumeral.value_ofInt _⟩
  · refine ⟨p, ?_, rfl⟩
    rw [Value.encode, Encode.value, plainDecimal_text]

/-- An integer can be encoded. -/
theorem exists_yields_of_isInteger {leaf : Node} (integer : leaf.IsInteger) : ∃ a, Yields leaf a := by
  obtain ⟨line, p, short, same⟩ := integer
  obtain ⟨v, made, n, encoded, -⟩ := encodes_integer p short same
  exact ⟨_, v, made, encoded⟩

/-- **Integers keep their value on the way in.**  Take a text that is a document, of which every scalar that
is no integer can be read.  It is read, field by field.  If every scalar of a field that is no integer can
also be encoded, the field is encoded; and wherever an integer of at most 308 digits stands in it, the
encoded value has a number whose text stands for exactly that integer. -/
theorem integers_kept {text tag : String} {line : Nat} {pairs : List (Node × Node)} {anchors : List Anchor}
    (isMapping : Yaml.read text = .ok (some ⟨.mapping line tag pairs, anchors⟩))
    (readable : ∀ leaf ∈ (Node.mapping line tag pairs).leaves,
      leaf.IsInteger ∨ ∃ v, ofNode leaf = .ok v) :
    ∃ d, parse text = .ok d ∧ List.Forall₂ (fun pair field => field.1 = pair.1.text ∧
      ((∀ leaf ∈ pair.2.leaves, leaf.IsInteger ∨ ∃ v a, ofNode leaf = .ok v ∧ v.encode = .ok a) →
        ∃ a, field.2.encode = .ok a ∧ ∀ path line (p : IntegerNumeral), p.digits.length ≤ 308 →
          (Node.scalar line "" true p.text).StandsIn pair.2 path →
          ∃ n : IntegerNumeral, a.at? path = some (.n n.text) ∧ n.value = p.value)) pairs d := by
  have leaves : ∀ leaf ∈ Node.leavesOfPairs pairs, ∃ v, ofNode leaf = .ok v := by
    intro leaf member
    rcases readable leaf member with integer | made
    · obtain ⟨a, v, made, -⟩ := exists_yields_of_isInteger integer
      exact ⟨v, made⟩
    · exact made
  obtain ⟨d, made⟩ := exists_ofPairs leaves
  refine ⟨d, by rw [parse, isMapping]; exact made, (ofPairs_eq_ok_iff.mp made).imp ?_⟩
  rintro ⟨key, node⟩ ⟨name, v⟩ ⟨sameName, madeNode⟩
  refine ⟨sameName.symm, fun encodable => ?_⟩
  have yielding : ∀ leaf ∈ node.leaves, ∃ a, Yields leaf a := by
    intro leaf member
    rcases encodable leaf member with integer | ⟨v, a, made, encoded⟩
    · exact exists_yields_of_isInteger integer
    · exact ⟨a, v, made, encoded⟩
  obtain ⟨a, w, again, encoded⟩ := exists_yields yielding
  cases madeNode.symm.trans again
  refine ⟨a, encoded, fun path line p short stands => ?_⟩
  obtain ⟨b, ⟨u, madeThere, encodedThere⟩, found⟩ := yields_of_standsIn stands ⟨v, again, encoded⟩
  have leaf : Node.scalar line "" true p.text = .scalar line "" true p.text := rfl
  obtain ⟨_, madeLeaf, n, encodedLeaf, value⟩ := encodes_integer p short leaf
  cases madeThere.symm.trans madeLeaf
  cases encodedThere.symm.trans encodedLeaf
  exact ⟨n, found, value⟩

/-- A large integer stands in an object inside a list. -/
theorem integers_kept_of_order :
    let text := "\x7b\"lines\": [7, \x7b\"no\": -99999999999999999999\x7d], \"paid\": true\x7d"
    ∃ d v a, parse text = .ok d ∧ ("lines", v) ∈ d ∧ v.encode = .ok a ∧
      ∃ n : IntegerNumeral, a.at? ["1", "no"] = some (.n n.text) ∧ n.value = -99999999999999999999 := by
  intro text
  let seven := (IntegerNumeral.ofInt 7).text
  let large := (IntegerNumeral.ofInt (-99999999999999999999)).text
  have read : (Yaml.read text).toOption = some (some ⟨.mapping 1 "" [
      (.scalar 1 "!!str" false "lines", .sequence 1 "" [.scalar 1 "" true seven,
        .mapping 1 "" [(.scalar 1 "!!str" false "no", .scalar 1 "" true large)]]),
      (.scalar 1 "!!str" false "paid", .scalar 1 "" true "true")], []⟩) := by decide +kernel
  have few : (IntegerNumeral.ofInt 7).digits.length ≤ 308 ∧
      (IntegerNumeral.ofInt (-99999999999999999999)).digits.length ≤ 308 := by decide +kernel
  have listed : ∀ leaf ∈ [Node.scalar 1 "" true seven, .scalar 1 "" true large], leaf.IsInteger :=
    List.forall_mem_cons.mpr ⟨⟨1, _, few.1, rfl⟩, List.forall_mem_singleton.mpr ⟨1, _, few.2, rfl⟩⟩
  obtain ⟨d, parsed, fields⟩ := integers_kept (Outcome.ok_of_toOption read) (List.forall_mem_append.mpr
    ⟨fun leaf member => .inl (listed leaf member), List.forall_mem_singleton.mpr (.inr ⟨_, rfl⟩)⟩)
  obtain ⟨⟨name, v⟩, rest, ⟨sameName, kept⟩, -, rfl⟩ := List.forall₂_cons_left_iff.mp fields
  obtain ⟨a, encoded, places⟩ := kept fun leaf member => .inl (listed leaf member)
  obtain ⟨n, found, value⟩ := places ["1", "no"] _ _ few.2
    (@Node.StandsIn.item _ _ _ _ 1 _ _ rfl
      (@Node.StandsIn.field _ _ _ [] [] _ _ _ (List.forall_mem_nil _) .here))
  cases sameName
  exact ⟨_, v, a, parsed, List.mem_cons_self, encoded, n, found,
    value.trans (IntegerNumeral.value_ofInt _)⟩

end Document

end DocTable
