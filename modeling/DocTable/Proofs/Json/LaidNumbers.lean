import DocTable.Proofs.Json.Layout
import DocTable.Proofs.Keyed
import DocTable.Proofs.Number.PlainDecimals
import DocTable.Proofs.Outcome
import DocTable.Value.Interchange

/-!
# Numbers in shown values

A number in the JSON of a dynamic value is an integer, a kept text that the format accepts, or the
shortest form of a double.  All of them are made of digits, signs, points and exponent marks
(`IsNumberChar`), so a comma or a line break ends them and none starts like another value.  Therefore
the JSON of every dynamic value is laid out so that it can be told apart (`Interchange.laid_value`).
-/

namespace DocTable

set_option autoImplicit false

open Number

/-- The characters that numbers are made of. -/
def Json.IsNumberChar (c : Char) : Prop := c.isDigit = true ∨ c ∈ ['+', '-', '.', 'e', 'E']

namespace Json

theorem kindOf_of_isNumberChar {c : Char} (plain : IsNumberChar c) :
    kindOf c = 5 ∧ c ≠ ',' ∧ c ≠ '\n' := by
  have other {d : Char} (noDigit : d.isDigit = false) (noMark : d ∉ ['+', '-', '.', 'e', 'E']) :
      c ≠ d := by
    rintro rfl
    exact plain.elim (fun digit => Bool.false_ne_true (noDigit.symm.trans digit)) noMark
  refine ⟨?_, other rfl (by decide), other rfl (by decide)⟩
  unfold kindOf
  split
  · exact absurd rfl (other (by decide) (by decide))
  · exact absurd rfl (other (by decide) (by decide))
  · exact absurd rfl (other (by decide) (by decide))
  · exact absurd rfl (other (by decide) (by decide))
  · exact absurd rfl (other (by decide) (by decide))
  · exact absurd rfl (other (by decide) (by decide))
  · rfl

/-- A text of such characters is laid out as a number. -/
theorem isLaidNumber_of_chars {text : String} (filled : text.toList ≠ [])
    (plain : ∀ c ∈ text.toList, IsNumberChar c) : IsLaidNumber text := by
  refine ⟨?_, fun c member => (kindOf_of_isNumberChar (plain c member)).2⟩
  obtain ⟨c, rest, chars⟩ := List.exists_cons_of_ne_nil filled
  exact ⟨c, by rw [chars]; rfl, (kindOf_of_isNumberChar (plain c (chars ▸ List.mem_cons_self))).1⟩

theorem isNumberChar_of_isDigit {cs : List Char} (digits : ∀ c ∈ cs, c.isDigit = true) :
    ∀ c ∈ cs, IsNumberChar c := fun c member => .inl (digits c member)

theorem isNumberChar_mark {c d : Char} (mark : d ∈ ['+', '-', '.', 'e', 'E']) (same : c = d) :
    IsNumberChar c := .inr (same ▸ mark)

theorem isLaidNumber_toString (n : Int) : IsLaidNumber (toString n) := by
  refine isLaidNumber_of_chars ?_ fun c member => ?_
  · rw [toList_toString]
    exact List.append_ne_nil_of_right_ne_nil _ (List.ne_nil_of_length_pos Nat.length_toDigits_pos)
  · rw [toList_toString] at member
    rcases List.mem_append.mp member with sign | digit
    · split at sign
      · rw [List.mem_singleton.mp sign]
        exact .inr (by decide)
      · cases sign
    · exact .inl (isDigit_toDigits _ c digit)

end Json

namespace Number

open Json

theorem Decimal.isNumberChar_positional (d : Decimal) :
    d.positional.toList ≠ [] ∧ ∀ c ∈ d.positional.toList, IsNumberChar c := by
  obtain ⟨digits, fraction?, text, nonempty, all, allBehind, -, -⟩ := d.exists_positional
  rw [text, String.toList_ofList]
  refine ⟨List.append_ne_nil_of_left_ne_nil nonempty _, fun c member => ?_⟩
  rcases List.mem_append.mp member with digit | behind
  · exact .inl (all c digit)
  · cases fraction? with
    | none => cases behind
    | some fraction =>
      rcases List.mem_cons.mp behind with rfl | digit
      · exact .inr (by decide)
      · exact .inl (allBehind c digit)

theorem Decimal.isNumberChar_scientific (width : Nat) (d : Decimal) :
    (d.scientific width).toList ≠ [] ∧ ∀ c ∈ (d.scientific width).toList, IsNumberChar c := by
  have chars : d.chars = Nat.toDigits 10 d.digits := Nat.toList_repr
  have exponent : (toString (d.point - 1).natAbs).toList = Nat.toDigits 10 (d.point - 1).natAbs :=
    Nat.toList_repr
  have digit : ∀ c ∈ d.chars, IsNumberChar c := chars ▸ isNumberChar_of_isDigit (isDigit_toDigits _)
  have fraction : ∀ c ∈ (if d.chars.length ≤ 1 then "" else "." ++ String.ofList (d.chars.drop 1)).toList,
      IsNumberChar c := by
    split
    · simp
    · intro c member
      simp only [String.toList_append, String.toList_ofList] at member
      rcases List.mem_append.mp member with point | behind
      · exact isNumberChar_mark (d := '.') (by decide) (by simpa using point)
      · exact digit c (List.mem_of_mem_drop behind)
  have sign : ∀ c ∈ (if d.point - 1 < 0 then "-" else "+").toList, IsNumberChar c := by
    split
    · exact fun c member => isNumberChar_mark (d := '-') (by decide) (by simpa using member)
    · exact fun c member => isNumberChar_mark (d := '+') (by decide) (by simpa using member)
  have mark : ∀ c ∈ "e".toList, IsNumberChar c := fun c member =>
    isNumberChar_mark (d := 'e') (by decide) (by simpa using member)
  rw [Decimal.scientific]
  simp only [String.toList_append, String.toList_ofList, List.forall_mem_append, exponent]
  refine ⟨by simp, ⟨⟨⟨⟨fun c member => digit c (List.mem_of_mem_take member), fraction⟩, mark⟩, sign⟩,
    fun c member => ?_⟩, isNumberChar_of_isDigit (isDigit_toDigits _)⟩
  rw [List.eq_of_mem_replicate member]
  exact .inl rfl

/-- The interchange form of a number is laid out as one. -/
theorem Format.isLaidNumber_interchange (f : Format) (bits : Nat) :
    IsLaidNumber (f.interchange bits) := by
  have signed : ∀ {text : String} (negative : Bool),
      (text.toList ≠ [] ∧ ∀ c ∈ text.toList, IsNumberChar c) →
      IsLaidNumber (if negative then "-" ++ text else text) := by
    intro text negative plain
    cases negative
    · exact isLaidNumber_of_chars plain.1 plain.2
    · refine isLaidNumber_of_chars (by simp) fun c member => ?_
      rw [if_pos rfl, String.toList_append] at member
      rcases List.mem_append.mp member with sign | other
      · exact isNumberChar_mark (d := '-') (by decide) (by simpa using sign)
      · exact plain.2 c other
  rw [interchange, write]
  split
  · exact ⟨⟨'N', by simp, rfl⟩, by simp⟩
  · split
    · split
      · exact ⟨⟨'-', by simp, rfl⟩, by simp⟩
      · exact ⟨⟨'+', by simp, rfl⟩, by simp⟩
    · refine signed _ ?_
      dsimp only
      split
      · refine ⟨by simp, fun c member => .inl ?_⟩
        rw [show c = '0' by simpa using member]
        rfl
      · split
        · exact Decimal.isNumberChar_scientific _ _
        · exact Decimal.isNumberChar_positional _

end Number

namespace Interchange

open Json

/-! ## Kept numbers -/

theorem isNumberChar_of_dropDigits? {cs rest : List Char} (dropped : dropDigits? cs = some rest)
    (plain : ∀ c ∈ rest, IsNumberChar c) : cs ≠ [] ∧ ∀ c ∈ cs, IsNumberChar c := by
  cases cs with
  | nil => cases dropped
  | cons c cs =>
    rw [dropDigits?] at dropped
    split at dropped
    · cases dropped
      refine ⟨List.cons_ne_nil _ _, ?_⟩
      rw [← List.takeWhile_append_dropWhile (p := isDigit) (l := c :: cs)]
      exact List.forall_mem_append.mpr ⟨isNumberChar_of_isDigit fun d member =>
        List.all_eq_true.mp List.all_takeWhile d member, plain⟩
    · cases dropped

theorem isNumberChar_of_takeSign {cs : List Char} (plain : ∀ c ∈ (takeSign cs).2, IsNumberChar c) :
    ∀ c ∈ cs, IsNumberChar c := by
  unfold takeSign at plain
  split at plain
  · exact List.forall_mem_cons.mpr ⟨.inr (by decide), plain⟩
  · exact List.forall_mem_cons.mpr ⟨.inr (by decide), plain⟩
  · exact plain

theorem isNumberChar_of_isExponent {cs : List Char} (exponent : isExponent cs = true) :
    ∀ c ∈ cs, IsNumberChar c := by
  cases cs with
  | nil => exact List.forall_mem_nil _
  | cons mark rest =>
    simp only [isExponent, Bool.and_eq_true, Bool.or_eq_true, beq_iff_eq] at exponent
    obtain ⟨letter, digits⟩ := exponent
    refine List.forall_mem_cons.mpr ⟨.inr ?_, isNumberChar_of_takeSign
      (isNumberChar_of_dropDigits? digits (List.forall_mem_nil _)).2⟩
    rcases letter with rfl | rfl <;> decide

theorem isNumberChar_of_dropFraction? {cs rest : List Char} (dropped : dropFraction? cs = some rest)
    (exponent : isExponent rest = true) : ∀ c ∈ cs, IsNumberChar c := by
  have plain := isNumberChar_of_isExponent exponent
  unfold dropFraction? at dropped
  split at dropped
  · exact List.forall_mem_cons.mpr ⟨.inr (by decide), (isNumberChar_of_dropDigits? dropped plain).2⟩
  · cases dropped
    exact plain

theorem isLaidNumber_of_body {text : String} {body : List Char}
    (signed : text.toList = body ∨ text.toList = '-' :: body)
    (plain : body ≠ [] ∧ ∀ c ∈ body, IsNumberChar c) : IsLaidNumber text := by
  rcases signed with bare | negative
  · exact isLaidNumber_of_chars (bare ▸ plain.1) (bare ▸ plain.2)
  · refine isLaidNumber_of_chars (by rw [negative]; exact List.cons_ne_nil _ _) ?_
    rw [negative]
    exact List.forall_mem_cons.mpr ⟨.inr (by decide), plain.2⟩

/-- A kept text that the format accepts is laid out as a number. -/
theorem isLaidNumber_of_isNumber {text : String} (accepted : isNumber text = true) :
    IsLaidNumber text := by
  rw [isNumber] at accepted
  split at accepted
  · rename_i whole
    obtain ⟨behind, whole, fraction⟩ := Option.bind_eq_some_iff.mp whole
    have behindPlain := isNumberChar_of_dropFraction? fraction accepted
    -- A zero in front stands alone; otherwise all the digits in front do.
    split at whole
    · rename_i zero
      cases whole
      have plain : ∀ c ∈ '0' :: behind, IsNumberChar c :=
        List.forall_mem_cons.mpr ⟨.inl rfl, behindPlain⟩
      split at zero
      · rename_i chars
        exact isLaidNumber_of_body (.inr chars) ⟨zero ▸ List.cons_ne_nil _ _, zero ▸ plain⟩
      · exact isLaidNumber_of_body (.inl zero) ⟨List.cons_ne_nil _ _, plain⟩
    · have plain := isNumberChar_of_dropDigits? whole behindPlain
      split at plain
      · rename_i chars
        exact isLaidNumber_of_body (.inr chars) plain
      · exact isLaidNumber_of_body (.inl rfl) plain
  · cases accepted

/-! ## Values -/

theorem laid_ofList {shown : List (String × Json)} (laid : AllMembersLaid shown) :
    AllMembersLaid (Keyed.ofList shown) :=
  allMembersLaid_iff.mpr fun m member => (Keyed.mem_insertAll member).elim
    (fun none => absurd none List.not_mem_nil) (allMembersLaid_iff.mp laid m)

mutual
theorem laid_attributeValue : ∀ v : AttributeValue, (attributeValue v).Laid
  | .m fields => ⟨laid_attributeFields fields, trivial⟩
  | .l items => ⟨laid_attributeItems items, trivial⟩
  | .ss _ | .ns _ | .bs _ => ⟨laid_strings _, trivial⟩
  | .s _ | .raw _ | .n _ | .b _ | .bool _ | .null _ => ⟨trivial, trivial⟩
  | .unset => trivial
  | .unknown => ⟨trivial, trivial, trivial⟩

theorem laid_attributeFields : ∀ fields : List (String × AttributeValue),
    AllMembersLaid (attributeFields fields)
  | [] => trivial
  | (_, v) :: rest => ⟨laid_attributeValue v, laid_attributeFields rest⟩

theorem laid_attributeItems : ∀ items : List AttributeValue, AllLaid (attributeItems items)
  | [] => trivial
  | v :: rest => ⟨laid_attributeValue v, laid_attributeItems rest⟩
end

theorem laid_double {x : Binary64} {j : Json} (made : double x = .ok j) : j.Laid := by
  rw [double] at made
  split at made
  · cases made
    exact Format.isLaidNumber_interchange _ _
  · cases made

theorem laid_doubles : ∀ {xs : List Binary64} {items : List Json}, doubles xs = .ok items → AllLaid items
  | [], _, made => by cases made; trivial
  | x :: rest, _, made => by
    obtain ⟨first, head, made⟩ := Outcome.ok_of_bind made
    obtain ⟨tail, others, made⟩ := Outcome.ok_of_bind made
    cases made
    exact ⟨laid_double head, laid_doubles others⟩

theorem laid_numeral {text : String} {j : Json} (made : numeral text = .ok j) : j.Laid := by
  rw [numeral] at made
  split at made
  · cases made
    exact isLaidNumber_of_chars (by simp) fun c member =>
      .inl (by rw [show c = '0' by simpa using member]; rfl)
  · split at made
    · rename_i accepted
      cases made
      exact isLaidNumber_of_isNumber accepted
    · cases made

mutual
/-- **The JSON of every dynamic value is laid out.** -/
theorem laid_value : ∀ {v : Value} {j : Json}, value v = .ok j → j.Laid
  | .null, _, made | .bool _, _, made | .text _, _, made | .raw _, _, made | .bytes _, _, made
  | .literal _, _, made | .comparison _ _, _, made | .numberedMap, _, made | .attributes none, _, made
  | .nullReference, _, made | .namedText _, _, made => by cases made; trivial
  | .integer _ n, _, made | .namedInteger n, _, made => by
    cases made; exact isLaidNumber_toString n
  | .namedUnsigned n, _, made => by cases made; exact isLaidNumber_toString n
  | .double x, _, made | .namedDouble x, _, made => laid_double made
  | .single x, _, made => by
    rw [value] at made
    split at made
    · cases made
      exact Format.isLaidNumber_interchange _ _
    · cases made
  | .numeral t, _, made => laid_numeral made
  | .document fields, _, made => by
    obtain ⟨shown, members, made⟩ := Outcome.ok_of_bind made
    cases made
    exact laid_documentFields members
  | .map fields, _, made => by
    obtain ⟨shown, named, made⟩ := Outcome.ok_of_bind made
    cases made
    exact laid_members named
  | .list items, _, made => by
    obtain ⟨shown, listed, made⟩ := Outcome.ok_of_bind made
    cases made
    exact laid_listItems listed
  | .texts items, _, made | .byteStrings items, _, made => by
    cases made; exact laid_strings _
  | .doubles items, _, made => by
    obtain ⟨shown, listed, made⟩ := Outcome.ok_of_bind made
    cases made
    exact laid_doubles listed
  | .integers items, _, made => by
    cases made
    exact allLaid_iff.mpr (List.forall_mem_map.mpr fun n _ => isLaidNumber_toString n)
  | .textMap fields, _, made => by
    cases made
    exact allMembersLaid_iff.mpr (List.forall_mem_map.mpr fun _ _ => trivial)
  | .attributes (some item), _, made => by cases made; exact laid_attributeFields item
  | .attributeValue v, _, made => by cases made; exact laid_attributeValue v
  | .reference target, _, made => @laid_value target _ made
  | .person _ age, _, made => by
    cases made
    exact ⟨trivial, isLaidNumber_toString age, trivial⟩
  | .keyedMap entries, _, made => by
    obtain ⟨shown, named, made⟩ := Outcome.ok_of_bind made
    cases made
    exact laid_ofList (laid_keyedMembers named)
  | .instant i, _, made => by
    rw [value] at made
    split at made <;> cases made
    trivial
  | .function, _, made | .channel, _, made | .complex, _, made => by cases made

theorem laid_documentFields : ∀ {fields : List (String × Value)} {items : List Json},
    documentFields fields = .ok items → AllLaid items
  | [], _, made => by cases made; trivial
  | (_, v) :: rest, _, made => by
    obtain ⟨first, head, made⟩ := Outcome.ok_of_bind made
    obtain ⟨tail, others, made⟩ := Outcome.ok_of_bind made
    cases made
    exact ⟨⟨trivial, laid_value head, trivial⟩, laid_documentFields others⟩

theorem laid_members : ∀ {fields : List (String × Value)} {shown : List (String × Json)},
    members fields = .ok shown → AllMembersLaid shown
  | [], _, made => by cases made; trivial
  | (_, v) :: rest, _, made => by
    obtain ⟨first, head, made⟩ := Outcome.ok_of_bind made
    obtain ⟨tail, others, made⟩ := Outcome.ok_of_bind made
    cases made
    exact ⟨laid_value head, laid_members others⟩

theorem laid_keyedMembers : ∀ {entries : List (Value × Value)} {shown : List (String × Json)},
    keyedMembers entries = .ok shown → AllMembersLaid shown
  | [], _, made => by cases made; trivial
  | (_, v) :: rest, _, made => by
    rw [keyedMembers] at made
    split at made
    · obtain ⟨name, -, made⟩ := Outcome.ok_of_bind made
      obtain ⟨first, head, made⟩ := Outcome.ok_of_bind made
      obtain ⟨tail, others, made⟩ := Outcome.ok_of_bind made
      cases made
      exact ⟨laid_value head, laid_keyedMembers others⟩
    · cases made

theorem laid_listItems : ∀ {items : List Value} {shown : List Json},
    listItems items = .ok shown → AllLaid shown
  | [], _, made => by cases made; trivial
  | v :: rest, _, made => by
    obtain ⟨first, head, made⟩ := Outcome.ok_of_bind made
    obtain ⟨tail, others, made⟩ := Outcome.ok_of_bind made
    cases made
    exact ⟨laid_value head, laid_listItems others⟩
end

end Interchange

end DocTable
