import DocTable.Attribute.Basic
import DocTable.Proofs.Json.Layout

/-!
# The tagged form loses nothing

The tagged form of a value names its kind and holds what the value holds, down to the octets, which are
written in base 64.  Values of the ten kinds with one tagged form are equal (`AttributeValue.wire_inj`),
and so are items of such values.  The two values that cannot be stored have no form of their own, so
they are left out.

Octets are read back from their text (`Text.Base64.decodeChars?_encodeChars`), whatever their number
leaves for the last group.
-/

namespace DocTable

set_option autoImplicit false

/-! ## Octets in base 64 -/

namespace Text.Base64

theorem value?_digit : ∀ n < 64, value? (digit n) = some n := by decide

theorem digit_ne_padding : ∀ n < 64, digit n ≠ '=' := by decide

/-- Octets are read back from the characters that are written for them. -/
theorem decodeChars?_encodeChars (bytes : Bytes) : decodeChars? (encodeChars bytes) = some bytes := by
  induction bytes using encodeChars.induct with
  | case1 => rfl
  | case2 a =>
    have byte := a.toNat_lt
    rw [encodeChars, decodeChars?, value?_digit _ (by omega), value?_digit _ (by omega)]
    exact congrArg (fun n => some [n]) (octet_eq (by omega))
  | case3 a b =>
    have first := a.toNat_lt
    have second := b.toNat_lt
    rw [encodeChars, decodeChars?, value?_digit _ (by omega), value?_digit _ (by omega),
      value?_digit _ (by omega)]
    · exact congrArg₂ (fun m n => some [m, n]) (octet_eq (by omega)) (octet_eq (by omega))
    · exact fun none => digit_ne_padding _ (by omega) none
  | case4 a b c rest ih =>
    have first := a.toNat_lt
    have second := b.toNat_lt
    have third := c.toNat_lt
    rw [encodeChars, decodeChars?, value?_digit _ (by omega), value?_digit _ (by omega),
      value?_digit _ (by omega), value?_digit _ (by omega), ih]
    · exact congrArg some (List.cons_eq_cons.mpr ⟨octet_eq (by omega),
        List.cons_eq_cons.mpr ⟨octet_eq (by omega),
          List.cons_eq_cons.mpr ⟨octet_eq (by omega), rfl⟩⟩⟩)
    -- a full group has no padding at its end
    · exact fun _ none => absurd none (digit_ne_padding _ (by omega))
    · exact fun none => absurd none (digit_ne_padding _ (by omega))

theorem encode_injective : Function.Injective encode := by
  intro first second same
  have chars := congrArg (fun text : String => decodeChars? text.toList) same
  simpa [encode, decodeChars?_encodeChars] using chars

end Text.Base64

/-! ## Tagged forms -/

namespace AttributeValue

theorem strings_inj {texts others : List String} :
    Json.strings texts = Json.strings others ↔ texts = others := by
  rw [Json.strings, Json.strings, Json.array.injEq]
  exact (List.map_injective_iff.mpr fun _ _ same => Json.string.inj same).eq_iff

mutual
/-- **The tagged form of a value that can be stored determines the value.** -/
theorem wire_inj : ∀ {a b : AttributeValue}, a.isKnown = true → a.wire = b.wire → a = b
  | .s t, other, _, same => by
    cases other with
    | s u => simpa [wire] using same
    | _ => simp [wire] at same
  | .raw t, other, _, same => by
    cases other with
    | raw u => simpa [wire] using same
    | _ => simp [wire] at same
  | .n t, other, _, same => by
    cases other with
    | n u => simpa [wire] using same
    | _ => simp [wire] at same
  | .b bytes, other, _, same => by
    cases other with
    | b octets => simpa [wire, Text.Base64.encode_injective.eq_iff] using same
    | _ => simp [wire] at same
  | .bool v, other, _, same => by
    cases other with
    | bool w => simpa [wire] using same
    | _ => simp [wire] at same
  | .null v, other, _, same => by
    cases other with
    | null w => simpa [wire] using same
    | _ => simp [wire] at same
  | .m fields, other, known, same => by
    cases other with
    | m others =>
      have members : wireFields fields = wireFields others := by simpa [wire] using same
      rw [wireFields_inj known members]
    | _ => simp [wire] at same
  | .l items, other, known, same => by
    cases other with
    | l others =>
      have elements : wireItems items = wireItems others := by simpa [wire] using same
      rw [wireItems_inj known elements]
    | _ => simp [wire] at same
  | .ss members, other, _, same => by
    cases other with
    | ss others => simpa [wire, strings_inj] using same
    | _ => simp [wire] at same
  | .ns members, other, _, same => by
    cases other with
    | ns others => simpa [wire, strings_inj] using same
    | _ => simp [wire] at same
  | .bs members, other, _, same => by
    cases other with
    | bs others =>
      have texts : members.map Text.Base64.encode = others.map Text.Base64.encode := by
        simpa [wire, strings_inj] using same
      rw [List.map_injective_iff.mpr Text.Base64.encode_injective texts]
    | _ => simp [wire] at same
  | .unset, _, known, _ => by cases known
  | .unknown, _, known, _ => by cases known

/-- The tagged forms of named values determine the values with their names. -/
theorem wireFields_inj : ∀ {fields others : Item}, allFieldsKnown fields = true →
    wireFields fields = wireFields others → fields = others
  | [], [], _, _ => rfl
  | [], _ :: _, _, same => by cases same
  | _ :: _, [], _, same => by cases same
  | (name, v) :: fields, (other, w) :: others, known, same => by
    obtain ⟨knownV, knownFields⟩ := Bool.and_eq_true_iff.mp known
    obtain ⟨first, rest⟩ := List.cons_eq_cons.mp same
    obtain ⟨names, values⟩ := Prod.mk.inj first
    rw [names, wire_inj knownV values, wireFields_inj knownFields rest]

/-- The tagged forms of listed values determine the values. -/
theorem wireItems_inj : ∀ {items others : List AttributeValue}, allKnown items = true →
    wireItems items = wireItems others → items = others
  | [], [], _, _ => rfl
  | [], _ :: _, _, same => by cases same
  | _ :: _, [], _, same => by cases same
  | v :: items, w :: others, known, same => by
    obtain ⟨knownV, knownItems⟩ := Bool.and_eq_true_iff.mp known
    obtain ⟨first, rest⟩ := List.cons_eq_cons.mp same
    rw [wire_inj knownV first, wireItems_inj knownItems rest]
end

/-- The tagged form of an item that can be stored determines the item. -/
theorem item_wire_inj {item other : Item} (known : allFieldsKnown item = true)
    (same : Item.wire item = Item.wire other) : item = other :=
  wireFields_inj known (Json.object.inj same)

/-! ## How tagged forms are laid out -/

mutual
/-- A tagged form has no number of its own, so it is always laid out. -/
theorem laid_wire : ∀ v : AttributeValue, v.wire.Laid
  | .m fields => ⟨laid_wireFields fields, trivial⟩
  | .l items => ⟨laid_wireItems items, trivial⟩
  | .ss _ | .ns _ | .bs _ => ⟨Json.laid_strings _, trivial⟩
  | .s _ | .raw _ | .n _ | .b _ | .bool _ | .null _ => ⟨trivial, trivial⟩
  | .unset | .unknown => trivial

theorem laid_wireFields : ∀ fields : Item, Json.AllMembersLaid (wireFields fields)
  | [] => trivial
  | (_, v) :: rest => ⟨laid_wire v, laid_wireFields rest⟩

theorem laid_wireItems : ∀ items : List AttributeValue, Json.AllLaid (wireItems items)
  | [] => trivial
  | v :: rest => ⟨laid_wire v, laid_wireItems rest⟩
end

end AttributeValue

end DocTable
