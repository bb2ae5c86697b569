import DocTable.Proofs.Store.Slot

/-!
# Keys of items

The key that is extracted from an item repeats the item's key attributes and nothing else
(`extract_agree`, `lookup_extract`), and there is one exactly when every key attribute is there with
the kind of its key (`extract_isOk_iff`).  The slot of an item depends on its key attributes alone
(`slot?_congr`), so an item and its key have the same slot.
-/

namespace DocTable

set_option autoImplicit false

/-- An item has an attribute for a key, of the kind that the key wants. -/
def KeyDefinition.Has (k : KeyDefinition) (item : Item) : Prop :=
  ∃ value, Keyed.lookup k.name item = some value ∧ k.check value = .ok ()

namespace KeyDefinition

/-- What extracting succeeds with: the first key is there, the others are extracted, and its value
joins them. -/
theorem extract_cons_eq_ok {table : String} {item key : Item} {k : KeyDefinition}
    {rest : List KeyDefinition} (extracted : extract table item (k :: rest) = .ok key) :
    ∃ value others, Keyed.lookup k.name item = some value ∧ k.check value = .ok () ∧
      extract table item rest = .ok others ∧ key = Keyed.insert k.name value others := by
  rw [extract] at extracted
  cases found : Keyed.lookup k.name item with
  | none =>
    rw [found] at extracted
    cases extracted
  | some value =>
    simp only [found] at extracted
    cases checked : k.check value with
    | error cause =>
      rw [checked] at extracted
      cases extracted
    | ok _ =>
      rw [checked] at extracted
      cases extractedRest : extract table item rest with
      | error cause =>
        rw [extractedRest] at extracted
        cases extracted
      | ok others =>
        rw [extractedRest] at extracted
        cases extracted
        exact ⟨value, others, rfl, checked, rfl, rfl⟩

theorem has_of_extract {table : String} {item key : Item} {keys : List KeyDefinition}
    (extracted : extract table item keys = .ok key) : ∀ k ∈ keys, k.Has item := by
  induction keys generalizing key with
  | nil => exact fun _ member => absurd member List.not_mem_nil
  | cons first rest ih =>
    intro k member
    obtain ⟨value, others, found, checked, extractedRest, _⟩ := extract_cons_eq_ok extracted
    rcases List.mem_cons.mp member with here | there
    · subst here
      exact ⟨value, found, checked⟩
    · exact ih extractedRest k there

theorem extract_isOk_iff {table : String} {item : Item} {keys : List KeyDefinition} :
    (∃ key, extract table item keys = .ok key) ↔ ∀ k ∈ keys, k.Has item := by
  constructor
  · rintro ⟨key, extracted⟩
    exact has_of_extract extracted
  · intro has
    induction keys with
    | nil => exact ⟨[], rfl⟩
    | cons first rest ih =>
      obtain ⟨value, found, checked⟩ := has first List.mem_cons_self
      obtain ⟨others, extracted⟩ := ih fun k member => has k (List.mem_cons_of_mem _ member)
      refine ⟨Keyed.insert first.name value others, ?_⟩
      simp only [extract, found, checked, extracted]
      rfl

/-- An extracted key repeats attributes of its item. -/
theorem extract_agree {table : String} {item key : Item} {keys : List KeyDefinition}
    (extracted : extract table item keys = .ok key) :
    ∀ entry ∈ key, Keyed.lookup entry.1 item = some entry.2 := by
  induction keys generalizing key with
  | nil =>
    cases extracted
    exact fun _ member => absurd member List.not_mem_nil
  | cons first rest ih =>
    intro entry member
    obtain ⟨value, others, found, _, extractedRest, rfl⟩ := extract_cons_eq_ok extracted
    rcases Keyed.mem_insert member with here | there
    · subst here
      exact found
    · exact ih extractedRest entry there

/-- An extracted key has attributes of keys only, of the kinds that the keys want. -/
theorem mem_extract {table : String} {item key : Item} {keys : List KeyDefinition}
    (extracted : extract table item keys = .ok key) :
    ∀ entry ∈ key, ∃ k ∈ keys, entry.1 = k.name ∧ k.check entry.2 = .ok () := by
  induction keys generalizing key with
  | nil =>
    cases extracted
    exact fun _ member => absurd member List.not_mem_nil
  | cons first rest ih =>
    intro entry member
    obtain ⟨value, others, _, checked, extractedRest, rfl⟩ := extract_cons_eq_ok extracted
    rcases Keyed.mem_insert member with rfl | there
    · exact ⟨first, List.mem_cons_self, rfl, checked⟩
    · obtain ⟨k, inRest, isKey⟩ := ih extractedRest entry there
      exact ⟨k, List.mem_cons_of_mem _ inRest, isKey⟩

/-- An extracted key has every key attribute of its item. -/
theorem lookup_extract {table : String} {item key : Item} {keys : List KeyDefinition}
    (extracted : extract table item keys = .ok key) :
    ∀ k ∈ keys, Keyed.lookup k.name key = Keyed.lookup k.name item := by
  induction keys generalizing key with
  | nil => exact fun _ member => absurd member List.not_mem_nil
  | cons first rest ih =>
    intro k member
    obtain ⟨value, others, found, _, extractedRest, rfl⟩ := extract_cons_eq_ok extracted
    rw [Keyed.lookup_insert]
    split
    · rename_i same
      rw [← same, found]
    · rename_i distinct
      rcases List.mem_cons.mp member with here | there
      · exact absurd (congrArg name here).symm distinct
      · exact ih extractedRest k there

end KeyDefinition

namespace TableSchema

theorem mem_keys_iff {t : TableSchema} {k : KeyDefinition} :
    k ∈ t.keys ↔ k = t.hash ∨ (t.hasRange = true ∧ k = t.range) := by
  rw [keys]
  split
  · rename_i ranged
    simp [ranged]
  · rename_i unranged
    simp [unranged]

theorem hash_mem_keys (t : TableSchema) : t.hash ∈ t.keys := mem_keys_iff.mpr (.inl rfl)

theorem range_mem_keys {t : TableSchema} (ranged : t.hasRange = true) : t.range ∈ t.keys :=
  mem_keys_iff.mpr (.inr ⟨ranged, rfl⟩)

/-- Items with the same key attributes have the same slot. -/
theorem slot?_congr {t : TableSchema} {a b : Item}
    (same : ∀ k ∈ t.keys, Keyed.lookup k.name a = Keyed.lookup k.name b) :
    t.slot? a = t.slot? b := by
  have hash : keyAttribute a t.hash = keyAttribute b t.hash := by
    rw [keyAttribute, keyAttribute, same _ (hash_mem_keys t)]
  rw [slot?, slot?, hash]
  by_cases ranged : t.hasRange = true
  · have range : keyAttribute a t.range = keyAttribute b t.range := by
      rw [keyAttribute, keyAttribute, same _ (range_mem_keys ranged)]
    rw [range]
  · simp only [ranged, Bool.false_eq_true, if_false]

theorem slot?_extractKey {t : TableSchema} {item key : Item}
    (extracted : t.extractKey item = .ok key) : t.slot? key = t.slot? item :=
  slot?_congr (KeyDefinition.lookup_extract extracted)

/-- An attribute that is a part of a key is there. -/
theorem has_of_part? {k : KeyDefinition} {item : Item} {part : KeyPart}
    (found : k.part? (keyAttribute item k) = some part) : k.Has item := by
  obtain ⟨checked, isPart⟩ := KeyDefinition.part?_eq_some_iff.mp found
  rw [keyAttribute] at checked isPart
  cases there : Keyed.lookup k.name item with
  | none =>
    rw [there] at isPart
    cases isPart
  | some value =>
    rw [there] at checked
    exact ⟨value, there, checked⟩

/-- An item has a slot if every key of the table has a part in it. -/
theorem exists_slot?_iff {t : TableSchema} {item : Item} :
    (∃ slot, t.slot? item = some slot) ↔
      ∀ k ∈ t.keys, ∃ part, k.part? (keyAttribute item k) = some part := by
  simp only [mem_keys_iff, forall_eq_or_imp, and_imp]
  rw [slot?]
  cases t.hash.part? (keyAttribute item t.hash) with
  | none => simp
  | some hash =>
    cases t.hasRange with
    | false => simp
    | true =>
      cases range : t.range.part? (keyAttribute item t.range) with
      | none => simp [range]
      | some part => simp [range]

/-- An item that has a slot has a key. -/
theorem extractKey_of_slot? {t : TableSchema} {item : Item} {slot : Slot}
    (found : t.slot? item = some slot) : ∃ key, t.extractKey item = .ok key := by
  refine KeyDefinition.extract_isOk_iff.mpr fun k member => ?_
  obtain ⟨part, isPart⟩ := exists_slot?_iff.mp ⟨slot, found⟩ k member
  exact has_of_part? isPart

end TableSchema

end DocTable
