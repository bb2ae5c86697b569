import DocTable.Proofs.Table.Key
import DocTable.Store.Read

/-!
# Which keys share a storage key

Keys are told apart twice: by their storage keys, and by the comparison of their attributes with
which a page finds its start (`Store.hasKey`).  For texts and byte strings the two agree.  For numbers
they do not, since a storage key holds the double nearest to a number and the comparison reads a number
with 64 binary digits: two numbers can share a double and differ, and the two zeros are equal and have
different doubles (`storageKey_conflates_numbers`).

So storage keys tell apart what the parts of a slot tell apart (`storageKey_eq_iff`), and they agree
with the comparison on all keys of a table exactly if no key of the table is a number
(`storageKey_agrees_iff`).
-/

namespace DocTable

set_option autoImplicit false

open Number

/-- Whether two values of a key are the same part of a slot: numbers are if they have the same double,
other values if they are equal. -/
def AttributeValue.SharesPart : AttributeValue → AttributeValue → Prop
  | .n x, .n y => Binary64.read x = Binary64.read y
  | v, w => v.equal w = true

namespace KeyDefinition

theorem keyKind?_of_part? {k : KeyDefinition} {v : AttributeValue} {part : KeyPart}
    (found : k.part? v = some part) : v.keyKind? = some k.kind := by
  rw [part?] at found
  split at found
  · assumption
  · cases found

theorem part_eq_iff {k : KeyDefinition} {v w : AttributeValue} {x y : KeyPart}
    (partV : k.part? v = some x) (partW : k.part? w = some y) : x = y ↔ v.SharesPart w := by
  have kinds : v.keyKind? = w.keyKind? :=
    (keyKind?_of_part? partV).trans (keyKind?_of_part? partW).symm
  replace partV := (part?_eq_some_iff.mp partV).2
  replace partW := (part?_eq_some_iff.mp partW).2
  cases v with
  | s text =>
    cases w with
    | s other =>
      cases partV
      cases partW
      simp [AttributeValue.SharesPart, AttributeValue.equal]
    | raw other =>
      cases partV
      cases partW
      simp [AttributeValue.SharesPart, AttributeValue.equal]
    | _ => simp [AttributeValue.keyKind?] at kinds
  | raw text =>
    cases w with
    | s other =>
      cases partV
      cases partW
      simp [AttributeValue.SharesPart, AttributeValue.equal]
    | raw other =>
      cases partV
      cases partW
      simp [AttributeValue.SharesPart, AttributeValue.equal]
    | _ => simp [AttributeValue.keyKind?] at kinds
  | b bytes =>
    cases w with
    | b others =>
      cases partV
      cases partW
      simp [AttributeValue.SharesPart, AttributeValue.equal]
    | _ => simp [AttributeValue.keyKind?] at kinds
  | n text =>
    cases w with
    | n other =>
      simp only [AttributeValue.SharesPart]
      simp only [AttributeValue.keyPart?] at partV partW
      split at partV
      · rename_i read
        split at partW
        · rename_i readOther
          cases partV
          cases partW
          simp [read, readOther]
        · cases partW
      · cases partV
    | _ => simp [AttributeValue.keyKind?] at kinds
  | _ => cases partV

/-- Values that are no numbers are the same part if they are equal. -/
theorem sharesPart_iff_equal {k : KeyDefinition} {v w : AttributeValue} {part : KeyPart}
    (partV : k.part? v = some part) (notNumber : k.kind ≠ "N") :
    v.SharesPart w ↔ v.equal w = true := by
  cases v with
  | n text => exact absurd (Option.some.inj (keyKind?_of_part? partV)).symm notNumber
  | _ => rfl

end KeyDefinition

namespace TableSchema

/-- Slots of one table are the same if all their parts are. -/
theorem slot_eq_iff {t : TableSchema} {a b : Item} {x y : Slot} (slotA : t.slot? a = some x)
    (slotB : t.slot? b = some y) :
    x = y ↔ ∀ k ∈ t.keys, (keyAttribute a k).SharesPart (keyAttribute b k) := by
  have partsA := exists_slot?_iff.mp ⟨x, slotA⟩
  have partsB := exists_slot?_iff.mp ⟨y, slotB⟩
  obtain ⟨hashA, isHashA⟩ := partsA _ (hash_mem_keys t)
  obtain ⟨hashB, isHashB⟩ := partsB _ (hash_mem_keys t)
  have hashes := KeyDefinition.part_eq_iff isHashA isHashB
  simp only [mem_keys_iff, forall_eq_or_imp, and_imp]
  simp only [slot?, isHashA] at slotA
  simp only [slot?, isHashB] at slotB
  by_cases ranged : t.hasRange = true
  · obtain ⟨rangeA, isRangeA⟩ := partsA _ (range_mem_keys ranged)
    obtain ⟨rangeB, isRangeB⟩ := partsB _ (range_mem_keys ranged)
    have ranges := KeyDefinition.part_eq_iff isRangeA isRangeB
    simp only [if_pos ranged, isRangeA] at slotA
    simp only [if_pos ranged, isRangeB] at slotB
    cases slotA
    cases slotB
    simp [ranged, hashes, ranges]
  · rw [if_neg ranged] at slotA slotB
    cases slotA
    cases slotB
    simp [ranged, hashes]

/-- Unless a key of a table is a number, the comparison of keys tells apart what slots tell apart. -/
theorem hasKey_iff {t : TableSchema} {a b : Item} {x y : Slot} (plain : ∀ k ∈ t.keys, k.kind ≠ "N")
    (slotA : t.slot? a = some x) (slotB : t.slot? b = some y) :
    Store.hasKey t b a = true ↔ x = y := by
  rw [slot_eq_iff slotA slotB, Store.hasKey, List.all_eq_true]
  refine forall₂_congr fun k member => ?_
  obtain ⟨part, isPart⟩ := exists_slot?_iff.mp ⟨x, slotA⟩ k member
  exact (KeyDefinition.sharesPart_iff_equal isPart (plain k member)).symm

theorem place_eq_iff {t : TableSchema} {a b : Item} {x y : Slot} (slotA : t.slot? a = some x)
    (slotB : t.slot? b = some y) : x.place = y.place ↔ x = y :=
  ⟨(fits_of_slot? slotA).place_injective (fits_of_slot? slotB), congrArg Slot.place⟩

/-- Storage keys tell apart what the parts of slots tell apart. -/
theorem storageKey_eq_iff {t : TableSchema} {a b : Item} {p q : Bytes}
    (storedA : t.storageKey a = .ok p) (storedB : t.storageKey b = .ok q) :
    p = q ↔ ∀ k ∈ t.keys, (keyAttribute a k).SharesPart (keyAttribute b k) := by
  obtain ⟨x, slotA, rfl⟩ := storageKey_eq_ok_iff.mp storedA
  obtain ⟨y, slotB, rfl⟩ := storageKey_eq_ok_iff.mp storedB
  rw [← slot_eq_iff slotA slotB, place_eq_iff slotA slotB]

/-- A key that has a storage key has a part for every key of the table. -/
theorem exists_storageKey_iff {t : TableSchema} {key : Item} :
    (∃ place, t.storageKey key = .ok place) ↔
      ∀ k ∈ t.keys, ∃ part, k.part? (keyAttribute key k) = some part := by
  rw [← exists_slot?_iff]
  constructor
  · rintro ⟨place, stored⟩
    obtain ⟨slot, found, _⟩ := storageKey_eq_ok_iff.mp stored
    exact ⟨slot, found⟩
  · rintro ⟨slot, found⟩
    exact ⟨slot.place, storageKey_eq_ok_iff.mpr ⟨slot, found, rfl⟩⟩

/-- A key that has a storage key still has one when a number takes the place of a number. -/
theorem exists_storageKey_insert {t : TableSchema} {key : Item} {k : KeyDefinition} {text : String}
    {x : Binary64} (stored : ∃ place, t.storageKey key = .ok place) (member : k ∈ t.keys)
    (number : k.kind = "N") (read : Binary64.read text = .ok x) :
    ∃ place, t.storageKey (Keyed.insert k.name (.n text) key) = .ok place := by
  rw [exists_storageKey_iff] at stored ⊢
  intro j memberJ
  obtain ⟨part, isPart⟩ := stored j memberJ
  by_cases same : k.name = j.name
  · -- both keys take the same attribute, so both are numbers
    obtain ⟨other, isOther⟩ := stored k member
    have attributes : keyAttribute key k = keyAttribute key j := by
      rw [keyAttribute, keyAttribute, same]
    have kinds : some k.kind = some j.kind := by
      rw [← KeyDefinition.keyKind?_of_part? isOther, ← KeyDefinition.keyKind?_of_part? isPart,
        attributes]
    refine ⟨.number x, ?_⟩
    simp [keyAttribute, Keyed.lookup_insert, same, KeyDefinition.part?, AttributeValue.keyKind?,
      AttributeValue.keyPart?, ← Option.some.inj kinds, number, read]
  · refine ⟨part, ?_⟩
    simpa [keyAttribute, Keyed.lookup_insert, same] using isPart

/-- Two numbers with one double share a storage key when they stand in the same key. -/
theorem storageKey_insert_eq {t : TableSchema} {key : Item} {k : KeyDefinition} {x y : String}
    {p q : Bytes} (stored : ∃ place, t.storageKey key = .ok place)
    (same : Binary64.read x = Binary64.read y)
    (storedX : t.storageKey (Keyed.insert k.name (.n x) key) = .ok p)
    (storedY : t.storageKey (Keyed.insert k.name (.n y) key) = .ok q) : p = q := by
  refine (storageKey_eq_iff storedX storedY).mpr fun j member => ?_
  obtain ⟨part, isPart⟩ := exists_storageKey_iff.mp stored j member
  simp only [keyAttribute, Keyed.lookup_insert]
  split
  · exact same
  · exact (KeyDefinition.part_eq_iff isPart isPart).mp rfl

/-- **Storage keys and the comparison of keys agree on a table exactly if no key of it is a number.**
Of two keys that a table accepts, the storage keys are the same if the texts and byte strings are equal
and the numbers have the same doubles; unless a key is a number, that is what the comparison says. -/
theorem storageKey_agrees_iff {t : TableSchema} (used : ∃ key place, t.storageKey key = .ok place) :
    (∀ a b p q, t.storageKey a = .ok p → t.storageKey b = .ok q →
      (p = q ↔ ∀ k ∈ t.keys, (keyAttribute a k).SharesPart (keyAttribute b k))) ∧
    ((∀ a b p q, t.storageKey a = .ok p → t.storageKey b = .ok q →
      (p = q ↔ Store.hasKey t b a = true)) ↔ ∀ k ∈ t.keys, k.kind ≠ "N") := by
  refine ⟨fun a b p q storedA storedB => storageKey_eq_iff storedA storedB, ?_, ?_⟩
  · intro agrees k member number
    obtain ⟨key, stored⟩ := used
    -- the least natural number that is no double, and its neighbour below
    have readA : Binary64.read "9007199254740993" = .ok ⟨0x4340000000000000⟩ := rfl
    have readB : Binary64.read "9007199254740992" = .ok ⟨0x4340000000000000⟩ := rfl
    obtain ⟨p, storedA⟩ := exists_storageKey_insert stored member number readA
    obtain ⟨q, storedB⟩ := exists_storageKey_insert stored member number readB
    have equal := (agrees _ _ p q storedA storedB).mp
      (storageKey_insert_eq stored (readA.trans readB.symm) storedA storedB)
    rw [Store.hasKey, List.all_eq_true] at equal
    have numbers := equal k member
    simp only [keyAttribute, Keyed.lookup_insert, if_true, Option.getD_some] at numbers
    revert numbers
    decide +kernel
  · intro plain a b p q storedA storedB
    obtain ⟨x, slotA, rfl⟩ := storageKey_eq_ok_iff.mp storedA
    obtain ⟨y, slotB, rfl⟩ := storageKey_eq_ok_iff.mp storedB
    rw [place_eq_iff slotA slotB, hasKey_iff plain slotA slotB]

/-- The keys of a table with a text and a byte string are told apart by both. -/
theorem storageKey_agrees_of_text_and_octets :
    let t : TableSchema := ⟨"files", ⟨"path", "S"⟩, ⟨"digest", "B"⟩, []⟩
    (∃ key place, t.storageKey key = .ok place) ∧
    ∀ a b p q, t.storageKey a = .ok p → t.storageKey b = .ok q →
      (p = q ↔ Store.hasKey t b a = true) := by
  intro t
  have used : ∃ key place, t.storageKey key = .ok place :=
    ⟨[("digest", .b [0, 1]), ("path", .s "a")],
      Text.utf8 "files" ++ [0, 97, 0, 1, 1, 1, 2], rfl⟩
  exact ⟨used, (storageKey_agrees_iff used).2.mpr (by decide)⟩

/-- Two numbers that the comparison tells apart have one storage key, and the two zeros, which the
comparison takes for equal, have two. -/
theorem storageKey_conflates_numbers :
    let t : TableSchema := ⟨"numbers", ⟨"id", "N"⟩, .none, []⟩
    let key (text : String) : Item := [("id", .n text)]
    (∃ p, t.storageKey (key "9007199254740992") = .ok p ∧
      t.storageKey (key "9007199254740993") = .ok p ∧
      Store.hasKey t (key "9007199254740993") (key "9007199254740992") = false) ∧
    (∃ p q, t.storageKey (key "0") = .ok p ∧ t.storageKey (key "-0") = .ok q ∧ p ≠ q ∧
      Store.hasKey t (key "-0") (key "0") = true) := by
  refine ⟨⟨_, rfl, rfl, by decide +kernel⟩, ⟨_, _, rfl, rfl, by decide +kernel, by decide +kernel⟩⟩

end TableSchema

end DocTable
