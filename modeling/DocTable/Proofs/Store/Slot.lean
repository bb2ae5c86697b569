import DocTable.Proofs.Keyed
import DocTable.Proofs.Text.Octets
import DocTable.Store.Key

/-!
# Slots and the octets that stand for them

A slot is the address of an item apart from how it is stored: the name of the table, and for each
key of the table what tells two values of that key apart (`KeyPart`).  Texts and byte strings are
told apart by their octets, numbers by the bits of their doubles.

The octets under which a slot is stored are its `place`.  Storage keys are exactly the places of
slots (`storageKey_eq_ok_iff`), and a place gives its slot away: the last two separators of a place
end the table's name and the first part, whatever octets the name holds (`parts_of_place_eq`), and
parts of one kind are told apart by their octets (`Fits.place_injective`).  Read from its start, a
place tells the table only if no name holds a separator (`table_eq_of_start`).
-/

namespace DocTable

set_option autoImplicit false

attribute [local instance] Number.corePower

open Number

/-! ## Escaped octets -/

namespace StorageKey

theorem separator_notMem_escape (bytes : Bytes) : separator ∉ escape bytes := by
  induction bytes with
  | nil => exact List.not_mem_nil
  | cons b rest ih =>
    rw [escape]
    split
    · simpa [separator] using ih
    · rename_i notZero
      split
      · simpa [separator] using ih
      · simpa [separator, Ne.symm notZero] using ih

theorem escape_injective {a b : Bytes} (same : escape a = escape b) : a = b := by
  induction a generalizing b with
  | nil =>
    cases b with
    | nil => rfl
    | cons y ys =>
      rw [escape, escape] at same
      split at same
      · cases same
      · split at same <;> cases same
  | cons x xs ih =>
    cases b with
    | nil =>
      rw [escape, escape] at same
      split at same
      · cases same
      · split at same <;> cases same
    | cons y ys =>
      -- an octet is escaped to one that starts with itself, or to a pair that starts with one
      simp only [escape] at same
      split at same <;> split at same <;> grind

/-- Numbers with the same octets up to a place have the same remainder there. -/
theorem mod_eq_of_digits_eq {m n count : Nat}
    (digits : ∀ i < count, m / 256 ^ i % 256 = n / 256 ^ i % 256) :
    m % 256 ^ count = n % 256 ^ count := by
  induction count with
  | zero => rw [Nat.pow_zero, Nat.mod_one, Nat.mod_one]
  | succ count ih =>
    have lower := ih fun i bound => digits i (Nat.lt_succ_of_lt bound)
    rw [Nat.mod_pow_succ, Nat.mod_pow_succ, lower, digits count (Nat.lt_succ_self count)]

theorem bigEndian_injective {m n : Nat} (boundM : m < UInt64.size) (boundN : n < UInt64.size)
    (same : bigEndian m = bigEndian n) : m = n := by
  have digits : ∀ i < 8, m / 256 ^ i % 256 = n / 256 ^ i % 256 := by
    intro i bound
    have member : i ∈ (List.range 8).reverse := by simpa using bound
    have octets := List.map_inj_left.mp same i member
    simpa using congrArg UInt8.toNat octets
  have remainders := mod_eq_of_digits_eq digits
  have size : UInt64.size = 256 ^ 8 := rfl
  rwa [Nat.mod_eq_of_lt (by omega), Nat.mod_eq_of_lt (by omega)] at remainders

/-- The octets of a double give its bits away. -/
theorem number_injective {x y : Binary64} (same : number x = number y) : x = y := by
  have turned : ∀ mask : UInt64,
      bigEndian (x.bits ^^^ mask).toNat = bigEndian (y.bits ^^^ mask).toNat → x = y := by
    intro mask octets
    have bits := bigEndian_injective (UInt64.toNat_lt_size _) (UInt64.toNat_lt_size _) octets
    have words : x.bits ^^^ mask = y.bits ^^^ mask := UInt64.toNat_inj.mp bits
    cases x
    cases y
    simpa using words
  simp only [number] at same
  split at same <;> split at same
  · exact turned _ (List.cons.inj same).2
  · exact absurd (List.cons.inj same).1 (by decide)
  · exact absurd (List.cons.inj same).1 (by decide)
  · exact turned _ (List.cons.inj same).2

/-- The first separator divides octets in one way. -/
theorem eq_of_append_separator {a b c d : Bytes} (noneA : separator ∉ a) (noneC : separator ∉ c)
    (same : a ++ separator :: b = c ++ separator :: d) : a = c ∧ b = d := by
  induction a generalizing c with
  | nil =>
    cases c with
    | nil => simpa using same
    | cons y ys =>
      rw [List.nil_append, List.cons_append] at same
      exact absurd (List.cons.inj same).1 (fun here => noneC (here ▸ List.mem_cons_self))
  | cons x xs ih =>
    cases c with
    | nil =>
      rw [List.nil_append, List.cons_append] at same
      exact absurd (List.cons.inj same).1 (fun here => noneA (here ▸ List.mem_cons_self))
    | cons y ys =>
      rw [List.cons_append, List.cons_append] at same
      obtain ⟨here, there⟩ := List.cons.inj same
      have rest := ih (fun member => noneA (List.mem_cons_of_mem _ member))
        (fun member => noneC (List.mem_cons_of_mem _ member)) there
      exact ⟨by rw [here, rest.1], rest.2⟩

/-- So does the last separator. -/
theorem eq_of_append_last_separator {a b c d : Bytes} (noneB : separator ∉ b)
    (noneD : separator ∉ d) (same : a ++ separator :: b = c ++ separator :: d) :
    a = c ∧ b = d := by
  have reversed := congrArg List.reverse same
  simp only [List.reverse_append, List.reverse_cons, List.append_assoc, List.singleton_append]
    at reversed
  obtain ⟨after, before⟩ := eq_of_append_separator (mt List.mem_reverse.mp noneB)
    (mt List.mem_reverse.mp noneD) reversed
  exact ⟨List.reverse_inj.mp before, List.reverse_inj.mp after⟩

end StorageKey

/-! ## Parts of a key -/

/-- What tells two values of one key apart. -/
inductive KeyPart where
  | text (value : String)
  | raw (value : Text.Raw)
  | octets (value : Bytes)
  | number (value : Binary64)
  deriving DecidableEq, Repr

namespace KeyPart

/-- The kind of the keys that have such parts. -/
def kind : KeyPart → String
  | .text _ | .raw _ => "S"
  | .octets _ => "B"
  | .number _ => "N"

/-- The octets of a part, without separators. -/
def written : KeyPart → Bytes
  | .text value => StorageKey.escape (Text.utf8 value)
  | .raw value => StorageKey.escape value.octets
  | .octets value => StorageKey.escape value
  | .number value => StorageKey.escape (StorageKey.number value)

theorem separator_notMem_written (part : KeyPart) : StorageKey.separator ∉ part.written := by
  cases part <;> exact StorageKey.separator_notMem_escape _

/-- Parts of one kind are told apart by their octets. -/
theorem written_injective {a b : KeyPart} (sameKind : a.kind = b.kind)
    (same : a.written = b.written) : a = b := by
  cases a with
  | text x =>
    cases b with
    | text y => exact congrArg _ (Text.utf8_injective (StorageKey.escape_injective same))
    | raw y => exact absurd (StorageKey.escape_injective same) (y.noText x)
    | _ => exact absurd sameKind (by simp [kind])
  | raw x =>
    cases b with
    | text y => exact absurd (StorageKey.escape_injective same).symm (x.noText y)
    | raw y => exact congrArg _ (Text.Raw.ext (StorageKey.escape_injective same))
    | _ => exact absurd sameKind (by simp [kind])
  | octets x =>
    cases b with
    | octets y => exact congrArg _ (StorageKey.escape_injective same)
    | _ => exact absurd sameKind (by simp [kind])
  | number x =>
    cases b with
    | number y =>
      exact congrArg _ (StorageKey.number_injective (StorageKey.escape_injective same))
    | _ => exact absurd sameKind (by simp [kind])

end KeyPart

/-- The part that a value can be in a key; a number has one if it has a double. -/
def AttributeValue.keyPart? : AttributeValue → Option KeyPart
  | .s text => some (.text text)
  | .raw text => some (.raw text)
  | .b bytes => some (.octets bytes)
  | .n text => match Binary64.read text with
    | .ok x => some (.number x)
    | .error _ => none
  | _ => none

theorem AttributeValue.keyKind?_of_keyPart? {v : AttributeValue} {part : KeyPart}
    (found : v.keyPart? = some part) : v.keyKind? = some part.kind := by
  cases v with
  | s text =>
    cases found
    rfl
  | raw text =>
    cases found
    rfl
  | b bytes =>
    cases found
    rfl
  | n text =>
    rw [keyPart?] at found
    split at found
    · cases found
      rfl
    · cases found
  | _ => cases found

theorem AttributeValue.keyPart?_eq_text_iff {v : AttributeValue} {text : String} :
    v.keyPart? = some (.text text) ↔ v = .s text := by
  cases v with
  | n text =>
    rw [keyPart?]
    split <;> simp
  | _ => simp [keyPart?]

theorem AttributeValue.keyPart?_eq_raw_iff {v : AttributeValue} {text : Text.Raw} :
    v.keyPart? = some (.raw text) ↔ v = .raw text := by
  cases v with
  | n text =>
    rw [keyPart?]
    split <;> simp
  | _ => simp [keyPart?]

theorem AttributeValue.keyPart?_eq_octets_iff {v : AttributeValue} {bytes : Bytes} :
    v.keyPart? = some (.octets bytes) ↔ v = .b bytes := by
  cases v with
  | n text =>
    rw [keyPart?]
    split <;> simp
  | _ => simp [keyPart?]

theorem AttributeValue.keyPart?_eq_number_iff {v : AttributeValue} {x : Binary64} :
    v.keyPart? = some (.number x) ↔ ∃ text, v = .n text ∧ Binary64.read text = .ok x := by
  cases v with
  | n text =>
    rw [keyPart?]
    split <;> simp [*]
  | _ => simp [keyPart?]

namespace KeyDefinition

/-- The part of a value that has the kind of its key. -/
def part? (k : KeyDefinition) (v : AttributeValue) : Option KeyPart :=
  if v.keyKind? = some k.kind then v.keyPart? else Option.none

theorem part?_eq_some_iff {k : KeyDefinition} {v : AttributeValue} {part : KeyPart} :
    k.part? v = some part ↔ k.check v = .ok () ∧ v.keyPart? = some part := by
  rw [part?, check]
  split
  · simp
  · simp

theorem kind_of_part? {k : KeyDefinition} {v : AttributeValue} {part : KeyPart}
    (found : k.part? v = some part) : part.kind = k.kind := by
  obtain ⟨checked, isPart⟩ := part?_eq_some_iff.mp found
  rw [check, AttributeValue.keyKind?_of_keyPart? isPart] at checked
  split at checked
  · rename_i sameKind
    exact Option.some.inj sameKind
  · cases checked

end KeyDefinition

/-- The octets of a key value are those of its part. -/
theorem StorageKey.value_eq_ok_iff {k : KeyDefinition} {v : AttributeValue} {bytes : Bytes} :
    StorageKey.value k v = .ok bytes ↔ ∃ part, k.part? v = some part ∧ bytes = part.written := by
  unfold StorageKey.value KeyDefinition.check KeyDefinition.part?
  by_cases sameKind : v.keyKind? = some k.kind
  · simp only [if_pos sameKind]
    cases v with
    | s text => simp [AttributeValue.keyPart?, KeyPart.written, eq_comm]
    | raw text => simp [AttributeValue.keyPart?, KeyPart.written, eq_comm]
    | b octets => simp [AttributeValue.keyPart?, KeyPart.written, eq_comm]
    | n text =>
      simp only [AttributeValue.keyPart?, numberText]
      cases Binary64.read text with
      | error fault => simp [bind, Except.bind]
      | ok x => simp [bind, Except.bind, pure, Except.pure, KeyPart.written, eq_comm]
    | _ => simp [AttributeValue.keyKind?] at sameKind
  · simp [if_neg sameKind]

/-! ## Slots -/

/-- The address of an item apart from how it is stored. -/
structure Slot where
  table : String
  hash : KeyPart
  range? : Option KeyPart
  deriving DecidableEq, Repr

namespace Slot

/-- The octets of the last part, if there is one. -/
def rangeWritten (slot : Slot) : Bytes := slot.range?.elim [] KeyPart.written

/-- The octets under which an item of a slot is stored. -/
def place (slot : Slot) : Bytes :=
  Text.utf8 slot.table ++ StorageKey.separator ::
    (slot.hash.written ++ StorageKey.separator :: slot.rangeWritten)

/-- A slot of a table: its parts have the kinds of the table's keys. -/
structure Fits (t : TableSchema) (slot : Slot) : Prop where
  table : slot.table = t.name
  hash : slot.hash.kind = t.hash.kind
  range : slot.range?.map KeyPart.kind = if t.hasRange then some t.range.kind else none

theorem separator_notMem_rangeWritten (slot : Slot) :
    StorageKey.separator ∉ slot.rangeWritten := by
  cases range : slot.range? with
  | none => simp [rangeWritten, range]
  | some part => simpa [rangeWritten, range] using part.separator_notMem_written

/-- A place gives the name of the table and the octets of the parts away. -/
theorem parts_of_place_eq {a b : Slot} (same : a.place = b.place) :
    a.table = b.table ∧ a.hash.written = b.hash.written ∧ a.rangeWritten = b.rangeWritten := by
  -- the name may hold separators, so the place is read from its end
  have regrouped : ∀ slot : Slot, slot.place =
      (Text.utf8 slot.table ++ StorageKey.separator :: slot.hash.written) ++
        StorageKey.separator :: slot.rangeWritten := by
    intro slot
    simp [place]
  rw [regrouped a, regrouped b] at same
  obtain ⟨start, range⟩ := StorageKey.eq_of_append_last_separator
    a.separator_notMem_rangeWritten b.separator_notMem_rangeWritten same
  obtain ⟨name, hash⟩ := StorageKey.eq_of_append_last_separator
    a.hash.separator_notMem_written b.hash.separator_notMem_written start
  exact ⟨Text.utf8_injective name, hash, range⟩

/-- The slots of one table are told apart by their places. -/
theorem Fits.place_injective {t : TableSchema} {a b : Slot} (fitsA : Fits t a) (fitsB : Fits t b)
    (same : a.place = b.place) : a = b := by
  obtain ⟨tables, hashes, ranges⟩ := parts_of_place_eq same
  obtain ⟨tableA, hashA, rangeA⟩ := a
  obtain ⟨tableB, hashB, rangeB⟩ := b
  have hash : hashA = hashB :=
    KeyPart.written_injective (fitsA.hash.trans fitsB.hash.symm) hashes
  have kinds : rangeA.map KeyPart.kind = rangeB.map KeyPart.kind :=
    fitsA.range.trans fitsB.range.symm
  have range : rangeA = rangeB := by
    cases rangeA with
    | none =>
      cases rangeB with
      | none => rfl
      | some y => cases kinds
    | some x =>
      cases rangeB with
      | none => cases kinds
      | some y => rw [KeyPart.written_injective (Option.some.inj kinds) ranges]
  rw [Slot.mk.injEq]
  exact ⟨tables, hash, range⟩

/-- A place starts with the name of the slot's table and a separator, and with no other name. -/
theorem table_eq_of_start {slot : Slot} {name : String}
    (plainSlot : StorageKey.separator ∉ Text.utf8 slot.table)
    (plainName : StorageKey.separator ∉ Text.utf8 name)
    (start : Text.utf8 name ++ [StorageKey.separator] <+: slot.place) : slot.table = name := by
  obtain ⟨rest, whole⟩ := start
  rw [place, List.append_assoc, List.cons_append, List.nil_append] at whole
  exact Text.utf8_injective (StorageKey.eq_of_append_separator plainName plainSlot whole).1.symm

end Slot

namespace TableSchema

/-- The slot of the item with a key; none if a part of the key is missing or does not fit. -/
def slot? (t : TableSchema) (key : Item) : Option Slot :=
  match t.hash.part? (keyAttribute key t.hash) with
  | none => none
  | some hash =>
    if t.hasRange then
      match t.range.part? (keyAttribute key t.range) with
      | none => none
      | some range => some ⟨t.name, hash, some range⟩
    else some ⟨t.name, hash, none⟩

theorem fits_of_slot? {t : TableSchema} {key : Item} {slot : Slot}
    (found : t.slot? key = some slot) : slot.Fits t := by
  rw [slot?] at found
  split at found
  · cases found
  · rename_i hash hashFound
    split at found
    · rename_i ranged
      split at found
      · cases found
      · rename_i range rangeFound
        cases found
        refine ⟨rfl, KeyDefinition.kind_of_part? hashFound, ?_⟩
        simp [ranged, KeyDefinition.kind_of_part? rangeFound]
    · rename_i unranged
      cases found
      exact ⟨rfl, KeyDefinition.kind_of_part? hashFound, by simp [unranged]⟩

/-- Storage keys are the places of slots. -/
theorem storageKey_eq_ok_iff {t : TableSchema} {key : Item} {place : Bytes} :
    t.storageKey key = .ok place ↔ ∃ slot, t.slot? key = some slot ∧ place = slot.place := by
  have hashes := @StorageKey.value_eq_ok_iff t.hash (keyAttribute key t.hash)
  have ranges := @StorageKey.value_eq_ok_iff t.range (keyAttribute key t.range)
  rw [storageKey, partitionStart, slot?, keyStart]
  cases hashPart : t.hash.part? (keyAttribute key t.hash) with
  | none =>
    simp only [hashPart] at hashes
    cases hashValue : StorageKey.value t.hash (keyAttribute key t.hash) with
    | error cause => simp
    | ok bytes => simp [hashes] at hashValue
  | some hash =>
    have hashValue := hashes.mpr ⟨hash, hashPart, rfl⟩
    simp only [hashValue]
    by_cases ranged : t.hasRange = true
    · simp only [ranged, if_true]
      cases rangePart : t.range.part? (keyAttribute key t.range) with
      | none =>
        simp only [rangePart] at ranges
        cases rangeValue : StorageKey.value t.range (keyAttribute key t.range) with
        | error cause => simp
        | ok bytes => simp [ranges] at rangeValue
      | some range =>
        have rangeValue := ranges.mpr ⟨range, rangePart, rfl⟩
        simp [rangeValue, Slot.place, Slot.rangeWritten, eq_comm]
    · simp [ranged, Slot.place, Slot.rangeWritten, eq_comm]

end TableSchema

end DocTable
