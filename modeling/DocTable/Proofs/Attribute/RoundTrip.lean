import DocTable.Attribute.Decode
import DocTable.Attribute.Encode
import DocTable.Proofs.Keyed
import DocTable.Proofs.Number.Integers
import DocTable.Proofs.Outcome

/-!
# Values that are read back

Attribute values have one form for each of many values: all integers are numbers, documents and maps are maps, and
so are lists and arrays, with their positions as names.  What is read back has the form that all of them share,
the normal one (`Value.normalised`).

An attribute value and a plain value represent each other if each is made from the other
(`AttributeValue.Represents`).  Portable values are those whose parts have a normal form at every depth
(`Value.Portable`); the attribute value of a portable value and its normal form represent each other
(`Value.Portable.represents`), and plain values are their own normal forms (`Value.Plain.normalised_eq`).  So reading
undoes writing up to the normal form (`Value.decode_encode_normalised`).
-/

namespace DocTable

set_option autoImplicit false

open Number

/-- An integer of 64 bits. -/
def IsInt64 (n : Int) : Prop := -9223372036854775808 ≤ n ∧ n ≤ 9223372036854775807

namespace Value

/-! ## Normal forms -/

/-- Values with their positions as names. -/
def numbered (items : List Value) : List (String × Value) := items.mapIdx fun i item => (toString i, item)

mutual
/-- The normal form of a value: integers are of 64 bits, documents and maps are maps in which the last field of a
name stays, lists are maps by position, and the operands of filters and the targets of references stand for
themselves. -/
def normalised : Value → Value
  | .integer _ n => .int64 n
  | .namedInteger n => .int64 n
  | .namedUnsigned n => .int64 n
  | .namedText t => .text t
  | .document fields => .map (Keyed.ofList (normalisedFields fields))
  | .map fields => .map (Keyed.ofList (normalisedFields fields))
  | .textMap fields => .map (Keyed.mapValues .text fields)
  | .list items => .map (Keyed.ofList (numbered (normalisedItems items)))
  | .texts items => .map (Keyed.ofList (numbered (items.map .text)))
  | .byteStrings items => .map (Keyed.ofList (numbered (items.map .bytes)))
  | .integers items => .map (Keyed.ofList (numbered (items.map .int64)))
  | .literal operand => operand.normalised
  | .comparison _ operand => operand.normalised
  | .reference target => target.normalised
  | .nullReference => .null
  | v => v

/-- The normal forms of named values. -/
def normalisedFields : List (String × Value) → List (String × Value)
  | [] => []
  | (k, v) :: rest => (k, v.normalised) :: normalisedFields rest

/-- The normal forms of listed values. -/
def normalisedItems : List Value → List Value
  | [] => []
  | v :: rest => v.normalised :: normalisedItems rest
end

/-- A value that has a normal form at every depth.  Maps have their fields in the order of their names. -/
inductive Portable : Value → Prop where
  | null : Portable .null
  | bool (value : Bool) : Portable (.bool value)
  | text (value : String) : Portable (.text value)
  | raw (octets : Text.Raw) : Portable (.raw octets)
  | namedText (value : String) : Portable (.namedText value)
  | bytes (value : Bytes) : Portable (.bytes value)
  | integer (type : IntegerType) {n : Int} (within : IsInt64 n) : Portable (.integer type n)
  | namedInteger {n : Int} (within : IsInt64 n) : Portable (.namedInteger n)
  | namedUnsigned {n : Nat} (within : IsInt64 n) : Portable (.namedUnsigned n)
  | document {fields : List (String × Value)} (each : ∀ field ∈ fields, Portable field.2) :
      Portable (.document fields)
  | map {fields : List (String × Value)} (each : ∀ field ∈ fields, Portable field.2) : Portable (.map fields)
  | textMap {fields : List (String × String)} (ascending : Keyed.Ascending fields) : Portable (.textMap fields)
  | list {items : List Value} (each : ∀ item ∈ items, Portable item) : Portable (.list items)
  | texts (items : List String) : Portable (.texts items)
  | byteStrings (items : List Bytes) : Portable (.byteStrings items)
  | integers {items : List Int} (each : ∀ n ∈ items, IsInt64 n) : Portable (.integers items)
  | literal {operand : Value} (portable : Portable operand) : Portable (.literal operand)
  | comparison (operator : Operator) {operand : Value} (portable : Portable operand) :
      Portable (.comparison operator operand)
  | reference {target : Value} (portable : Portable target) (noLiteral : ∀ operand, target ≠ .literal operand)
      (noComparison : ∀ operator operand, target ≠ .comparison operator operand) : Portable (.reference target)
  | nullReference : Portable .nullReference

/-- A value in its normal form. -/
inductive Plain : Value → Prop where
  | null : Plain .null
  | bool (value : Bool) : Plain (.bool value)
  | text (value : String) : Plain (.text value)
  | raw (octets : Text.Raw) : Plain (.raw octets)
  | bytes (value : Bytes) : Plain (.bytes value)
  | int64 {n : Int} (within : IsInt64 n) : Plain (.int64 n)
  | map {fields : List (String × Value)} (ascending : Keyed.Ascending fields)
      (each : ∀ field ∈ fields, Plain field.2) : Plain (.map fields)

theorem Plain.portable {v : Value} (plain : v.Plain) : v.Portable := by
  induction plain with
  | null => exact .null
  | bool value => exact .bool value
  | text value => exact .text value
  | raw octets => exact .raw octets
  | bytes value => exact .bytes value
  | int64 within => exact .integer .int64 within
  | map _ _ each => exact .map each

/-- A plain value is its own normal form. -/
theorem Plain.normalised_eq {v : Value} (plain : v.Plain) : v.normalised = v := by
  induction plain with
  | null => rfl
  | bool value => rfl
  | text value => rfl
  | raw octets => rfl
  | bytes value => rfl
  | int64 within => rfl
  | @map fields ascending _ each =>
    have same : ∀ {fields : List (String × Value)}, (∀ field ∈ fields, field.2.normalised = field.2) →
        normalisedFields fields = fields := by
      intro fields each
      induction fields with
      | nil => rfl
      | cons field rest ih =>
        obtain ⟨here, later⟩ := List.forall_mem_cons.mp each
        rw [normalisedFields, here, ih later]
    rw [normalised, same each, Keyed.ofList_of_ascending ascending]

end Value

namespace AttributeValue

/-! ## Values that represent each other -/

/-- An attribute value and a plain value, each made from the other. -/
structure Represents (a : AttributeValue) (v : Value) : Prop where
  plain : v.Plain
  decoded : Decode.value a = .ok v
  encoded : ∀ path, Encode.value path v = .ok a

theorem represents_integer {n : Int} (within : IsInt64 n) : Represents (.n (toString n)) (.int64 n) where
  plain := .int64 within
  decoded := by rw [Decode.value, Decode.number, readSigned_toString within.1 within.2]
  encoded _ := rfl

variable {attributes : List (String × AttributeValue)} {fields : List (String × Value)}

theorem fieldValues_of_matches (matching : Keyed.Matches Represents attributes fields) :
    Decode.fieldValues attributes = .ok fields := by
  induction matching with
  | nil => rfl
  | @cons x y _ _ same _ ih =>
    obtain ⟨k, a⟩ := x
    obtain ⟨l, v⟩ := y
    obtain ⟨keys, represents⟩ := same
    have sameKey : k = l := keys
    subst sameKey
    simp only [Decode.fieldValues, represents.decoded, ih]
    rfl

theorem fieldsAt_of_matches (matching : Keyed.Matches Represents attributes fields) (path : String) :
    Encode.fieldsAt path fields = .ok attributes := by
  induction matching with
  | nil => rfl
  | @cons x y _ _ same _ ih =>
    obtain ⟨k, a⟩ := x
    obtain ⟨l, v⟩ := y
    obtain ⟨keys, represents⟩ := same
    have sameKey : k = l := keys
    subst sameKey
    rw [Encode.fieldsAt, represents.encoded, ih]
    rfl

theorem plain_of_matches (matching : Keyed.Matches Represents attributes fields) :
    ∀ field ∈ fields, field.2.Plain := by
  induction matching with
  | nil => exact List.forall_mem_nil _
  | cons same _ ih => exact List.forall_mem_cons.mpr ⟨same.2.plain, ih⟩

/-- Maps represent each other if they have the same names, in order, and their values represent each other. -/
theorem represents_map (matching : Keyed.Matches Represents attributes fields)
    (ascending : Keyed.Ascending fields) : Represents (.m attributes) (.map fields) where
  plain := .map ascending (plain_of_matches matching)
  decoded := by
    rw [Decode.value, fieldValues_of_matches matching]
    rfl
  encoded path := by
    have inOrder := Keyed.ofList_of_ascending (matching.ascending ascending)
    rw [Encode.value, fieldsAt_of_matches matching]
    change Except.ok (AttributeValue.m (Keyed.ofList attributes)) = _
    rw [inOrder]

theorem represents_ofList (matching : Keyed.Matches Represents attributes fields) :
    Represents (.m (Keyed.ofList attributes)) (.map (Keyed.ofList fields)) :=
  represents_map matching.ofList (Keyed.ascending_ofList fields)

theorem positions_eq_mapIdx {α : Type} (items : List α) (start : Nat) :
    Encode.positions start items = items.mapIdx fun i item => (toString (start + i), item) := by
  induction items generalizing start with
  | nil => rfl
  | cons item rest ih =>
    rw [Encode.positions, ih, List.mapIdx_cons]
    simp only [Nat.add_zero, Nat.add_assoc, Nat.add_comm 1]

/-- Lists of values that represent each other do so by position. -/
theorem represents_numbered {items : List AttributeValue} {values : List Value}
    (each : List.Forall₂ Represents items values) :
    Represents (.m (Keyed.ofList (Encode.positions 0 items))) (.map (Keyed.ofList (Value.numbered values))) := by
  have matching : ∀ start, Keyed.Matches Represents (Encode.positions start items)
      (Encode.positions start values) := by
    induction each with
    | nil => exact fun _ => .nil
    | cons here _ ih => exact fun start => .cons ⟨rfl, here⟩ (ih (start + 1))
  have byPosition := represents_ofList (matching 0)
  simp only [positions_eq_mapIdx values, Nat.zero_add] at byPosition
  exact byPosition

/-- Items of one kind represent each other if each attribute value represents the value of the same item. -/
theorem represents_indexed {α : Type} {items : List α} {form : α → AttributeValue} {value : α → Value}
    (each : ∀ item ∈ items, Represents (form item) (value item)) :
    Represents (Encode.indexed (items.map form)) (.map (Keyed.ofList (Value.numbered (items.map value)))) := by
  refine represents_numbered ?_
  rw [List.forall₂_map_left_iff, List.forall₂_map_right_iff]
  exact List.forall₂_same.mpr each

end AttributeValue

namespace Value

/-! ## Writing and reading -/

open AttributeValue

/-- An attribute value of a value, wherever it stands, that represents its normal form. -/
def Carries (v : Value) (a : AttributeValue) : Prop :=
  (∀ path, Encode.value path v = .ok a) ∧ a.Represents v.normalised

theorem exists_fieldsAt {fields : List (String × Value)} (each : ∀ field ∈ fields, ∃ a, field.2.Carries a) :
    ∃ attributes, (∀ path, Encode.fieldsAt path fields = .ok attributes) ∧
      Keyed.Matches Represents attributes (normalisedFields fields) := by
  induction fields with
  | nil => exact ⟨[], fun _ => rfl, .nil⟩
  | cons field rest ih =>
    obtain ⟨⟨a, encoded, represents⟩, later⟩ := List.forall_mem_cons.mp each
    obtain ⟨attributes, encodedRest, matching⟩ := ih later
    refine ⟨(field.1, a) :: attributes, fun path => ?_, .cons ⟨rfl, represents⟩ matching⟩
    rw [Encode.fieldsAt, encoded, encodedRest]
    rfl

theorem exists_itemsAt {items : List Value} (each : ∀ item ∈ items, ∃ a, item.Carries a) (start : Nat) :
    ∃ attributes, (∀ path, Encode.itemsAt path start items = .ok (Encode.positions start attributes)) ∧
      List.Forall₂ Represents attributes (normalisedItems items) := by
  induction items generalizing start with
  | nil => exact ⟨[], fun _ => rfl, .nil⟩
  | cons item rest ih =>
    obtain ⟨⟨a, encoded, represents⟩, later⟩ := List.forall_mem_cons.mp each
    obtain ⟨attributes, encodedRest, forms⟩ := ih later (start + 1)
    refine ⟨a :: attributes, fun path => ?_, .cons represents forms⟩
    rw [Encode.itemsAt, encoded, encodedRest]
    rfl

/-- A reference is written as its target, unless that is a filter. -/
theorem encode_reference {target : Value} (noLiteral : ∀ operand, target ≠ .literal operand)
    (noComparison : ∀ operator operand, target ≠ .comparison operator operand) (path : String) :
    Encode.value path (.reference target) = Encode.value path target := by
  cases target with
  | literal operand => exact absurd rfl (noLiteral operand)
  | comparison operator operand => exact absurd rfl (noComparison operator operand)
  | _ => simp only [Encode.value]

/-- A portable value is written, and what is written represents its normal form. -/
theorem Portable.represents {v : Value} (portable : v.Portable) : ∃ a, v.Carries a := by
  induction portable with
  | null => exact ⟨_, fun _ => rfl, .null, rfl, fun _ => rfl⟩
  | bool value => exact ⟨_, fun _ => rfl, .bool value, rfl, fun _ => rfl⟩
  | text value => exact ⟨_, fun _ => rfl, .text value, rfl, fun _ => rfl⟩
  | raw octets => exact ⟨_, fun _ => rfl, .raw octets, rfl, fun _ => rfl⟩
  | namedText value => exact ⟨_, fun _ => rfl, .text value, rfl, fun _ => rfl⟩
  | bytes value => exact ⟨_, fun _ => rfl, .bytes value, rfl, fun _ => rfl⟩
  | integer type within => exact ⟨_, fun _ => rfl, represents_integer within⟩
  | namedInteger within => exact ⟨_, fun _ => rfl, represents_integer within⟩
  | namedUnsigned within => exact ⟨_, fun _ => rfl, represents_integer within⟩
  | document _ ih =>
    obtain ⟨attributes, encoded, matching⟩ := exists_fieldsAt ih
    refine ⟨_, fun path => ?_, represents_ofList matching⟩
    rw [Encode.value, encoded]
    rfl
  | map _ ih =>
    obtain ⟨attributes, encoded, matching⟩ := exists_fieldsAt ih
    refine ⟨_, fun path => ?_, represents_ofList matching⟩
    rw [Encode.value, encoded]
    rfl
  | @textMap fields ascending =>
    refine ⟨_, fun _ => rfl, represents_map ?_ (List.pairwise_map.mpr ascending)⟩
    rw [Keyed.Matches, Keyed.mapValues, Keyed.mapValues, List.forall₂_map_left_iff, List.forall₂_map_right_iff]
    exact List.forall₂_same.mpr fun field _ => ⟨rfl, .text field.2, rfl, fun _ => rfl⟩
  | list _ ih =>
    obtain ⟨attributes, encoded, forms⟩ := exists_itemsAt ih 0
    refine ⟨_, fun path => ?_, represents_numbered forms⟩
    rw [Encode.value, encoded]
    rfl
  | texts items =>
    exact ⟨_, fun _ => rfl, represents_indexed fun item _ => ⟨.text item, rfl, fun _ => rfl⟩⟩
  | byteStrings items =>
    exact ⟨_, fun _ => rfl, represents_indexed fun item _ => ⟨.bytes item, rfl, fun _ => rfl⟩⟩
  | integers each => exact ⟨_, fun _ => rfl, represents_indexed fun n member => represents_integer (each n member)⟩
  | literal _ ih => exact ih
  | comparison _ _ ih => exact ih
  | reference _ noLiteral noComparison ih =>
    obtain ⟨a, encoded, represents⟩ := ih
    exact ⟨a, fun path => (encode_reference noLiteral noComparison path).trans (encoded path), represents⟩
  | nullReference => exact ⟨_, fun _ => rfl, .null, rfl, fun _ => rfl⟩

/-- **Reading undoes writing up to the normal form.**  A portable value is written as an attribute value, which is
read as the normal form of the value; the normal form is plain, and written as the same attribute value again.  A
plain value is read back as it is. -/
theorem decode_encode_normalised (v : Value) :
    (v.Portable → ∃ a, v.encode = .ok a ∧ a.decode = .ok v.normalised ∧ v.normalised.encode = .ok a ∧
      v.normalised.Plain) ∧
    (v.Plain → ∃ a, v.encode = .ok a ∧ a.decode = .ok v) := by
  have whole : v.Portable → ∃ a, v.encode = .ok a ∧ a.decode = .ok v.normalised ∧
      v.normalised.encode = .ok a ∧ v.normalised.Plain := by
    intro portable
    obtain ⟨a, encoded, represents⟩ := portable.represents
    exact ⟨a, encoded "", represents.decoded, represents.encoded "", represents.plain⟩
  refine ⟨whole, fun plain => ?_⟩
  obtain ⟨a, encoded, decoded, -⟩ := whole plain.portable
  rw [plain.normalised_eq] at decoded
  exact ⟨a, encoded, decoded⟩

end Value

namespace Families

/-- A parent with two children and two ages. -/
def parent : Value :=
  .document [("age", .integer .uint8 41), ("name", .namedText "ann"),
    ("children", .list [.text "bob", .reference (.textMap [("name", "cid")])]),
    ("age", .comparison .gt (.integer .int16 42))]

end Families

/-- A parent is read back with the last age, and with the children by position. -/
theorem Value.decode_encode_normalised_of_parent :
    ∃ a, Families.parent.encode = .ok a ∧ a.decode = .ok (.map [("age", .int64 42),
      ("children", .map [("0", .text "bob"), ("1", .map [("name", .text "cid")])]), ("name", .text "ann")]) := by
  have within : ∀ n ∈ [(41 : Int), 42], IsInt64 n := by simp [IsInt64]
  have children : ∀ child ∈ [Value.text "bob", .reference (.textMap [("name", "cid")])], child.Portable := by
    refine List.forall_mem_cons.mpr ⟨.text "bob", List.forall_mem_singleton.mpr (.reference ?_ ?_ ?_)⟩
    · exact .textMap (List.pairwise_singleton _ _)
    · exact fun _ same => (nomatch same)
    · exact fun _ _ same => (nomatch same)
  have portable : Families.parent.Portable :=
    .document (List.forall_mem_cons.mpr ⟨.integer _ (within 41 (by simp)),
      List.forall_mem_cons.mpr ⟨.namedText _, List.forall_mem_cons.mpr ⟨.list children,
        List.forall_mem_singleton.mpr (.comparison _ (.integer _ (within 42 (by simp))))⟩⟩⟩)
  obtain ⟨a, encoded, decoded, -⟩ := (Value.decode_encode_normalised _).1 portable
  exact ⟨a, encoded, decoded.trans rfl⟩

end DocTable
