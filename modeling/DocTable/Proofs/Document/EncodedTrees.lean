import DocTable.Document.Parse
import DocTable.Path
import DocTable.Proofs.Attribute.EncodedDocuments
import DocTable.Proofs.Attribute.RoundTrip

/-!
# Trees of documents, read and encoded

A document is read from a tree, and a field of it is encoded to an attribute value.  Both together turn a
sequence into a map by position and a mapping into a map by the texts of its keys
(`Document.yields_sequence_iff`, `Document.yields_mapping_iff`).  So both succeed if they do at the leaves
of the tree (`Document.exists_ofNode`, `Document.exists_yields`), and what stands at a path in the tree is
encoded at the same path (`Document.yields_of_standsIn`).

Names may be repeated in a mapping.  A name then leads to the last field that has it, as it does in the map.
-/

namespace DocTable

set_option autoImplicit false

/-! ## Equal trees

No instance is derived for a type that is nested in lists and pairs of itself. -/

namespace Yaml.Node

mutual
/-- Whether two nodes are the same. -/
def same : Node → Node → Bool
  | .scalar line tag plain text, .scalar line' tag' plain' text' =>
    line == line' && tag == tag' && plain == plain' && text == text'
  | .sequence line tag items, .sequence line' tag' items' =>
    line == line' && tag == tag' && sameItems items items'
  | .mapping line tag pairs, .mapping line' tag' pairs' =>
    line == line' && tag == tag' && samePairs pairs pairs'
  | .alias line name target, .alias line' name' target' =>
    line == line' && name == name' && same target target'
  | .enclosing line name number, .enclosing line' name' number' =>
    line == line' && name == name' && number == number'
  | _, _ => false

/-- Whether listed nodes are the same. -/
def sameItems : List Node → List Node → Bool
  | [], [] => true
  | node :: rest, node' :: rest' => same node node' && sameItems rest rest'
  | _, _ => false

/-- Whether the keys and values of a mapping are the same. -/
def samePairs : List (Node × Node) → List (Node × Node) → Bool
  | [], [] => true
  | (key, node) :: rest, (key', node') :: rest' =>
    same key key' && same node node' && samePairs rest rest'
  | _, _ => false
end

mutual
theorem same_iff : ∀ {a b : Node}, same a b = true ↔ a = b
  | .scalar .., b => by cases b <;> simp [same, and_assoc]
  | .sequence _ _ items, b => by cases b <;> simp [same, and_assoc, @sameItems_iff items]
  | .mapping _ _ pairs, b => by cases b <;> simp [same, and_assoc, @samePairs_iff pairs]
  | .alias _ _ target, b => by cases b <;> simp [same, and_assoc, @same_iff target]
  | .enclosing .., b => by cases b <;> simp [same, and_assoc]

theorem sameItems_iff : ∀ {items others : List Node}, sameItems items others = true ↔ items = others
  | [], others => by cases others <;> simp [sameItems]
  | node :: rest, others => by cases others <;> simp [sameItems, @same_iff node, @sameItems_iff rest]

theorem samePairs_iff : ∀ {pairs others : List (Node × Node)},
    samePairs pairs others = true ↔ pairs = others
  | [], others => by cases others <;> simp [samePairs]
  | (key, node) :: rest, others => by
    cases others <;> simp [samePairs, Prod.ext_iff, @same_iff key, @same_iff node, @samePairs_iff rest]
end

instance : DecidableEq Node := fun _ _ => decidable_of_iff _ same_iff

end Yaml.Node

deriving instance DecidableEq for Yaml.Anchor, Yaml.Tree

/-! ## Places in trees -/

namespace Yaml.Node

/-- A node stands in another at a path: the node itself at the end of the path, behind an alias, an item
by its position, and of the fields of a mapping the last one of a name. -/
inductive StandsIn (there : Node) : Node → Path → Prop where
  | here : StandsIn there there []
  | item {line : Nat} {tag : String} {items : List Node} {position : Nat} {node : Node} {path : Path} :
      items[position]? = some node → StandsIn there node path →
      StandsIn there (.sequence line tag items) (toString position :: path)
  | field {line : Nat} {tag : String} {before after : List (Node × Node)} {key node : Node} {path : Path} :
      (∀ pair ∈ after, pair.1.text ≠ key.text) → StandsIn there node path →
      StandsIn there (.mapping line tag (before ++ (key, node) :: after)) (key.text :: path)
  | through {line : Nat} {name : String} {target : Node} {path : Path} :
      StandsIn there target path → StandsIn there (.alias line name target) path

mutual
/-- The nodes in a node that hold no others: scalars, and aliases of what is around them. -/
def leaves : Node → List Node
  | .sequence _ _ items => leavesOfItems items
  | .mapping _ _ pairs => leavesOfPairs pairs
  | .alias _ _ target => target.leaves
  | leaf => [leaf]

/-- The leaves of listed nodes. -/
def leavesOfItems : List Node → List Node
  | [] => []
  | node :: rest => node.leaves ++ leavesOfItems rest

/-- The leaves of the values of a mapping. -/
def leavesOfPairs : List (Node × Node) → List Node
  | [] => []
  | (_, node) :: rest => node.leaves ++ leavesOfPairs rest
end

end Yaml.Node

/-- The value at a path in the maps of a value. -/
def AttributeValue.at? (v : AttributeValue) : Path → Option AttributeValue
  | [] => some v
  | step :: rest => match v.fields? with
    | some fields => (Keyed.lookup step fields).bind (·.at? rest)
    | none => none

/-! ## Collections -/

namespace Document

open Yaml

theorem ofNodes_eq_ok_iff {items : List Node} {values : List Value} :
    ofNodes items = .ok values ↔ List.Forall₂ (fun node v => ofNode node = .ok v) items values :=
  Outcome.each_eq_ok_iff ofNode ofNodes (by rw [ofNodes]) (fun _ _ => by rw [ofNodes]) fun _ _ => Iff.rfl

/-- The fields of a mapping have the texts of its keys as names. -/
theorem ofPairs_eq_ok_iff {pairs : List (Node × Node)} {fields : Document} :
    ofPairs pairs = .ok fields ↔
      List.Forall₂ (fun pair field => pair.1.text = field.1 ∧ ofNode pair.2 = .ok field.2)
        pairs fields := by
  refine Outcome.each_eq_ok_iff (fun pair : Node × Node => do
    let value ← (ofNode pair.2).mapError (.field pair.1.text)
    return (pair.1.text, value)) ofPairs (by rw [ofPairs]) ?_ ?_
  · rintro ⟨key, node⟩ rest
    rw [ofPairs]
    dsimp only
    cases ofNode node <;> rfl
  · rintro ⟨key, node⟩ ⟨name, v⟩
    dsimp only
    cases ofNode node with
    | error cause => exact ⟨nofun, nofun⟩
    | ok value => simp [Except.mapError, bind, Except.bind, pure, Except.pure]

end Document

namespace Encode

theorem value_eq_ok_iff {path : String} {v : Value} {a : AttributeValue} :
    value path v = .ok a ↔ v.encode = .ok a := ⟨value_congr, value_congr⟩

theorem fieldsAt_eq_ok_iff {path : String} {fields : List (String × Value)} {encoded : Item} :
    fieldsAt path fields = .ok encoded ↔ Keyed.Matches (fun v a => v.encode = .ok a) fields encoded := by
  refine Outcome.each_eq_ok_iff (fun field : String × Value => do
    let a ← value (join path field.1) field.2
    return (field.1, a)) (fieldsAt path) (by rw [fieldsAt]) ?_ ?_
  · rintro ⟨name, v⟩ rest
    rw [fieldsAt]
    dsimp only
    cases value (join path name) v <;> rfl
  · rintro ⟨name, v⟩ ⟨other, a⟩
    dsimp only
    rw [← @value_eq_ok_iff (join path name)]
    cases value (join path name) v <;> simp [bind, Except.bind, pure, Except.pure]

/-- The names of listed values are their positions. -/
theorem itemsAt_eq_ok_iff {path : String} {start : Nat} {items : List Value} {encoded : Item} :
    itemsAt path start items = .ok encoded ↔
      ∃ values, List.Forall₂ (fun v a => Value.encode v = .ok a) items values ∧
        encoded = positions start values := by
  induction items generalizing start encoded with
  | nil =>
    rw [itemsAt]
    constructor
    · intro done
      cases done
      exact ⟨[], .nil, rfl⟩
    · rintro ⟨_, _ | _, rfl⟩
      rfl
  | cons v rest ih =>
    rw [itemsAt]
    constructor
    · intro done
      obtain ⟨first, here, done⟩ := Outcome.ok_of_bind done
      obtain ⟨tail, there, done⟩ := Outcome.ok_of_bind done
      cases done
      obtain ⟨values, each, rfl⟩ := ih.mp there
      exact ⟨first :: values, .cons (value_eq_ok_iff.mp here) each, rfl⟩
    · rintro ⟨_, _ | ⟨here, each⟩, rfl⟩
      rw [value_eq_ok_iff.mpr here, ih.mpr ⟨_, each, rfl⟩]
      rfl

end Encode

/-! ## What is found in encoded collections -/

/-- The last entry of a key stays. -/
theorem Keyed.lookup_ofList_of_last {α : Type} {before after : Fields α} {key : String} {value : α}
    (last : ∀ entry ∈ after, entry.1 ≠ key) :
    Keyed.lookup key (Keyed.ofList (before ++ (key, value) :: after)) = some value := by
  have stays : ∀ base : Fields α,
      Keyed.lookup key (Keyed.insertAll base (before ++ (key, value) :: after)) = some value := by
    induction before with
    | nil =>
      refine fun base => Keyed.lookup_insertAll_of_mem List.mem_cons_self fun entry member same => ?_
      rcases List.mem_cons.mp member with rfl | later
      · rfl
      · exact absurd same (last entry later)
    | cons entry rest ih => exact fun base => ih _
  exact stays []

theorem Encode.lookup_positions {values : List AttributeValue} {position : Nat} {a : AttributeValue}
    (listed : values[position]? = some a) :
    Keyed.lookup (toString position) (Keyed.ofList (positions 0 values)) = some a := by
  simp only [AttributeValue.positions_eq_mapIdx, Nat.zero_add]
  obtain ⟨within, rfl⟩ := List.getElem?_eq_some_iff.mp listed
  refine Keyed.lookup_insertAll_of_mem (List.mem_mapIdx.mpr ⟨position, within, rfl⟩) ?_
  intro entry member same
  obtain ⟨i, there, rfl⟩ := List.mem_mapIdx.mp member
  have digits := congrArg String.toList same
  dsimp only [toString] at digits
  rw [Nat.toList_repr, Nat.toList_repr] at digits
  have samePosition : i = position := by
    have value := congrArg (Nat.ofDigitChars 10 · 0) digits
    simpa only [Nat.ofDigitChars_ten_toDigits] using value
  subst samePosition
  rfl

/-! ## Reading and encoding trees -/

namespace Document

open Yaml

mutual
/-- A tree can be read if its leaves can. -/
theorem exists_ofNode : ∀ {node : Node}, (∀ leaf ∈ node.leaves, ∃ v, ofNode leaf = .ok v) →
    ∃ v, ofNode node = .ok v
  | .sequence _ _ items, each => by
    obtain ⟨values, read⟩ := exists_forall₂_iff.mpr (exists_ofItems each)
    exact ⟨.list values, by rw [ofNode, ofNodes_eq_ok_iff.mpr read]; rfl⟩
  | .mapping _ _ pairs, each => by
    obtain ⟨fields, read⟩ := exists_ofPairs each
    exact ⟨.document fields, by rw [ofNode, read]; rfl⟩
  | .alias _ _ _, each => by
    rw [ofNode]
    exact exists_ofNode each
  | .scalar _ _ _ _, each | .enclosing _ _ _, each => each _ List.mem_cons_self

theorem exists_ofItems : ∀ {items : List Node},
    (∀ leaf ∈ Node.leavesOfItems items, ∃ v, ofNode leaf = .ok v) →
    ∀ node ∈ items, ∃ v, ofNode node = .ok v
  | [], _ => List.forall_mem_nil _
  | node :: rest, each => by
    obtain ⟨here, there⟩ := List.forall_mem_append.mp each
    exact List.forall_mem_cons.mpr ⟨exists_ofNode here, exists_ofItems there⟩

theorem exists_ofPairs : ∀ {pairs : List (Node × Node)},
    (∀ leaf ∈ Node.leavesOfPairs pairs, ∃ v, ofNode leaf = .ok v) →
    ∃ fields, ofPairs pairs = .ok fields
  | [], _ => ⟨[], by rw [ofPairs]⟩
  | (key, node) :: rest, each => by
    obtain ⟨here, there⟩ := List.forall_mem_append.mp each
    obtain ⟨v, read⟩ := exists_ofNode here
    obtain ⟨fields, readRest⟩ := exists_ofPairs there
    exact ⟨(key.text, v) :: fields, by rw [ofPairs, read, readRest]; rfl⟩
end

/-- A node is read as a value that is encoded to an attribute value. -/
def Yields (node : Node) (a : AttributeValue) : Prop := ∃ v, ofNode node = .ok v ∧ v.encode = .ok a

variable {line : Nat} {tag : String} {a : AttributeValue}

theorem forall₂_yields_iff {items : List Node} {values : List AttributeValue} :
    List.Forall₂ Yields items values ↔ ∃ nodes, ofNodes items = .ok nodes ∧
      List.Forall₂ (fun v a => Value.encode v = .ok a) nodes values := by
  simp only [ofNodes_eq_ok_iff]
  exact forall₂_exists_iff

/-- A sequence becomes a map by position. -/
theorem yields_sequence_iff {items : List Node} :
    Yields (.sequence line tag items) a ↔
      ∃ values, List.Forall₂ Yields items values ∧ a = Encode.indexed values := by
  simp only [forall₂_yields_iff]
  rw [Yields, ofNode]
  constructor
  · rintro ⟨v, read, encoded⟩
    obtain ⟨nodes, readNodes, read⟩ := Outcome.ok_of_bind read
    cases read
    obtain ⟨entries, encodedItems, encoded⟩ := Outcome.ok_of_bind encoded
    cases encoded
    obtain ⟨values, each, rfl⟩ := Encode.itemsAt_eq_ok_iff.mp encodedItems
    exact ⟨values, ⟨nodes, readNodes, each⟩, rfl⟩
  · rintro ⟨values, ⟨nodes, readNodes, each⟩, rfl⟩
    refine ⟨.list nodes, by rw [readNodes]; rfl, ?_⟩
    rw [Value.encode, Encode.value, Encode.itemsAt_eq_ok_iff.mpr ⟨values, each, rfl⟩]
    rfl

/-- A pair of a mapping becomes a field with the text of the key as its name. -/
def YieldsField (pair : Node × Node) (field : String × AttributeValue) : Prop :=
  pair.1.text = field.1 ∧ Yields pair.2 field.2

theorem forall₂_yieldsField_iff {pairs : List (Node × Node)} {fields : Item} :
    List.Forall₂ YieldsField pairs fields ↔ ∃ read, ofPairs pairs = .ok read ∧
      Keyed.Matches (fun v a => Value.encode v = .ok a) read fields := by
  simp only [ofPairs_eq_ok_iff, Keyed.Matches, ← forall₂_exists_iff]
  have same : ∀ (pair : Node × Node) (field : String × AttributeValue), YieldsField pair field ↔
      ∃ middle : String × Value, (pair.1.text = middle.1 ∧ ofNode pair.2 = .ok middle.2) ∧
        middle.1 = field.1 ∧ middle.2.encode = .ok field.2 := by
    intro pair field
    constructor
    · rintro ⟨name, v, read, encoded⟩
      exact ⟨(pair.1.text, v), ⟨rfl, read⟩, name, encoded⟩
    · rintro ⟨⟨name, v⟩, ⟨text, read⟩, field, encoded⟩
      exact ⟨text.trans field, v, read, encoded⟩
  exact ⟨List.Forall₂.imp fun _ _ => (same _ _).mp, List.Forall₂.imp fun _ _ => (same _ _).mpr⟩

/-- A mapping becomes a map by the texts of its keys; of repeated ones the last stays. -/
theorem yields_mapping_iff {pairs : List (Node × Node)} :
    Yields (.mapping line tag pairs) a ↔
      ∃ fields, List.Forall₂ YieldsField pairs fields ∧ a = .m (Keyed.ofList fields) := by
  simp only [forall₂_yieldsField_iff]
  rw [Yields, ofNode]
  constructor
  · rintro ⟨v, read, encoded⟩
    obtain ⟨d, readPairs, read⟩ := Outcome.ok_of_bind read
    cases read
    obtain ⟨fields, encodedFields, encoded⟩ := Outcome.ok_of_bind encoded
    cases encoded
    exact ⟨fields, ⟨d, readPairs, Encode.fieldsAt_eq_ok_iff.mp encodedFields⟩, rfl⟩
  · rintro ⟨fields, ⟨d, readPairs, each⟩, rfl⟩
    refine ⟨.document d, by rw [readPairs]; rfl, ?_⟩
    rw [Value.encode, Encode.value, Encode.fieldsAt_eq_ok_iff.mpr each]
    rfl

theorem yields_alias_iff {name : String} {target : Node} :
    Yields (.alias line name target) a ↔ Yields target a := by
  rw [Yields, Yields, ofNode]

mutual
/-- A tree can be encoded if its leaves can. -/
theorem exists_yields : ∀ {node : Node}, (∀ leaf ∈ node.leaves, ∃ a, Yields leaf a) → ∃ a, Yields node a
  | .sequence _ _ items, each => by
    obtain ⟨values, yielded⟩ := exists_forall₂_iff.mpr (exists_yields_items each)
    exact ⟨_, yields_sequence_iff.mpr ⟨values, yielded, rfl⟩⟩
  | .mapping _ _ pairs, each => by
    obtain ⟨fields, yielded⟩ := exists_forall₂_iff.mpr (exists_yields_pairs each)
    exact ⟨_, yields_mapping_iff.mpr ⟨fields, yielded, rfl⟩⟩
  | .alias _ _ _, each => by
    simp only [yields_alias_iff]
    exact exists_yields each
  | .scalar _ _ _ _, each | .enclosing _ _ _, each => each _ List.mem_cons_self

theorem exists_yields_items : ∀ {items : List Node},
    (∀ leaf ∈ Node.leavesOfItems items, ∃ a, Yields leaf a) → ∀ node ∈ items, ∃ a, Yields node a
  | [], _ => List.forall_mem_nil _
  | node :: rest, each => by
    obtain ⟨here, there⟩ := List.forall_mem_append.mp each
    exact List.forall_mem_cons.mpr ⟨exists_yields here, exists_yields_items there⟩

theorem exists_yields_pairs : ∀ {pairs : List (Node × Node)},
    (∀ leaf ∈ Node.leavesOfPairs pairs, ∃ a, Yields leaf a) →
    ∀ pair ∈ pairs, ∃ field, YieldsField pair field
  | [], _ => List.forall_mem_nil _
  | (key, node) :: rest, each => by
    obtain ⟨here, there⟩ := List.forall_mem_append.mp each
    obtain ⟨a, yielded⟩ := exists_yields here
    exact List.forall_mem_cons.mpr ⟨⟨(key.text, a), rfl, yielded⟩, exists_yields_pairs there⟩
end

/-! ## Places -/

/-- What stands at a path in a tree is encoded at that path. -/
theorem yields_of_standsIn {node there : Node} {path : Path} (stands : there.StandsIn node path)
    (yielded : Yields node a) : ∃ b, Yields there b ∧ a.at? path = some b := by
  induction stands generalizing a with
  | here => exact ⟨a, yielded, rfl⟩
  | @item _ _ items position item path listed _ ih =>
    obtain ⟨values, each, rfl⟩ := yields_sequence_iff.mp yielded
    obtain ⟨within, rfl⟩ := List.getElem?_eq_some_iff.mp listed
    have alsoWithin : position < values.length := each.length_eq ▸ within
    obtain ⟨b, yieldedThere, found⟩ := ih (each.get within alsoWithin)
    refine ⟨b, yieldedThere, ?_⟩
    rw [Encode.indexed, AttributeValue.at?, AttributeValue.fields?]
    dsimp only
    rw [Encode.lookup_positions (List.getElem?_eq_getElem alsoWithin)]
    exact found
  | @field _ _ before after key item path last _ ih =>
    obtain ⟨fields, each, rfl⟩ := yields_mapping_iff.mp yielded
    obtain ⟨first, rest, rfl, _, others⟩ := forall₂_append_left_iff.mp each
    obtain ⟨⟨name, value⟩, later, ⟨sameName, yieldedItem⟩, eachLater, rfl⟩ :=
      List.forall₂_cons_left_iff.mp others
    have sameKey : key.text = name := sameName
    subst sameKey
    obtain ⟨b, yieldedThere, found⟩ := ih yieldedItem
    have noLater : ∀ entry ∈ later, entry.1 ≠ key.text :=
      (forall_mem_iff_of_forall₂ (Q := fun pair : Node × Node => pair.1.text ≠ key.text)
        (eachLater.imp fun pair field same => by rw [same.1])).mpr last
    refine ⟨b, yieldedThere, ?_⟩
    rw [AttributeValue.at?, AttributeValue.fields?]
    dsimp only
    rw [Keyed.lookup_ofList_of_last noLater]
    exact found
  | through _ ih => exact ih (yields_alias_iff.mp yielded)

end Document

end DocTable
