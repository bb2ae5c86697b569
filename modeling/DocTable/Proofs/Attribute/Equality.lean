import DocTable.Proofs.Attribute.Order
import DocTable.Proofs.Attribute.UsableValues
import DocTable.Proofs.Keyed

/-!
# Equality of attribute values

What it takes for two values to be equal is said once, kind by kind (`AttributeValue.Matches`).  Two
sets are equal if they list equally many members and the first has all members of the second
(`sameSet_iff`), which does not depend on their order as long as nobody lists a member twice.  A set of
byte strings is equal to nothing.

Equality is transitive on all values (`AttributeValue.Proper.equal_trans`).  A value is equal to itself
exactly if there are no sets of byte strings in it (`AttributeValue.Proper.equal_self_iff`), and
equality is symmetric among the values in which no set repeats a member
(`AttributeValue.Settled.equal_symm`).  Values without either are the settled ones.  They are all that
equality is an equivalence for: every other value differs from itself or is equal to a settled value
on one side only (`AttributeValue.settled_iff_equal`).
-/

namespace DocTable

set_option autoImplicit false

open Number

/-! ## Sets -/

section Sets

variable {a b c : List String}

theorem length_le_union (a b : List String) : a.length ≤ (union a b).length := by
  induction b generalizing a with
  | nil => exact le_refl _
  | cons member rest ih =>
    rw [union]
    split
    · exact ih a
    · have longer := ih (a ++ [member])
      rw [List.length_append] at longer
      omega

/-- Joining adds nothing to a list exactly if it has all members of the other. -/
theorem length_union_eq_iff : (union a b).length = a.length ↔ b ⊆ a := by
  induction b generalizing a with
  | nil => simp [union]
  | cons member rest ih =>
    rw [union, List.cons_subset]
    split
    · rename_i there
      rw [ih, and_iff_right (List.contains_iff_mem.mp there)]
    · rename_i missing
      have longer := length_le_union (a ++ [member]) rest
      rw [List.length_append, List.length_singleton] at longer
      refine iff_of_false (by omega) fun both => ?_
      exact missing (List.contains_iff_mem.mpr both.1)

theorem sameSet_iff : sameSet a b = true ↔ a.length = b.length ∧ b ⊆ a := by
  rw [sameSet, Bool.and_eq_true, beq_iff_eq, beq_iff_eq, length_union_eq_iff]

/-- The members of a list without repetitions fill a list of its length that has them all. -/
theorem perm_of_subset (distinct : b.Nodup) (length : a.length = b.length) (subset : b ⊆ a) : b.Perm a :=
  (List.subperm_of_subset distinct subset).perm_of_length_le length.le

/-- There is a list without repetitions that has the length of another and all its members. -/
theorem exists_nodup_superset (a : List String) :
    ∃ b : List String, b.Nodup ∧ b.length = a.length ∧ a ⊆ b := by
  obtain ⟨s, above, size⟩ := Infinite.exists_superset_card_eq a.toFinset a.length a.toFinset_card_le
  refine ⟨s.toList, s.nodup_toList, by rw [Finset.length_toList, size], fun member there => ?_⟩
  exact Finset.mem_toList.mpr (above (List.mem_toFinset.mpr there))

end Sets

namespace AttributeValue

/-! ## Equal values -/

/-- What it takes for two values to be equal. -/
inductive Matches : AttributeValue → AttributeValue → Prop where
  | s (text : String) : Matches (.s text) (.s text)
  | raw (octets : Text.Raw) : Matches (.raw octets) (.raw octets)
  | n {a b : String} {x y : Extended} (readA : Extended.read? a = some x)
      (readB : Extended.read? b = some y) (rank : x.rank = y.rank) : Matches (.n a) (.n b)
  | b (bytes : Bytes) : Matches (.b bytes) (.b bytes)
  | bool (value : Bool) : Matches (.bool value) (.bool value)
  | null (x y : Bool) : Matches (.null x) (.null y)
  | m {x y : List (String × AttributeValue)} (length : x.length = y.length)
      (each : ∀ entry ∈ x, ∃ w, Keyed.lookup entry.1 y = some w ∧ entry.2.equal w = true) :
      Matches (.m x) (.m y)
  | l {x y : List AttributeValue} (each : List.Forall₂ (fun v w => v.equal w = true) x y) :
      Matches (.l x) (.l y)
  | ss {x y : List String} (length : x.length = y.length) (subset : y ⊆ x) : Matches (.ss x) (.ss y)
  | ns {x y : List String} (length : x.length = y.length) (subset : y ⊆ x) : Matches (.ns x) (.ns y)
  | unset : Matches .unset .unset

theorem equalFields_iff {fields others : List (String × AttributeValue)} :
    equalFields fields others = true ↔
      ∀ entry ∈ fields, ∃ w, Keyed.lookup entry.1 others = some w ∧ entry.2.equal w = true := by
  induction fields with
  | nil => simp [equalFields]
  | cons entry rest ih =>
    obtain ⟨name, v⟩ := entry
    rw [equalFields, Bool.and_eq_true, ih, List.forall_mem_cons]
    refine and_congr_left' ?_
    cases Keyed.lookup name others with
    | none => simp
    | some w => simp

theorem equalItems_iff {items others : List AttributeValue} :
    equalItems items others = true ↔ List.Forall₂ (fun v w => v.equal w = true) items others := by
  induction items generalizing others with
  | nil => cases others <;> simp [equalItems]
  | cons v rest ih => cases others <;> simp [equalItems, ih]

theorem compareNumbers?_eq_iff {a b : String} :
    compareNumbers? a b = some .eq ↔
      ∃ x y, Extended.read? a = some x ∧ Extended.read? b = some y ∧ x.rank = y.rank := by
  have same : ∀ x y : Extended, x.cmp y = .eq ↔ x.rank = y.rank :=
    fun x y => (Extended.compares_rank x y).eq_eq
  simp only [compareNumbers?]
  cases Extended.read? a with
  | none => simp
  | some x =>
    cases Extended.read? b with
    | none => simp
    | some y => simp [same]

theorem equal_iff_matches {v w : AttributeValue} : v.equal w = true ↔ Matches v w := by
  constructor
  · intro equals
    cases v <;> cases w <;>
      simp only [equal, Bool.and_eq_true, beq_iff_eq, Bool.false_eq_true] at equals
    case s.s => exact equals ▸ .s _
    case raw.raw => exact equals ▸ .raw _
    case n.n =>
      obtain ⟨x, y, readA, readB, rank⟩ := compareNumbers?_eq_iff.mp equals
      exact .n readA readB rank
    case b.b => exact equals ▸ .b _
    case bool.bool => exact equals ▸ .bool _
    case null.null => exact .null _ _
    case m.m => exact .m equals.1 (equalFields_iff.mp equals.2)
    case l.l => exact .l (equalItems_iff.mp equals)
    case ss.ss => exact .ss (sameSet_iff.mp equals).1 (sameSet_iff.mp equals).2
    case ns.ns => exact .ns (sameSet_iff.mp equals).1 (sameSet_iff.mp equals).2
    case unset.unset => exact .unset
  · intro matched
    cases matched with
    | n readA readB rank =>
      rw [equal, beq_iff_eq]
      exact compareNumbers?_eq_iff.mpr ⟨_, _, readA, readB, rank⟩
    | m length each =>
      rw [equal, Bool.and_eq_true, beq_iff_eq]
      exact ⟨length, equalFields_iff.mpr each⟩
    | l each => exact equalItems_iff.mpr each
    | ss length subset => exact sameSet_iff.mpr ⟨length, subset⟩
    | ns length subset => exact sameSet_iff.mpr ⟨length, subset⟩
    | _ => simp [equal]

/-! ## Proper and settled values -/

/-- A value of the ten kinds at every depth, whose numbers can be read and whose maps have their fields
in the order of their names. -/
inductive Proper : AttributeValue → Prop where
  | s {text : String} : Proper (.s text)
  | raw {octets : Text.Raw} : Proper (.raw octets)
  | n {text : String} {x : Extended} (read : Extended.read? text = some x) : Proper (.n text)
  | b {bytes : Bytes} : Proper (.b bytes)
  | bool {value : Bool} : Proper (.bool value)
  | null {value : Bool} : Proper (.null value)
  | m {fields : List (String × AttributeValue)} (ascending : Keyed.Ascending fields)
      (each : ∀ entry ∈ fields, Proper entry.2) : Proper (.m fields)
  | l {items : List AttributeValue} (each : ∀ v ∈ items, Proper v) : Proper (.l items)
  | ss {members : List String} : Proper (.ss members)
  | ns {members : List String} : Proper (.ns members)
  | bs {members : List Bytes} : Proper (.bs members)

/-- Something holds of a value and of every value in it. -/
def Throughout (holds : AttributeValue → Prop) (v : AttributeValue) : Prop := ∀ u, Inside u v → holds u

/-- A value that is no set of byte strings. -/
def IsNoByteSet : AttributeValue → Prop
  | .bs _ => False
  | _ => True

/-- A value that, if it is a set of texts or numbers, has no member twice. -/
def ListsOnce : AttributeValue → Prop
  | .ss members | .ns members => members.Nodup
  | _ => True

/-- A value that has neither sets of byte strings nor sets with repeated members in it. -/
structure Settled (v : AttributeValue) : Prop where
  proper : v.Proper
  withoutByteSets : v.Throughout IsNoByteSet
  withoutRepetitions : v.Throughout ListsOnce

section Containers

variable {holds : AttributeValue → Prop} {fields : List (String × AttributeValue)}
  {items : List AttributeValue}

theorem throughout_m_iff :
    Throughout holds (.m fields) ↔ holds (.m fields) ∧ ∀ entry ∈ fields, Throughout holds entry.2 := by
  constructor
  · exact fun all => ⟨all _ .self, fun entry member u inside => all u (.field member inside)⟩
  · rintro ⟨here, each⟩ u inside
    cases inside with
    | self => exact here
    | field member inside => exact each _ member u inside

theorem throughout_l_iff :
    Throughout holds (.l items) ↔ holds (.l items) ∧ ∀ v ∈ items, Throughout holds v := by
  constructor
  · exact fun all => ⟨all _ .self, fun v member u inside => all u (.item member inside)⟩
  · rintro ⟨here, each⟩ u inside
    cases inside with
    | self => exact here
    | item member inside => exact each _ member u inside

/-- A value that contains no others is all that is in it. -/
theorem throughout_of_leaf {v : AttributeValue} (noMap : ∀ fields, v ≠ .m fields)
    (noList : ∀ items, v ≠ .l items) (here : holds v) : Throughout holds v := by
  intro u inside
  cases inside with
  | self => exact here
  | field => exact absurd rfl (noMap _)
  | item => exact absurd rfl (noList _)

theorem Settled.m_iff :
    Settled (.m fields) ↔ Keyed.Ascending fields ∧ ∀ entry ∈ fields, Settled entry.2 := by
  constructor
  · rintro ⟨proper, withoutByteSets, withoutRepetitions⟩
    cases proper with
    | m ascending each =>
      exact ⟨ascending, fun entry member => ⟨each entry member,
        (throughout_m_iff.mp withoutByteSets).2 entry member,
        (throughout_m_iff.mp withoutRepetitions).2 entry member⟩⟩
  · rintro ⟨ascending, each⟩
    exact ⟨.m ascending fun entry member => (each entry member).proper,
      throughout_m_iff.mpr ⟨trivial, fun entry member => (each entry member).withoutByteSets⟩,
      throughout_m_iff.mpr ⟨trivial, fun entry member => (each entry member).withoutRepetitions⟩⟩

theorem Settled.l_iff : Settled (.l items) ↔ ∀ v ∈ items, Settled v := by
  constructor
  · rintro ⟨proper, withoutByteSets, withoutRepetitions⟩
    cases proper with
    | l each =>
      exact fun v member => ⟨each v member, (throughout_l_iff.mp withoutByteSets).2 v member,
        (throughout_l_iff.mp withoutRepetitions).2 v member⟩
  · intro each
    exact ⟨.l fun v member => (each v member).proper,
      throughout_l_iff.mpr ⟨trivial, fun v member => (each v member).withoutByteSets⟩,
      throughout_l_iff.mpr ⟨trivial, fun v member => (each v member).withoutRepetitions⟩⟩

theorem Settled.of_leaf {v : AttributeValue} (proper : v.Proper) (noMap : ∀ fields, v ≠ .m fields)
    (noList : ∀ items, v ≠ .l items) (noByteSet : v.IsNoByteSet) (once : v.ListsOnce) : v.Settled :=
  ⟨proper, throughout_of_leaf noMap noList noByteSet, throughout_of_leaf noMap noList once⟩

end Containers

/-! ## The laws -/

/-- The fields of a map that has as many as another and all its names are named in the other too. -/
theorem exists_lookup_of_length {x y : List (String × AttributeValue)} (ascending : Keyed.Ascending x)
    (length : x.length = y.length) (named : ∀ entry ∈ x, ∃ w, Keyed.lookup entry.1 y = some w) :
    ∀ entry ∈ y, ∃ v, Keyed.lookup entry.1 x = some v := by
  have distinct : (x.map Prod.fst).Nodup :=
    List.pairwise_map.mpr (ascending.imp fun less => ne_of_lt less)
  have subset : x.map Prod.fst ⊆ y.map Prod.fst := by
    intro name member
    obtain ⟨entry, there, rfl⟩ := List.mem_map.mp member
    obtain ⟨w, found⟩ := named entry there
    exact List.mem_map.mpr ⟨_, Keyed.mem_of_lookup found, rfl⟩
  have names : (x.map Prod.fst).Perm (y.map Prod.fst) :=
    (List.subperm_of_subset distinct subset).perm_of_length_le (by simp [length])
  intro entry member
  obtain ⟨⟨name, v⟩, there, rfl⟩ := List.mem_map.mp (names.mem_iff.mpr (List.mem_map_of_mem member))
  exact ⟨v, Keyed.lookup_of_mem ascending there⟩

/-- Lists that are related one by one through a third one. -/
theorem forall₂_comp {α β γ : Type} {r : α → β → Prop} {s : β → γ → Prop} {t : α → γ → Prop}
    {a : List α} {b : List β} {c : List γ} (first : List.Forall₂ r a b) (second : List.Forall₂ s b c)
    (comp : ∀ {x y z}, r x y → s y z → t x z) : List.Forall₂ t a c := by
  induction first generalizing c with
  | nil =>
    cases second
    exact .nil
  | cons here _ ih =>
    cases second with
    | cons next rest => exact .cons (comp here next) (ih rest)

theorem exists_mem_of_forall₂ {α β : Type} {r : α → β → Prop} {a : List α} {b : List β}
    (each : List.Forall₂ r a b) {x : α} (member : x ∈ a) : ∃ y ∈ b, r x y := by
  induction each with
  | nil => cases member
  | cons here _ ih =>
    rcases List.mem_cons.mp member with rfl | there
    · exact ⟨_, List.mem_cons_self, here⟩
    · obtain ⟨y, found, related⟩ := ih there
      exact ⟨y, List.mem_cons_of_mem _ found, related⟩

variable {u v w : AttributeValue}

namespace Proper

theorem equal_trans (proper : u.Proper) (first : u.equal v = true) (second : v.equal w = true) :
    u.equal w = true := by
  induction proper generalizing v w with
  | n =>
    cases equal_iff_matches.mp first with
    | n readA readB rank =>
      cases equal_iff_matches.mp second with
      | n readAgain readC rankNext =>
        cases readB.symm.trans readAgain
        exact equal_iff_matches.mpr (.n readA readC (rank.trans rankNext))
  | null =>
    cases equal_iff_matches.mp first
    cases equal_iff_matches.mp second
    exact equal_iff_matches.mpr (.null _ _)
  | m _ _ ih =>
    cases equal_iff_matches.mp first with
    | m length each =>
      cases equal_iff_matches.mp second with
      | m lengthNext eachNext =>
        refine equal_iff_matches.mpr (.m (length.trans lengthNext) fun entry member => ?_)
        obtain ⟨x, found, same⟩ := each entry member
        obtain ⟨y, foundNext, sameNext⟩ := eachNext _ (Keyed.mem_of_lookup found)
        exact ⟨y, foundNext, ih entry member same sameNext⟩
  | l _ ih =>
    cases equal_iff_matches.mp first with
    | l each =>
      cases equal_iff_matches.mp second with
      | l eachNext =>
        refine equal_iff_matches.mpr (.l ?_)
        refine forall₂_comp ((List.forall₂_and_left _ _).mpr ⟨ih, each⟩) eachNext ?_
        exact fun here next => here.1 here.2 next
  | ss =>
    cases equal_iff_matches.mp first with
    | ss length subset =>
      cases equal_iff_matches.mp second with
      | ss lengthNext subsetNext =>
        exact equal_iff_matches.mpr (.ss (length.trans lengthNext) (List.Subset.trans subsetNext subset))
  | ns =>
    cases equal_iff_matches.mp first with
    | ns length subset =>
      cases equal_iff_matches.mp second with
      | ns lengthNext subsetNext =>
        exact equal_iff_matches.mpr (.ns (length.trans lengthNext) (List.Subset.trans subsetNext subset))
  | bs => cases equal_iff_matches.mp first
  | _ =>
    cases equal_iff_matches.mp first
    exact second

/-- A value that is equal to some other has no sets of byte strings in it. -/
theorem withoutByteSets_of_equal (proper : v.Proper) (equals : v.equal w = true) :
    v.Throughout IsNoByteSet := by
  induction proper generalizing w with
  | m _ _ ih =>
    cases equal_iff_matches.mp equals with
    | m _ each =>
      refine throughout_m_iff.mpr ⟨trivial, fun entry member => ?_⟩
      obtain ⟨x, _, same⟩ := each entry member
      exact ih entry member same
  | l _ ih =>
    cases equal_iff_matches.mp equals with
    | l each =>
      refine throughout_l_iff.mpr ⟨trivial, fun x member => ?_⟩
      obtain ⟨y, _, same⟩ := exists_mem_of_forall₂ each member
      exact ih x member same
  | bs => cases equal_iff_matches.mp equals
  | _ => exact throughout_of_leaf nofun nofun trivial

/-- A value is equal to itself exactly if there are no sets of byte strings in it. -/
theorem equal_self_iff (proper : v.Proper) : v.equal v = true ↔ v.Throughout IsNoByteSet := by
  refine ⟨proper.withoutByteSets_of_equal, fun without => ?_⟩
  induction proper with
  | n read => exact equal_iff_matches.mpr (.n read read rfl)
  | m ascending _ ih =>
    refine equal_iff_matches.mpr (.m rfl fun entry member => ⟨entry.2, ?_, ?_⟩)
    · exact Keyed.lookup_of_mem ascending member
    · exact ih entry member ((throughout_m_iff.mp without).2 entry member)
  | l _ ih =>
    refine equal_iff_matches.mpr (.l (List.forall₂_same.mpr fun x member => ?_))
    exact ih x member ((throughout_l_iff.mp without).2 x member)
  | ss => exact equal_iff_matches.mpr (.ss rfl (List.Subset.refl _))
  | ns => exact equal_iff_matches.mpr (.ns rfl (List.Subset.refl _))
  | bs => exact absurd (without _ .self) id
  | _ => simp [equal]

/-- What is equal to a settled value is settled. -/
theorem settled_of_equal (proper : v.Proper) (equals : v.equal w = true) (settled : w.Settled) :
    v.Settled := by
  refine ⟨proper, proper.withoutByteSets_of_equal equals, ?_⟩
  induction proper generalizing w with
  | m _ _ ih =>
    cases equal_iff_matches.mp equals with
    | m _ each =>
      refine throughout_m_iff.mpr ⟨trivial, fun entry member => ?_⟩
      obtain ⟨x, found, same⟩ := each entry member
      exact ih entry member same ((Settled.m_iff.mp settled).2 _ (Keyed.mem_of_lookup found))
  | l _ ih =>
    cases equal_iff_matches.mp equals with
    | l each =>
      refine throughout_l_iff.mpr ⟨trivial, fun x member => ?_⟩
      obtain ⟨y, there, same⟩ := exists_mem_of_forall₂ each member
      exact ih x member same (Settled.l_iff.mp settled y there)
  | ss =>
    cases equal_iff_matches.mp equals with
    | ss length subset =>
      have distinct := settled.withoutRepetitions _ .self
      exact throughout_of_leaf nofun nofun ((perm_of_subset distinct length subset).nodup distinct)
  | ns =>
    cases equal_iff_matches.mp equals with
    | ns length subset =>
      have distinct := settled.withoutRepetitions _ .self
      exact throughout_of_leaf nofun nofun ((perm_of_subset distinct length subset).nodup distinct)
  | _ => exact throughout_of_leaf nofun nofun trivial

/-- Every value without sets of byte strings has a settled one that is equal to it. -/
theorem exists_settled (proper : v.Proper) (without : v.Throughout IsNoByteSet) :
    ∃ w : AttributeValue, w.Settled ∧ w.equal v = true := by
  -- a leaf that is no set is settled, and equal to itself
  have leaf : ∀ {v : AttributeValue}, v.Settled →
      ∃ w : AttributeValue, w.Settled ∧ w.equal v = true :=
    fun settled => ⟨_, settled, settled.proper.equal_self_iff.mpr settled.withoutByteSets⟩
  induction proper with
  | s => exact leaf (.of_leaf .s nofun nofun trivial trivial)
  | raw => exact leaf (.of_leaf .raw nofun nofun trivial trivial)
  | n read => exact leaf (.of_leaf (.n read) nofun nofun trivial trivial)
  | b => exact leaf (.of_leaf .b nofun nofun trivial trivial)
  | bool => exact leaf (.of_leaf .bool nofun nofun trivial trivial)
  | null => exact leaf (.of_leaf .null nofun nofun trivial trivial)
  | @m fields ascending _ ih =>
    obtain ⟨others, each⟩ := (exists_forall₂_iff
      (R := fun (entry other : String × AttributeValue) =>
        other.1 = entry.1 ∧ other.2.Settled ∧ other.2.equal entry.2 = true)).mpr
      fun entry member => by
        obtain ⟨w, settled, same⟩ := ih entry member ((throughout_m_iff.mp without).2 entry member)
        exact ⟨(entry.1, w), rfl, settled, same⟩
    have names : fields.map Prod.fst = others.map Prod.fst := by
      rw [← List.forall₂_eq_eq_eq, List.forall₂_map_left_iff, List.forall₂_map_right_iff]
      exact each.imp fun _ _ both => both.1.symm
    refine ⟨.m others, Settled.m_iff.mpr ⟨?_, fun other member => ?_⟩,
      equal_iff_matches.mpr (.m each.length_eq.symm fun other member => ?_)⟩
    · exact List.pairwise_map.mp (names ▸ List.pairwise_map.mpr ascending)
    · obtain ⟨entry, _, _, settled, _⟩ := exists_mem_of_forall₂ each.flip member
      exact settled
    · obtain ⟨entry, there, name, _, same⟩ := exists_mem_of_forall₂ each.flip member
      exact ⟨entry.2, name ▸ Keyed.lookup_of_mem ascending there, same⟩
  | l _ ih =>
    obtain ⟨others, each⟩ := (exists_forall₂_iff
      (R := fun v w : AttributeValue => w.Settled ∧ w.equal v = true)).mpr
      fun v member => ih v member ((throughout_l_iff.mp without).2 v member)
    refine ⟨.l others, Settled.l_iff.mpr fun w member => ?_,
      equal_iff_matches.mpr (.l (each.imp fun _ _ both => both.2).flip)⟩
    obtain ⟨v, _, settled, _⟩ := exists_mem_of_forall₂ each.flip member
    exact settled
  | ss =>
    obtain ⟨distinct, once, length, subset⟩ := exists_nodup_superset _
    exact ⟨.ss distinct, .of_leaf .ss nofun nofun trivial once, equal_iff_matches.mpr (.ss length subset)⟩
  | ns =>
    obtain ⟨distinct, once, length, subset⟩ := exists_nodup_superset _
    exact ⟨.ns distinct, .of_leaf .ns nofun nofun trivial once, equal_iff_matches.mpr (.ns length subset)⟩
  | bs => exact absurd (without _ .self) id

end Proper

/-- Of two settled values both are equal to the other or none is. -/
theorem Settled.equal_symm (settledV : v.Settled) (settledW : w.Settled) (equals : v.equal w = true) :
    w.equal v = true := by
  have proper := settledV.proper
  induction proper generalizing w with
  | n =>
    cases equal_iff_matches.mp equals with
    | n readA readB rank => exact equal_iff_matches.mpr (.n readB readA rank.symm)
  | null =>
    cases equal_iff_matches.mp equals
    exact equal_iff_matches.mpr (.null _ _)
  | m ascending _ ih =>
    cases equal_iff_matches.mp equals with
    | m length each =>
      obtain ⟨_, settledFields⟩ := Settled.m_iff.mp settledV
      obtain ⟨ascendingW, settledOthers⟩ := Settled.m_iff.mp settledW
      have named := exists_lookup_of_length ascending length fun entry member =>
        (each entry member).imp fun _ => And.left
      refine equal_iff_matches.mpr (.m length.symm fun other member => ?_)
      -- the field of that name is equal to the field it was found for
      obtain ⟨x, found⟩ := named other member
      obtain ⟨y, foundBack, same⟩ := each _ (Keyed.mem_of_lookup found)
      cases (Keyed.lookup_of_mem ascendingW member).symm.trans foundBack
      exact ⟨x, found, ih _ (Keyed.mem_of_lookup found) (settledFields _ (Keyed.mem_of_lookup found))
        (settledOthers other member) same⟩
  | l _ ih =>
    cases equal_iff_matches.mp equals with
    | l each =>
      have turns : ∀ x ∈ _, ∀ y : AttributeValue, y.Settled → x.equal y = true → y.equal x = true :=
        fun x member y settled same => ih x member (Settled.l_iff.mp settledV x member) settled same
      have turning := (List.forall₂_and_left _ _).mpr ⟨turns, each⟩
      have settled := (List.forall₂_and_left _ _).mpr ⟨Settled.l_iff.mp settledW, turning.flip⟩
      exact equal_iff_matches.mpr (.l (settled.imp fun y _ both => both.2.1 y both.1 both.2.2))
  | ss =>
    cases equal_iff_matches.mp equals with
    | ss length subset =>
      have members := perm_of_subset (settledW.withoutRepetitions _ .self) length subset
      exact equal_iff_matches.mpr (.ss length.symm members.symm.subset)
  | ns =>
    cases equal_iff_matches.mp equals with
    | ns length subset =>
      have members := perm_of_subset (settledW.withoutRepetitions _ .self) length subset
      exact equal_iff_matches.mpr (.ns length.symm members.symm.subset)
  | bs => cases equal_iff_matches.mp equals
  | _ =>
    cases equal_iff_matches.mp equals
    exact equals

/-- A value is settled exactly if it is equal to itself and equality with settled values does not
depend on the side. -/
theorem settled_iff_equal (proper : v.Proper) :
    v.Settled ↔ v.equal v = true ∧ ∀ w : AttributeValue, w.Settled → v.equal w = w.equal v := by
  constructor
  · intro settled
    refine ⟨proper.equal_self_iff.mpr settled.withoutByteSets, fun w settledW => ?_⟩
    exact Bool.eq_iff_iff.mpr ⟨settled.equal_symm settledW, settledW.equal_symm settled⟩
  · rintro ⟨self, sides⟩
    obtain ⟨w, settled, same⟩ := proper.exists_settled (proper.equal_self_iff.mp self)
    exact proper.settled_of_equal ((sides w settled).trans same) settled

/-- **Equality is an equivalence for settled values, and for no more.**  A value of one of the ten kinds whose
numbers can be read is equal to itself exactly if there is no set of byte strings in it, and what it is equal
to has all its equals.  A settled value is equal to another one in both directions or in none, so `=` and `<>`
hold of the two whichever is stored; a value that is not settled differs from itself, or is equal to a settled
one in one direction only. -/
theorem equal_equivalence_iff {v : AttributeValue} (proper : v.Proper) :
    (v.equal v = true ↔ v.Throughout IsNoByteSet) ∧
    (∀ u w : AttributeValue, v.equal u = true → u.equal w = true → v.equal w = true) ∧
    (v.Settled ↔ v.equal v = true ∧ ∀ w : AttributeValue, w.Settled → v.equal w = w.equal v) ∧
    (v.Settled → ∀ w : AttributeValue, w.Settled →
      ∀ c ∈ [Comparator.eq, .ne], c.holds v w = c.holds w v) ∧
    Equivalence fun v w : { v : AttributeValue // v.Settled } => v.1.equal w.1 = true := by
  refine ⟨proper.equal_self_iff, fun u w => proper.equal_trans, settled_iff_equal proper,
    fun settled w settledW c sides => ?_,
    ⟨fun v => ?_, fun {v w} same => ?_, fun {u v w} first second => ?_⟩⟩
  · have same := ((settled_iff_equal proper).mp settled).2 w settledW
    simp only [List.mem_cons, List.not_mem_nil, or_false] at sides
    rcases sides with rfl | rfl
    · exact same
    · exact congrArg not same
  · exact v.2.proper.equal_self_iff.mpr v.2.withoutByteSets
  · exact v.2.equal_symm w.2 same
  · exact u.2.proper.equal_trans first second

/-- Two written forms of a record with a number and a set. -/
theorem equal_equivalence_iff_of_records :
    let v : AttributeValue := .m [("price", .n "1.50"), ("tags", .ss ["a", "b"])]
    let w : AttributeValue := .m [("price", .n "1.5"), ("tags", .ss ["b", "a"])]
    v.Settled ∧ w.Settled ∧ v.equal w = true ∧ w.equal v = true ∧ v.equal v = true ∧
      Comparator.ne.holds v w = Comparator.ne.holds w v := by
  intro v w
  have number : ∀ text, (Extended.read? text).isSome = true → Settled (.n text) := by
    intro text read
    obtain ⟨x, found⟩ := Option.isSome_iff_exists.mp read
    exact .of_leaf (.n found) nofun nofun trivial trivial
  have record : ∀ text members, (Extended.read? text).isSome = true → members.Nodup →
      Settled (.m [("price", .n text), ("tags", .ss members)]) := by
    intro text members read once
    refine Settled.m_iff.mpr ⟨List.pairwise_pair.mpr (show "price" < "tags" by decide), ?_⟩
    simp only [List.forall_mem_cons, List.not_mem_nil, false_implies, implies_true, and_true]
    exact ⟨number text read, .of_leaf .ss nofun nofun trivial once⟩
  have settledV : v.Settled := record "1.50" ["a", "b"] (by decide +kernel) (by decide)
  have settledW : w.Settled := record "1.5" ["b", "a"] (by decide +kernel) (by decide)
  have equals : v.equal w = true := by decide +kernel
  obtain ⟨_, _, settled, sides, equivalence⟩ := equal_equivalence_iff settledV.proper
  refine ⟨settledV, settledW, equals, ?_, ?_, sides settledV w settledW .ne (by decide)⟩
  · exact equivalence.symm (x := ⟨v, settledV⟩) (y := ⟨w, settledW⟩) equals
  · exact (settled.mp settledV).1

/-- A set of byte strings differs from itself, and a set with a repeated member is equal to another set
in one direction only. -/
theorem equal_fails_of_byteSet_and_repetition :
    equal (.bs [[1]]) (.bs [[1]]) = false ∧
    equal (.ss ["a", "b"]) (.ss ["a", "a"]) = true ∧ equal (.ss ["a", "a"]) (.ss ["a", "b"]) = false := by
  decide +kernel

end AttributeValue

end DocTable
