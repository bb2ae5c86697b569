import DocTable.Proofs.Attribute.Equality
import DocTable.Proofs.Expression.PathEdits
import DocTable.Proofs.Expression.UnlinkedDrafts

/-!
# Set attributes under updates

The members of a set are listed without repetitions, and a set without members is no attribute at all
(`SetKind.At`).  Adding and deleting members keeps this: an added set brings its new members behind
those that are there (`union_eq`), a deleted one leaves the others in their order (`difference_eq`), and
the attribute comes and goes with its members (`SetKind.At.onValues`).  So any run of such actions does
to the attribute what joins and differences do to a set (`UpdateAction.sets_under_updates`).
-/

namespace DocTable

set_option autoImplicit false

/-! ## Sets as lists -/

section Lists

variable {a b : List String}

/-- Joining adds the new members at the end, in their order. -/
theorem union_eq (a : List String) (distinct : b.Nodup) :
    union a b = a ++ b.filter fun member => member ∉ a := by
  induction b generalizing a with
  | nil => simp [union]
  | cons member rest ih =>
    obtain ⟨fresh, distinctRest⟩ := List.nodup_cons.mp distinct
    rw [union]
    split
    · rename_i there
      rw [ih a distinctRest, List.filter_cons_of_neg (by simpa using List.contains_iff_mem.mp there)]
    · rename_i missing
      have absent : member ∉ a := fun there => missing (List.contains_iff_mem.mpr there)
      have same : (rest.filter fun other => other ∉ a ++ [member]) =
          rest.filter fun other => other ∉ a := by
        refine List.filter_congr fun other there => ?_
        have distinctOther : other ≠ member := fun equal => fresh (equal ▸ there)
        simp [distinctOther]
      rw [ih (a ++ [member]) distinctRest, same, List.filter_cons_of_pos (by simpa using absent),
        List.append_assoc, List.singleton_append]

theorem difference_eq (a b : List String) : difference a b = a.filter fun member => member ∉ b := by
  rw [difference]
  refine List.filter_congr fun member _ => ?_
  by_cases there : member ∈ b <;> simp [there]

end Lists

/-! ## Sets at a place -/

/-- The kinds of sets whose members are texts. -/
inductive SetKind where
  | texts | numbers
  deriving DecidableEq, Repr

namespace SetKind

/-- The set of listed members. -/
def value : SetKind → List String → AttributeValue
  | .texts => .ss
  | .numbers => .ns

/-- An item has a set at a place: its members are listed without repetitions, and if there are none,
there is no attribute, and none but maps on the way. -/
structure At (kind : SetKind) (item : Item) (path : Path) (members : List String) : Prop where
  distinct : members.Nodup
  way : Path.Open item path
  read : Path.get? item path = if members = [] then none else some (kind.value members)

variable {kind : SetKind} {item : Item} {path : Path} {members : List String}

theorem fields?_value (kind : SetKind) (members : List String) : (kind.value members).fields? = none := by
  cases kind <;> rfl

theorem add_value (kind : SetKind) (members operand : List String) :
    (kind.value members).add (kind.value operand) = .ok (kind.value (union members operand)) := by
  cases kind <;> rfl

theorem delete_value (kind : SetKind) (members operand : List String) :
    (kind.value members).delete (kind.value operand) =
      .ok (AttributeValue.setOf? kind.value (difference members operand)) := by
  cases kind <;> rfl

theorem At.eq_nil_iff (here : kind.At item path members) : members = [] ↔ Path.get? item path = none := by
  rw [here.read]
  split <;> simp_all

end SetKind

namespace AttributeValue

/-- The members that a set of texts or numbers lists. -/
def members : AttributeValue → List String
  | .ss members => members
  | .ns members => members
  | _ => []

end AttributeValue

/-! ## Adding and deleting members -/

namespace UpdateAction

/-- An action adds or deletes members at a path: it is given a set of a kind with members, none of them
twice. -/
structure ChangesSet (kind : SetKind) (path : Path) (a : UpdateAction) : Prop where
  at_path : a.path = path
  adds_or_deletes : a.kind = .add ∨ a.kind = .delete
  given : a.value = kind.value a.value.members
  filled : a.value.members ≠ []
  distinct : a.value.members.Nodup

/-- What an action makes of a set. -/
def changedSet (s : Finset String) (a : UpdateAction) : Finset String :=
  if a.kind = .delete then s \ a.value.members.toFinset else s ∪ a.value.members.toFinset

/-- How an action lists the changed set: the members that stay in their order, and behind them the new
ones in the order in which they are given. -/
def listedSet (members : List String) (a : UpdateAction) : List String :=
  let changed := a.changedSet members.toFinset
  (members.filter fun member => member ∈ changed) ++
    a.value.members.filter fun member => member ∈ changed ∧ member ∉ members

variable {kind : SetKind} {item : Item} {path : Path} {members : List String} {a : UpdateAction}

theorem listedSet_of_add (adds : a.kind = .add) (distinct : a.value.members.Nodup) :
    listedSet members a = union members a.value.members := by
  have other : ¬a.kind = .delete := by
    rw [adds]
    decide
  rw [union_eq members distinct, listedSet, changedSet, if_neg other]
  congr 1
  · exact List.filter_eq_self.mpr fun member there => by simp [there]
  · exact List.filter_congr fun member there => by simp [there]

theorem listedSet_of_delete (deletes : a.kind = .delete) :
    listedSet members a = difference members a.value.members := by
  rw [difference_eq, listedSet, changedSet, if_pos deletes]
  have nothing : (a.value.members.filter fun member =>
      member ∈ members.toFinset \ a.value.members.toFinset ∧ member ∉ members) = [] :=
    List.filter_eq_nil_iff.mpr fun member there => by simp [there]
  rw [nothing, List.append_nil]
  exact List.filter_congr fun member there => by simp [there]

/-- The listed members are those of the changed set. -/
theorem toFinset_listedSet (members : List String) (a : UpdateAction) :
    (listedSet members a).toFinset = a.changedSet members.toFinset := by
  ext member
  rw [listedSet]
  by_cases deletes : a.kind = .delete
  · simp only [changedSet, if_pos deletes, List.mem_toFinset, List.mem_append, List.mem_filter,
      Finset.mem_sdiff, decide_eq_true_eq]
    tauto
  · simp only [changedSet, if_neg deletes, List.mem_toFinset, List.mem_append, List.mem_filter,
      Finset.mem_union, decide_eq_true_eq]
    tauto

theorem nodup_listedSet (distinct : members.Nodup) (given : a.value.members.Nodup) :
    (listedSet members a).Nodup := by
  refine List.Nodup.append (distinct.filter _) (given.filter _) fun member before behind => ?_
  have fresh := (List.mem_filter.mp behind).2
  rw [decide_eq_true_eq] at fresh
  exact fresh.2 (List.mem_filter.mp before).1

end UpdateAction

namespace SetKind.At

open UpdateAction

variable {kind : SetKind} {item new : Item} {path : Path} {members listed : List String} {a : UpdateAction}

/-- Putting a set with members where there is a set. -/
theorem placed (here : kind.At item path members) (arranged : AttributeValue.Arranged (.m item))
    (nonempty : path ≠ []) (filled : listed ≠ []) (distinct : listed.Nodup) :
    ∃ new, UpdateAction.placed item path (kind.value listed) = .ok new ∧
      AttributeValue.Arranged (.m new) ∧ kind.At new path listed := by
  obtain ⟨new, done⟩ : ∃ new, Path.set item (kind.value listed) path = .ok new := Path.exists_set here.way
  have found := Path.get?_set_self nonempty done
  refine ⟨new, ?_, arranged.set (.leaf (kind.fields?_value listed)) done, distinct,
    Path.open_of_get? found, ?_⟩
  · rw [UpdateAction.placed, done]
    rfl
  · rw [found, if_neg filled]

/-- Taking a set away. -/
theorem removed (here : kind.At item path members) (arranged : AttributeValue.Arranged (.m item)) :
    AttributeValue.Arranged (.m (Path.remove item path)) ∧ kind.At (Path.remove item path) path [] :=
  ⟨arranged.remove path, List.nodup_nil, here.way.remove, by
    rw [Path.get?_remove_self arranged, if_pos rfl]⟩

/-- Adding members: where there is no set yet, the one that is given is put. -/
theorem added (here : kind.At item path members) (arranged : AttributeValue.Arranged (.m item))
    (nonempty : path ≠ []) (changes : a.ChangesSet kind path) (adds : a.kind = .add) :
    ∃ new, a.onValues item = .ok new ∧ AttributeValue.Arranged (.m new) ∧
      kind.At new path (listedSet members a) := by
  have listed : listedSet members a = union members a.value.members :=
    listedSet_of_add adds changes.distinct
  have filled : listedSet members a ≠ [] := by
    obtain ⟨member, there⟩ := List.exists_mem_of_ne_nil _ changes.filled
    have kept : member ∈ (listedSet members a).toFinset := by
      rw [toFinset_listedSet, changedSet, if_neg (by rw [adds]; decide), Finset.mem_union]
      exact .inr (List.mem_toFinset.mpr there)
    exact List.ne_nil_of_mem (List.mem_toFinset.mp kept)
  obtain ⟨new, done, arrangedNew, after⟩ := here.placed arranged nonempty filled
    (nodup_listedSet here.distinct changes.distinct)
  refine ⟨new, ?_, arrangedNew, after⟩
  rw [UpdateAction.onValues, adds]
  dsimp only
  rw [changes.at_path, here.read, changes.given]
  by_cases none : members = []
  · subst none
    rw [union_eq [] changes.distinct] at listed
    rw [if_pos rfl]
    simpa [listed] using done
  · rw [if_neg none]
    dsimp only
    rw [kind.add_value, ← listed]
    exact done

/-- Deleting members: the attribute goes with the last of them, and where there is none, nothing happens. -/
theorem deleted (here : kind.At item path members) (arranged : AttributeValue.Arranged (.m item))
    (nonempty : path ≠ []) (changes : a.ChangesSet kind path) (deletes : a.kind = .delete) :
    ∃ new, a.onValues item = .ok new ∧ AttributeValue.Arranged (.m new) ∧
      kind.At new path (listedSet members a) := by
  have listed : listedSet members a = difference members a.value.members := listedSet_of_delete deletes
  rw [UpdateAction.onValues, deletes]
  dsimp only
  rw [changes.at_path, here.read, changes.given]
  by_cases none : members = []
  · subst none
    rw [listed, if_pos rfl]
    exact ⟨item, rfl, arranged, here⟩
  · rw [if_neg none]
    dsimp only
    rw [kind.delete_value, ← listed, AttributeValue.setOf?]
    by_cases gone : listedSet members a = []
    · rw [gone, if_pos List.isEmpty_nil]
      exact ⟨_, rfl, here.removed arranged⟩
    · rw [if_neg (by simpa using gone)]
      exact here.placed arranged nonempty gone (nodup_listedSet here.distinct changes.distinct)

/-- **One action.**  Where an item has a set, an action that adds or deletes members succeeds and leaves
the changed set, listed in order. -/
theorem onValues (here : kind.At item path members) (arranged : AttributeValue.Arranged (.m item))
    (nonempty : path ≠ []) (changes : a.ChangesSet kind path) :
    ∃ new, a.onValues item = .ok new ∧ AttributeValue.Arranged (.m new) ∧
      kind.At new path (listedSet members a) :=
  changes.adds_or_deletes.elim (here.added arranged nonempty changes)
    (here.deleted arranged nonempty changes)

/-- **Any run.**  Actions that add and delete members one after the other. -/
theorem run (here : kind.At item path members) (arranged : AttributeValue.Arranged (.m item))
    (nonempty : path ≠ []) {actions : List UpdateAction} (changes : ∀ a ∈ actions, a.ChangesSet kind path) :
    ∃ new, actions.foldlM UpdateAction.onValues item = .ok new ∧ AttributeValue.Arranged (.m new) ∧
      kind.At new path (actions.foldl listedSet members) := by
  induction actions generalizing item members with
  | nil => exact ⟨item, rfl, arranged, here⟩
  | cons a rest ih =>
    obtain ⟨between, done, arrangedBetween, after⟩ :=
      here.onValues arranged nonempty (changes a List.mem_cons_self)
    obtain ⟨new, doneRest, arrangedNew, final⟩ :=
      ih after arrangedBetween fun b member => changes b (List.mem_cons_of_mem _ member)
    refine ⟨new, ?_, arrangedNew, final⟩
    rw [List.foldlM_cons, done]
    exact doneRest

end SetKind.At

theorem UpdateAction.toFinset_foldl_listedSet (members : List String) (actions : List UpdateAction) :
    (actions.foldl listedSet members).toFinset = actions.foldl changedSet members.toFinset := by
  induction actions generalizing members with
  | nil => rfl
  | cons a rest ih => rw [List.foldl_cons, List.foldl_cons, ih, toFinset_listedSet]

/-- **Set attributes are sets under any run of updates.**  Let an item have a set of texts or of numbers
at a path: a list of members, none of them twice, or no attribute at all and only maps on the way, which
counts as the empty set.  Actions that add and delete sets of this kind there, each with members and
none of them twice, never fail.  After each of them the attribute is absent exactly if joins and
differences have left the empty set, and otherwise it lists the members of that set, each once: the
members that an action leaves in the order in which they were, and behind them the new ones in the order
in which the action gives them.  What is left is again such an item. -/
theorem UpdateAction.sets_under_updates {kind : SetKind} {item : Item} {path : Path} {members : List String}
    {actions : List UpdateAction} (nonempty : path ≠ []) (arranged : AttributeValue.Arranged (.m item))
    (start : kind.At item path members) (changes : ∀ a ∈ actions, a.ChangesSet kind path) :
    ∀ done, done <+: actions → ∃ new, UpdateAction.apply done item = .ok new ∧
      (Path.get? new path = none ↔ done.foldl changedSet members.toFinset = ∅) ∧
      (∀ value, Path.get? new path = some value → ∃ listed, value = kind.value listed ∧ listed.Nodup ∧
        listed.toFinset = done.foldl changedSet members.toFinset ∧ listed = done.foldl listedSet members) ∧
      AttributeValue.Arranged (.m new) ∧ kind.At new path (done.foldl listedSet members) := by
  intro done inside
  have changesDone : ∀ a ∈ done, a.ChangesSet kind path := fun a member => changes a (inside.subset member)
  have noMaps : ∀ a ∈ done, a.value.fields? = none := by
    intro a member
    rw [(changesDone a member).given]
    exact kind.fields?_value _
  obtain ⟨new, ran, arrangedNew, final⟩ := start.run arranged nonempty changesDone
  have set := toFinset_foldl_listedSet members done
  refine ⟨new, (apply_eq_onValues_of_no_map noMaps item).trans ran, ?_, fun value found => ?_,
    arrangedNew, final⟩
  · rw [← final.eq_nil_iff, ← set, List.toFinset_eq_empty_iff]
  · rw [final.read] at found
    split at found
    · cases found
    · cases found
      exact ⟨_, rfl, final.distinct, set, rfl⟩

namespace Tags

/-- A user with an empty profile. -/
def user : Item := [("id", .s "u"), ("profile", .m [])]

/-- The place of the user's tags. -/
def place : Path := ["profile", "tags"]

/-- An action on the tags. -/
def change (kind : ActionKind) (members : List String) : UpdateAction :=
  ⟨kind, place, some ⟨":t", .ss members⟩⟩

/-- Adds tags twice, takes one away, then all that are left. -/
def changes : List UpdateAction :=
  [change .add ["b", "a"], change .add ["c", "a"], change .delete ["a"], change .delete ["c", "b"]]

end Tags

/-- The tags of a user keep their order as long as there are some, and are gone after the last was taken
away. -/
theorem UpdateAction.sets_under_updates_of_tags :
    (∃ new, UpdateAction.apply (Tags.changes.take 3) Tags.user = .ok new ∧
      Path.get? new Tags.place = some (.ss ["b", "c"])) ∧
    ∃ new, UpdateAction.apply Tags.changes Tags.user = .ok new ∧ Path.get? new Tags.place = none := by
  have arranged : AttributeValue.Arranged (.m Tags.user) :=
    .map (by decide) (List.forall_mem_cons.mpr ⟨.leaf rfl, List.forall_mem_singleton.mpr
      (.map .nil (List.forall_mem_nil _))⟩)
  have start : SetKind.texts.At Tags.user Tags.place [] := by
    refine ⟨List.nodup_nil, fun q there nonempty above proper found => ?_, rfl⟩
    obtain rfl : q = ["profile"] := by
      have short : q.length ≤ 2 := above.length_le
      rw [List.prefix_iff_eq_take] at above
      generalize q.length = n at above short
      subst above
      interval_cases n
      · exact absurd rfl nonempty
      · rfl
      · exact absurd rfl proper
    cases found
    exact ⟨[], rfl⟩
  have changes : ∀ a ∈ Tags.changes, a.ChangesSet .texts Tags.place := by
    have each : ∀ kind members, (kind = .add ∨ kind = .delete) → members ≠ [] → members.Nodup →
        (Tags.change kind members).ChangesSet .texts Tags.place :=
      fun _ _ adds filled distinct => ⟨rfl, adds, rfl, filled, distinct⟩
    simp only [Tags.changes, List.forall_mem_cons]
    exact ⟨each _ _ (.inl rfl) (by decide) (by decide), each _ _ (.inl rfl) (by decide) (by decide),
      each _ _ (.inr rfl) (by decide) (by decide), each _ _ (.inr rfl) (by decide) (by decide),
      List.forall_mem_nil _⟩
  have run := UpdateAction.sets_under_updates (by decide) arranged start changes
  obtain ⟨some3, done3, _, _, _, at3⟩ := run _ (List.take_prefix 3 _)
  obtain ⟨none4, done4, gone, _⟩ := run _ (List.prefix_refl _)
  exact ⟨⟨some3, done3, at3.read.trans rfl⟩, none4, done4, gone.mpr (by decide)⟩

end DocTable
