import DocTable.Proofs.Expression.TopLevelUpdate
import DocTable.Proofs.Expression.UntouchedPaths

/-!
# Drafts without links

A draft gets links only from actions that put a map.  As long as none does, the draft of an item is the
item in another form: what is done to the one is done to the other, at any depth (`Draft.act_ofItem`).
So an update that puts no maps does what its actions mean, one after the other
(`UpdateAction.apply_eq_onValues_of_no_map`).
-/

namespace DocTable

set_option autoImplicit false

/-! ## Records without links -/

namespace Shared

variable {fields : List (String × AttributeValue)} {value : AttributeValue} {path : Path}

theorem fields?_ofValue (value : AttributeValue) :
    Nested.fields? (ofValue value) = (Nested.fields? value).map ofFields := by
  cases value <;> rfl

theorem insert_ofFields (name : String) (value : AttributeValue) (fields : List (String × AttributeValue)) :
    Keyed.insert name (ofValue value) (ofFields fields) = ofFields (Keyed.insert name value fields) := by
  induction fields with
  | nil => rfl
  | cons entry rest ih =>
    obtain ⟨other, there⟩ := entry
    rw [ofFields, Keyed.insert, Keyed.insert, ih]
    split
    · rfl
    · split <;> rfl

theorem erase_ofFields (name : String) (fields : List (String × AttributeValue)) :
    Keyed.erase name (ofFields fields) = ofFields (Keyed.erase name fields) := by
  induction fields with
  | nil => rfl
  | cons entry rest ih =>
    obtain ⟨other, there⟩ := entry
    rw [ofFields, Keyed.erase, Keyed.erase, ih]
    split <;> rfl

/-- Putting a value into a record without links. -/
theorem set_ofFields (value : AttributeValue) (path : Path) (fields : List (String × AttributeValue)) :
    Path.set (ofFields fields) (ofValue value) path = (Path.set fields value path).map ofFields := by
  induction path generalizing fields with
  | nil => rfl
  | cons step rest ih =>
    cases rest with
    | nil => exact congrArg Except.ok (insert_ofFields step value fields)
    | cons next more =>
      have below : ∀ inner, Except.map ofFields (Path.set inner value (next :: more)) =
          Path.set (ofFields inner) (ofValue value) (next :: more) := fun inner => (ih inner).symm
      simp only [Path.set, lookup_ofFields]
      cases Keyed.lookup step fields with
      | none =>
        dsimp only [Option.map_none]
        have fresh := below []
        rw [ofFields] at fresh
        rw [← fresh]
        cases Path.set ([] : Item) value (next :: more) with
        | error blocked => rfl
        | ok inner => exact congrArg Except.ok (insert_ofFields step (.m inner) fields)
      | some there =>
        dsimp only [Option.map_some]
        rw [fields?_ofValue]
        cases Nested.fields? there with
        | none => rfl
        | some inner =>
          dsimp only [Option.map_some]
          rw [← below inner]
          cases Path.set inner value (next :: more) with
          | error blocked => rfl
          | ok changed => exact congrArg Except.ok (insert_ofFields step (.m changed) fields)

/-- Taking a value away from a record without links. -/
theorem remove_ofFields (path : Path) (fields : List (String × AttributeValue)) :
    Path.remove (ofFields fields) path = ofFields (Path.remove fields path) := by
  induction path generalizing fields with
  | nil => rfl
  | cons step rest ih =>
    cases rest with
    | nil => exact erase_ofFields step fields
    | cons next more =>
      simp only [Path.remove, lookup_ofFields]
      cases Keyed.lookup step fields with
      | none => rfl
      | some there =>
        dsimp only [Option.map_some]
        rw [fields?_ofValue]
        cases Nested.fields? there with
        | none => rfl
        | some inner =>
          dsimp only [Option.map_some]
          rw [ih inner]
          exact insert_ofFields step (.m (Path.remove inner (next :: more))) fields

end Shared

/-! ## Actions that put no maps -/

namespace Draft

variable {item : Item} {path : Path} {value : AttributeValue} {a : UpdateAction}

/-- A path meets no link in a record without links. -/
theorem home_ofFields (maps : Fields (Fields Shared)) (token? : Option String) (walked : Path)
    (fields : List (String × AttributeValue)) (path : Path) :
    home maps token? walked (Shared.ofFields fields) path = (token?, walked ++ path) := by
  induction path generalizing walked fields with
  | nil => rw [home, List.append_nil]
  | cons step rest ih =>
    unfold home
    split
    · rename_i next more inner found
      rw [Shared.lookup_ofFields] at found
      obtain ⟨there, _, isMap⟩ := Option.map_eq_some_iff.mp found
      cases there with
      | m below =>
        cases isMap
        rw [ih, List.append_assoc, List.singleton_append]
      | _ => cases isMap
    · rename_i next more token found
      rw [Shared.lookup_ofFields] at found
      obtain ⟨there, _, isLink⟩ := Option.map_eq_some_iff.mp found
      cases there <;> cases isLink
    · rfl

theorem get?_ofItem (item : Item) (path : Path) :
    (Draft.ofItem item).get? path = (Path.get? item path).map Shared.ofValue := by
  rw [get?, ofItem, home_ofFields]
  exact Shared.get?_ofFields item

theorem put_ofItem (item : Item) (path : Path) (value : AttributeValue) :
    (Draft.ofItem item).put path (Shared.ofValue value) =
      (UpdateAction.placed item path value).map Draft.ofItem := by
  rw [put, ofItem, home_ofFields, UpdateAction.placed]
  dsimp only [fieldsOf, List.nil_append]
  rw [Shared.set_ofFields]
  cases Path.set item value path <;> rfl

theorem remove_ofItem (item : Item) (path : Path) :
    (Draft.ofItem item).remove path = Draft.ofItem (Path.remove item path) := by
  rw [remove, ofItem, home_ofFields]
  dsimp only [fieldsOf, List.nil_append]
  rw [Shared.remove_ofFields]
  rfl

theorem putOperand_ofItem (noMap : a.value.fields? = none) (item : Item) :
    (Draft.ofItem item).putOperand a = (UpdateAction.placed item a.path a.value).map Draft.ofItem := by
  rw [putOperand]
  split
  · rename_i token fields given
    rw [UpdateAction.value, given] at noMap
    cases noMap
  · rw [← Shared.ofValue_eq_leaf noMap]
    exact put_ofItem item a.path a.value

/-- An action whose value is no map does to a draft without links what it means. -/
theorem act_ofItem (noMap : a.value.fields? = none) (item : Item) :
    (Draft.ofItem item).act a = (a.onValues item).map Draft.ofItem := by
  have surface : ∀ value : AttributeValue, (Shared.ofValue value).Denotes [] value := .plain
  rw [act, UpdateAction.onValues]
  cases a.kind with
  | set => exact putOperand_ofItem noMap item
  | remove => exact congrArg Except.ok (remove_ofItem item a.path)
  | add =>
    dsimp only
    rw [get?_ofItem]
    cases Path.get? item a.path with
    | none => exact putOperand_ofItem noMap item
    | some current =>
      dsimp only [Option.map_some]
      rw [(surface current).add_surface]
      cases added : current.add a.value with
      | error cause => rfl
      | ok sum =>
        dsimp only
        rw [← Shared.ofValue_eq_leaf (AttributeValue.fields?_of_add added)]
        exact put_ofItem item a.path sum
  | delete =>
    dsimp only
    rw [get?_ofItem]
    cases Path.get? item a.path with
    | none => rfl
    | some current =>
      dsimp only [Option.map_some]
      rw [(surface current).delete_surface]
      cases deleted : current.delete a.value with
      | error cause => rfl
      | ok rest? =>
        cases rest? with
        | none => exact congrArg Except.ok (remove_ofItem item a.path)
        | some rest =>
          dsimp only
          rw [← Shared.ofValue_eq_leaf (AttributeValue.fields?_of_delete deleted)]
          exact put_ofItem item a.path rest

theorem actAll_ofItem {actions : List UpdateAction} (noMaps : ∀ a ∈ actions, a.value.fields? = none)
    (item : Item) :
    (Draft.ofItem item).actAll actions = (actions.foldlM UpdateAction.onValues item).map Draft.ofItem := by
  induction actions generalizing item with
  | nil => rfl
  | cons a rest ih =>
    rw [actAll, List.foldlM_cons, act_ofItem (noMaps a List.mem_cons_self)]
    cases a.onValues item with
    | error cause => rfl
    | ok new => exact ih (fun b member => noMaps b (List.mem_cons_of_mem _ member)) new

end Draft

/-- An update that puts no maps does what its actions mean, one after the other. -/
theorem UpdateAction.apply_eq_onValues_of_no_map {actions : List UpdateAction}
    (noMaps : ∀ a ∈ actions, a.value.fields? = none) (item : Item) :
    UpdateAction.apply actions item = actions.foldlM UpdateAction.onValues item := by
  rw [UpdateAction.apply, Draft.actAll_ofItem noMaps]
  cases actions.foldlM UpdateAction.onValues item with
  | error cause => rfl
  | ok new => exact congrArg Except.ok (Shared.revealFields_ofFields _ new)

end DocTable
