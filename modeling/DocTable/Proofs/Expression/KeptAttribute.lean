import DocTable.Expression.Apply
import DocTable.Proofs.Keyed
import DocTable.Proofs.Outcome

/-!
# Attributes that an update keeps

An attribute that is no map keeps its value through an update as long as no action names it by
itself (`UpdateAction.lookup_apply`): an action whose path only starts with the attribute finds no
map there, so it fails or does nothing.  In a draft such an attribute is a leaf of the item, and what
actions do to maps of placeholders does not reach it (`Draft.lookup_act`).
-/

namespace DocTable

set_option autoImplicit false

/-! ## Records with and without links -/

namespace Shared

theorem lookup_ofFields (name : String) (fields : List (String × AttributeValue)) :
    Keyed.lookup name (ofFields fields) = (Keyed.lookup name fields).map ofValue := by
  induction fields with
  | nil => rfl
  | cons entry rest ih =>
    obtain ⟨k, v⟩ := entry
    by_cases here : k = name <;> simp [ofFields, Keyed.lookup, here, ih]

theorem lookup_revealFields (linked : String → AttributeValue) (name : String)
    (fields : List (String × Shared)) :
    Keyed.lookup name (revealFields linked fields) =
      (Keyed.lookup name fields).map (reveal linked) := by
  induction fields with
  | nil => rfl
  | cons entry rest ih =>
    obtain ⟨k, v⟩ := entry
    by_cases here : k = name <;> simp [revealFields, Keyed.lookup, here, ih]

theorem ofValue_eq_leaf {value : AttributeValue} (noMap : value.fields? = none) :
    ofValue value = .leaf value := by
  cases value with
  | m fields => cases noMap
  | _ => rfl

end Shared

/-! ## Paths past a value that is no map -/

namespace Path

variable {α : Type} [Nested α]

theorem lookup_set {fields after : List (String × α)} {value there : α} {name : String}
    {path : Path} (found : Keyed.lookup name fields = some there)
    (noMap : Nested.fields? there = none) (other : path ≠ [name])
    (done : set fields value path = .ok after) : Keyed.lookup name after = some there := by
  match path with
  | [] =>
    cases done
    exact found
  | [last] =>
    cases done
    rw [Keyed.lookup_insert_of_ne _ _ fun same => other (by rw [same])]
    exact found
  | step :: next :: rest =>
    simp only [set] at done
    by_cases here : step = name
    · subst here
      simp only [found, noMap] at done
      cases done
    · split at done
      · split at done
        · cases done
          rw [Keyed.lookup_insert_of_ne _ _ here]
          exact found
        · cases done
      · split at done
        · cases done
        · split at done
          · cases done
            rw [Keyed.lookup_insert_of_ne _ _ here]
            exact found
          · cases done

theorem lookup_remove {fields : List (String × α)} {there : α} {name : String} {path : Path}
    (found : Keyed.lookup name fields = some there) (noMap : Nested.fields? there = none)
    (other : path ≠ [name]) : Keyed.lookup name (remove fields path) = some there := by
  match path with
  | [] => exact found
  | [last] =>
    rw [remove, Keyed.lookup_erase_of_ne _ fun same => other (by rw [same])]
    exact found
  | step :: next :: rest =>
    simp only [remove]
    by_cases here : step = name
    · subst here
      simp only [found, noMap]
    · split
      · exact found
      · split
        · exact found
        · rw [Keyed.lookup_insert_of_ne _ _ here]
          exact found

end Path

/-! ## Drafts -/

namespace Draft

/-- A path that has followed a link ends in the map of a placeholder. -/
theorem home_some (maps : Fields (Fields Shared)) (token : String) (walked : Path)
    (fields : Fields Shared) (path : Path) :
    ∃ last rest, home maps (some token) walked fields path = (some last, rest) := by
  induction path generalizing token walked fields with
  | nil => exact ⟨token, walked, rfl⟩
  | cons step rest ih =>
    unfold home
    split
    · exact ih token _ _
    · exact ih _ [] _
    · exact ⟨token, _, rfl⟩

/-- A path that ends in the item itself has followed no link. -/
theorem home_none {maps : Fields (Fields Shared)} {walked rest : Path} {fields : Fields Shared}
    {path : Path} (ends : home maps none walked fields path = (none, rest)) :
    rest = walked ++ path := by
  induction path generalizing walked fields with
  | nil =>
    rw [home] at ends
    cases ends
    exact (List.append_nil _).symm
  | cons step tail ih =>
    unfold home at ends
    split at ends
    · rw [ih ends, List.append_assoc, List.singleton_append]
    · obtain ⟨last, more, elsewhere⟩ := home_some maps _ [] _ _
      rw [elsewhere] at ends
      cases ends
    · cases ends
      rfl

variable {d after : Draft} {name : String} {value : AttributeValue} {path : Path}

theorem lookup_put {shared : Shared} (found : Keyed.lookup name d.item = some (.leaf value))
    (other : path ≠ [name]) (done : d.put path shared = .ok after) :
    Keyed.lookup name after.item = some (.leaf value) := by
  simp only [put] at done
  cases ends : home d.maps none [] d.item path with
  | mk token? rest =>
    rw [ends] at done
    split at done
    · rename_i fields placed
      cases done
      cases token? with
      | some token => exact found
      | none =>
        have whole : rest = path := home_none ends
        subst whole
        exact Path.lookup_set found rfl other placed
    · cases done

theorem lookup_remove (found : Keyed.lookup name d.item = some (.leaf value))
    (other : path ≠ [name]) : Keyed.lookup name (d.remove path).item = some (.leaf value) := by
  simp only [remove]
  cases ends : home d.maps none [] d.item path with
  | mk token? rest =>
    cases token? with
    | some token => exact found
    | none =>
      have whole : rest = path := home_none ends
      subst whole
      exact Path.lookup_remove found rfl other

theorem lookup_putOperand {a : UpdateAction}
    (found : Keyed.lookup name d.item = some (.leaf value)) (other : a.path ≠ [name])
    (done : d.putOperand a = .ok after) : Keyed.lookup name after.item = some (.leaf value) := by
  rw [putOperand] at done
  split at done
  · exact lookup_put (by exact found) other done
  · exact lookup_put found other done

/-- An action keeps the leaves of the item that it does not name. -/
theorem lookup_act {a : UpdateAction} (found : Keyed.lookup name d.item = some (.leaf value))
    (other : a.path ≠ [name]) (done : d.act a = .ok after) :
    Keyed.lookup name after.item = some (.leaf value) := by
  rw [act] at done
  split at done
  · exact lookup_putOperand found other done
  · cases done
    exact lookup_remove found other
  · split at done
    · exact lookup_putOperand found other done
    · split at done
      · cases done
      · exact lookup_put found other done
  · split at done
    · cases done
      exact found
    · split at done
      · cases done
      · cases done
        exact lookup_remove found other
      · exact lookup_put found other done

theorem lookup_actAll {actions : List UpdateAction}
    (found : Keyed.lookup name d.item = some (.leaf value))
    (others : ∀ a ∈ actions, a.path ≠ [name]) (done : d.actAll actions = .ok after) :
    Keyed.lookup name after.item = some (.leaf value) := by
  induction actions generalizing d with
  | nil =>
    cases done
    exact found
  | cons a rest ih =>
    obtain ⟨between, first, remaining⟩ := Outcome.ok_of_bind done
    exact ih (lookup_act found (others a List.mem_cons_self) first)
      (fun other member => others other (List.mem_cons_of_mem _ member)) remaining

end Draft

/-- An update keeps the attributes that are no maps and that no action names by itself. -/
theorem UpdateAction.lookup_apply {actions : List UpdateAction} {item new : Item} {name : String}
    {value : AttributeValue} (found : Keyed.lookup name item = some value)
    (noMap : value.fields? = none) (others : ∀ a ∈ actions, a.path ≠ [name])
    (done : UpdateAction.apply actions item = .ok new) : Keyed.lookup name new = some value := by
  obtain ⟨d, acted, finished⟩ := Outcome.ok_of_bind done
  cases finished
  have leaf : Keyed.lookup name (Draft.ofItem item).item = some (.leaf value) := by
    simp only [Draft.ofItem]
    rw [Shared.lookup_ofFields, found, Option.map_some, Shared.ofValue_eq_leaf noMap]
  rw [Draft.finish, Shared.lookup_revealFields, Draft.lookup_actAll leaf others acted,
    Option.map_some, Shared.reveal]

end DocTable
