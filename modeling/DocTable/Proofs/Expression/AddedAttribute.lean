import DocTable.Proofs.Expression.TopLevelUpdate
import DocTable.Proofs.Expression.KeptAttribute
import DocTable.Proofs.Number.Integers

/-!
# Adding to an attribute

An action whose path starts with another attribute leaves an attribute as it is, whether it is there or
not, whatever it holds and whatever maps the action shares (`Draft.lookup_actAll_of_head`).  An update that
adds an integer to an attribute once, and whose other actions lead elsewhere, therefore leaves the sum of
the integer and what the attribute has counted so far (`UpdateAction.lookup_apply_addOnce`), where an
attribute that is missing has counted nothing.
-/

namespace DocTable

set_option autoImplicit false

/-! ## Paths that start elsewhere -/

namespace Path

variable {α : Type} [Nested α] {fields after : List (String × α)} {name : String} {path : Path}

theorem lookup_set_of_head {value : α} (elsewhere : path.head? ≠ some name)
    (done : set fields value path = .ok after) :
    Keyed.lookup name after = Keyed.lookup name fields := by
  match path with
  | [] =>
    cases done
    rfl
  | [last] =>
    cases done
    exact Keyed.lookup_insert_of_ne _ _ fun same => elsewhere (by rw [same, List.head?_cons])
  | step :: next :: rest =>
    have other : step ≠ name := fun same => elsewhere (by rw [same, List.head?_cons])
    simp only [set] at done
    split at done
    · split at done
      · cases done
        exact Keyed.lookup_insert_of_ne _ _ other
      · cases done
    · split at done
      · cases done
      · split at done
        · cases done
          exact Keyed.lookup_insert_of_ne _ _ other
        · cases done

theorem lookup_remove_of_head (elsewhere : path.head? ≠ some name) :
    Keyed.lookup name (remove fields path) = Keyed.lookup name fields := by
  match path with
  | [] => rfl
  | [last] =>
    exact Keyed.lookup_erase_of_ne _ fun same => elsewhere (by rw [same, List.head?_cons])
  | step :: next :: rest =>
    have other : step ≠ name := fun same => elsewhere (by rw [same, List.head?_cons])
    simp only [remove]
    split
    · rfl
    · split
      · rfl
      · exact Keyed.lookup_insert_of_ne _ _ other

end Path

/-! ## Drafts -/

namespace Draft

variable {d after : Draft} {name : String} {path : Path}

theorem lookup_put_of_head {value : Shared} (elsewhere : path.head? ≠ some name)
    (done : d.put path value = .ok after) :
    Keyed.lookup name after.item = Keyed.lookup name d.item := by
  simp only [put] at done
  cases ends : home d.maps none [] d.item path with
  | mk token? rest =>
    rw [ends] at done
    split at done
    · rename_i fields placed
      cases done
      cases token? with
      | some token => rfl
      | none =>
        have whole : rest = path := home_none ends
        subst whole
        exact Path.lookup_set_of_head elsewhere placed
    · cases done

theorem lookup_remove_of_head (elsewhere : path.head? ≠ some name) :
    Keyed.lookup name (d.remove path).item = Keyed.lookup name d.item := by
  simp only [remove]
  cases ends : home d.maps none [] d.item path with
  | mk token? rest =>
    cases token? with
    | some token => rfl
    | none =>
      have whole : rest = path := home_none ends
      subst whole
      exact Path.lookup_remove_of_head elsewhere

theorem lookup_putOperand_of_head {a : UpdateAction} (elsewhere : a.path.head? ≠ some name)
    (done : d.putOperand a = .ok after) :
    Keyed.lookup name after.item = Keyed.lookup name d.item := by
  rw [putOperand] at done
  split at done
  · exact (lookup_put_of_head elsewhere done).trans rfl
  · exact lookup_put_of_head elsewhere done

/-- An action keeps the attributes that its path does not start with. -/
theorem lookup_act_of_head {a : UpdateAction} (elsewhere : a.path.head? ≠ some name)
    (done : d.act a = .ok after) : Keyed.lookup name after.item = Keyed.lookup name d.item := by
  rw [act] at done
  split at done
  · exact lookup_putOperand_of_head elsewhere done
  · cases done
    exact lookup_remove_of_head elsewhere
  · split at done
    · exact lookup_putOperand_of_head elsewhere done
    · split at done
      · cases done
      · exact lookup_put_of_head elsewhere done
  · split at done
    · cases done
      rfl
    · split at done
      · cases done
      · cases done
        exact lookup_remove_of_head elsewhere
      · exact lookup_put_of_head elsewhere done

theorem lookup_actAll_of_head {actions : List UpdateAction}
    (elsewhere : ∀ a ∈ actions, a.path.head? ≠ some name) (done : d.actAll actions = .ok after) :
    Keyed.lookup name after.item = Keyed.lookup name d.item := by
  induction actions generalizing d with
  | nil =>
    cases done
    rfl
  | cons a rest ih =>
    obtain ⟨between, first, remaining⟩ := Outcome.ok_of_bind done
    rw [ih (fun other member => elsewhere other (List.mem_cons_of_mem _ member)) remaining]
    exact lookup_act_of_head (elsewhere a List.mem_cons_self) first

theorem actAll_append (d : Draft) (first second : List UpdateAction) :
    d.actAll (first ++ second) = (d.actAll first).bind fun between => between.actAll second := by
  induction first generalizing d with
  | nil => rfl
  | cons a rest ih =>
    rw [List.cons_append, actAll, actAll]
    cases d.act a with
    | error cause => rfl
    | ok between => exact ih between

end Draft

/-- An update keeps the attributes that none of its paths starts with. -/
theorem UpdateAction.lookup_apply_of_head {actions : List UpdateAction} {item new : Item} {name : String}
    (elsewhere : ∀ a ∈ actions, a.path.head? ≠ some name)
    (done : UpdateAction.apply actions item = .ok new) :
    Keyed.lookup name new = Keyed.lookup name item := by
  obtain ⟨d, acted, finished⟩ := Outcome.ok_of_bind done
  cases finished
  rw [Draft.finish, Shared.lookup_revealFields, Draft.lookup_actAll_of_head elsewhere acted, Draft.ofItem,
    Shared.lookup_ofFields, Option.map_map]
  cases Keyed.lookup name item with
  | none => rfl
  | some value => exact congrArg some (Shared.reveal_ofValue _ value)

/-! ## Counting -/

/-- What an attribute has counted: it is the text of an integer, or it is missing and has counted
nothing. -/
def AttributeValue.Counts (value? : Option AttributeValue) (n : Int) : Prop :=
  value? = some (.n (toString n)) ∨ (value? = none ∧ n = 0)

namespace UpdateAction

/-- The action that adds an integer to an attribute. -/
def increment (name token : String) (delta : Int) : UpdateAction :=
  ⟨.add, [name], some ⟨token, .n (toString delta)⟩⟩

/-- Actions that add an integer to an attribute once, and otherwise lead elsewhere. -/
def AddOnce (name : String) (delta : Int) (actions : List UpdateAction) : Prop :=
  ∃ earlier token later, actions = earlier ++ increment name token delta :: later ∧
    ∀ a ∈ earlier ++ later, a.path.head? ≠ some name

/-- Two integers and their sum are within the precision of the arithmetic. -/
structure AddsExactly (n delta : Int) : Prop where
  first : n.natAbs < UInt64.size
  second : delta.natAbs < UInt64.size
  sum : (n + delta).natAbs < UInt64.size

variable {name token : String} {n delta : Int} {item new : Item}

/-- The increment of a draft whose attribute has counted an integer. -/
theorem act_increment {d : Draft} (bounds : AddsExactly n delta)
    (counted : Keyed.lookup name d.item = some (.leaf (.n (toString n))) ∨
      (Keyed.lookup name d.item = none ∧ n = 0)) :
    d.act (increment name token delta) =
      .ok { d with item := Keyed.insert name (.leaf (.n (toString (n + delta)))) d.item } := by
  rw [Draft.act, increment]
  dsimp only
  rw [Draft.get?_singleton]
  rcases counted with number | ⟨missing, rfl⟩
  · rw [number]
    dsimp only
    rw [Shared.surface, UpdateAction.value]
    dsimp only
    rw [AttributeValue.add_integers bounds.first bounds.second bounds.sum]
    exact Draft.put_singleton _
  · rw [missing, Int.zero_add]
    exact Draft.put_singleton _

/-- An update that adds to an attribute once leaves the sum. -/
theorem lookup_apply_addOnce {actions : List UpdateAction} (adds : AddOnce name delta actions)
    (bounds : AddsExactly n delta)
    (counts : AttributeValue.Counts (Keyed.lookup name item) n)
    (done : UpdateAction.apply actions item = .ok new) :
    Keyed.lookup name new = some (.n (toString (n + delta))) := by
  obtain ⟨earlier, token, later, rfl, elsewhere⟩ := adds
  obtain ⟨last, acted, finished⟩ := Outcome.ok_of_bind done
  cases finished
  rw [Draft.actAll_append] at acted
  obtain ⟨between, first, acted⟩ := Outcome.ok_of_bind acted
  obtain ⟨added, increments, acted⟩ := Outcome.ok_of_bind acted
  have reached : Keyed.lookup name between.item = (Keyed.lookup name item).map Shared.ofValue := by
    rw [Draft.lookup_actAll_of_head (fun a member => elsewhere a (List.mem_append_left _ member)) first,
      Draft.ofItem, Shared.lookup_ofFields]
  have counted : Keyed.lookup name between.item = some (.leaf (.n (toString n))) ∨
      (Keyed.lookup name between.item = none ∧ n = 0) := by
    rw [reached]
    rcases counts with number | ⟨missing, zero⟩
    · exact .inl (by rw [number]; rfl)
    · exact .inr ⟨by rw [missing]; rfl, zero⟩
  rw [act_increment bounds counted] at increments
  cases increments
  rw [Draft.finish, Shared.lookup_revealFields,
    Draft.lookup_actAll_of_head (fun a member => elsewhere a (List.mem_append_right _ member)) acted,
    Keyed.lookup_insert_self]
  rfl

/-- Adding an integer to what an attribute has counted, and nothing else, succeeds. -/
theorem apply_increment (token : String)
    (bounds : AddsExactly n delta)
    (counts : AttributeValue.Counts (Keyed.lookup name item) n) :
    UpdateAction.apply [increment name token delta] item =
      .ok (Keyed.insert name (.n (toString (n + delta))) item) := by
  let c : Context := ⟨[], [(token, .n (toString delta))]⟩
  have whole : ∀ a ∈ [increment name token delta], ∃ name, a.path = [name] := by
    intro a member
    cases List.mem_singleton.mp member
    exact ⟨name, rfl⟩
  have bound : ∀ a ∈ [increment name token delta], Draft.Bound c a := by
    intro a member operand given
    cases List.mem_singleton.mp member
    cases given
    exact if_pos rfl
  rw [apply_eq_onValues whole bound, List.foldlM_cons, onValues, increment]
  dsimp only
  rw [Path.get?]
  rcases counts with number | ⟨missing, rfl⟩
  · rw [number]
    dsimp only
    rw [UpdateAction.value]
    dsimp only
    rw [AttributeValue.add_integers bounds.first bounds.second bounds.sum]
    rfl
  · rw [missing, Int.zero_add]
    rfl

end UpdateAction

end DocTable
