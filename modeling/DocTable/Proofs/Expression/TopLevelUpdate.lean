import DocTable.Proofs.Expression.KeptAttribute
import Mathlib.Data.List.Forall2

/-!
# Updates of whole attributes

What the actions of an update mean for an item of plain values, one after the other
(`UpdateAction.onValues`): a value is put at a path, taken away there, added to or reduced.  A draft does
the same with the maps of placeholders kept once and linked to, which makes a difference only where a
path leads into such a map.  An action that names a whole attribute does not do that, so an update made
of such actions means what its actions mean (`UpdateAction.apply_eq_onValues`).

A draft stands for an item of plain values if each of its attributes is the plain value itself or a link
to it (`Draft.StandsFor`).  An action keeps that, whether it succeeds or fails (`Draft.StandsFor.act`).
-/

namespace DocTable

set_option autoImplicit false

/-! ## What actions mean -/

namespace UpdateAction

/-- Puts a value at a path of an item. -/
def placed (item : Item) (path : Path) (value : AttributeValue) : Except ExpressionError Item :=
  (Path.set item value path).mapError .notAMap

/-- What an action means for an item of plain values. -/
def onValues (item : Item) (a : UpdateAction) : Except ExpressionError Item :=
  match a.kind with
  | .set => placed item a.path a.value
  | .remove => .ok (Path.remove item a.path)
  | .add => match Path.get? item a.path with
    | none => placed item a.path a.value
    | some current => match current.add a.value with
      | .error cause => .error (.combine .add a.path cause)
      | .ok sum => placed item a.path sum
  | .delete => match Path.get? item a.path with
    | none => .ok item
    | some current => match current.delete a.value with
      | .error cause => .error (.combine .delete a.path cause)
      | .ok none => .ok (Path.remove item a.path)
      | .ok (some rest) => placed item a.path rest

end UpdateAction

/-! ## Values without links -/

namespace Shared

mutual
theorem reveal_ofValue (linked : String → AttributeValue) : ∀ value : AttributeValue,
    reveal linked (ofValue value) = value
  | .m fields => by rw [ofValue, reveal, revealFields_ofFields linked fields]
  | .s _ | .raw _ | .n _ | .b _ | .bool _ | .null _ | .l _ | .ss _ | .ns _ | .bs _ | .unset | .unknown => rfl

theorem revealFields_ofFields (linked : String → AttributeValue) :
    ∀ fields : List (String × AttributeValue), revealFields linked (ofFields fields) = fields
  | [] => rfl
  | (name, value) :: rest => by
    rw [ofFields, revealFields, reveal_ofValue linked value, revealFields_ofFields linked rest]
end

/-- A value of a draft stands for a plain value: it is that value, or a link to a map that is. -/
inductive Denotes (maps : Fields (Fields Shared)) : Shared → AttributeValue → Prop where
  | plain (value : AttributeValue) : Denotes maps (ofValue value) value
  | link {token : String} {fields : List (String × AttributeValue)}
      (bound : Keyed.lookup token maps = some (ofFields fields)) : Denotes maps (.link token) (.m fields)

namespace Denotes

variable {maps : Fields (Fields Shared)} {shared : Shared} {value : AttributeValue}

theorem leaf (maps : Fields (Fields Shared)) {value : AttributeValue} (noMap : value.fields? = none) :
    Denotes maps (.leaf value) value := by
  rw [← ofValue_eq_leaf noMap]
  exact .plain value

theorem reveal (denotes : Denotes maps shared value) :
    Shared.reveal (Draft.linked maps maps.length) shared = value := by
  cases denotes with
  | plain => exact reveal_ofValue _ value
  | link bound =>
    cases maps with
    | nil => cases bound
    | cons entry rest =>
      rw [Shared.reveal, List.length_cons, Draft.linked, bound, Option.getD_some,
        revealFields_ofFields]

/-- Actions see of a value of a draft what they see of the plain value. -/
theorem add_surface (denotes : Denotes maps shared value) (delta : AttributeValue) :
    shared.surface.add delta = value.add delta := by
  cases denotes with
  | plain =>
    cases value with
    | m fields => cases delta <;> rfl
    | _ => rfl
  | link => cases delta <;> rfl

theorem delete_surface (denotes : Denotes maps shared value) (removed : AttributeValue) :
    shared.surface.delete removed = value.delete removed := by
  cases denotes with
  | plain =>
    cases value with
    | m fields => cases removed <;> rfl
    | _ => rfl
  | link => cases removed <;> rfl

end Denotes

end Shared

theorem AttributeValue.fields?_of_add {current delta sum : AttributeValue}
    (added : current.add delta = .ok sum) : sum.fields? = none := by
  rw [add.eq_def] at added
  split at added
  · rw [addNumbers] at added
    split at added
    · cases added
    · split at added
      · cases added
      · split at added
        · cases added
          rfl
        · cases added
  · cases added
    rfl
  · cases added
    rfl
  · cases added

theorem AttributeValue.fields?_of_delete {current removed rest : AttributeValue}
    (deleted : current.delete removed = .ok (some rest)) : rest.fields? = none := by
  rw [delete.eq_def] at deleted
  split at deleted
  · simp only [setOf?, Except.ok.injEq] at deleted
    split at deleted
    · cases deleted
    · cases deleted
      rfl
  · simp only [setOf?, Except.ok.injEq] at deleted
    split at deleted
    · cases deleted
    · cases deleted
      rfl
  · cases deleted

/-! ## Drafts and whole attributes -/

namespace Draft

variable {d : Draft} {name : String}

theorem home_singleton (maps : Fields (Fields Shared)) (fields : Fields Shared) (name : String) :
    home maps none [] fields [name] = (none, [name]) := by
  rw [home]
  · rfl
  · intro _ _ _ atEnd
    cases atEnd
  · intro _ _ _ atEnd
    cases atEnd

theorem get?_singleton : d.get? [name] = Keyed.lookup name d.item := by
  rw [get?, home_singleton]
  rfl

theorem put_singleton (value : Shared) :
    d.put [name] value = .ok { d with item := Keyed.insert name value d.item } := by
  rw [put, home_singleton]
  rfl

theorem remove_singleton : d.remove [name] = { d with item := Keyed.erase name d.item } := by
  rw [remove, home_singleton]
  rfl

/-- A draft stands for an item of plain values, and its maps are those that a context binds. -/
structure StandsFor (c : Context) (d : Draft) (item : Item) : Prop where
  attributes : Keyed.Matches (Shared.Denotes d.maps) d.item item
  maps : ∀ {token : String} {fields : Fields Shared}, Keyed.lookup token d.maps = some fields →
    ∃ plain, fields = Shared.ofFields plain ∧ Keyed.lookup token c.values = some (.m plain)

/-- An action has the value that its placeholder stands for. -/
def Bound (c : Context) (a : UpdateAction) : Prop :=
  ∀ operand, a.operand? = some operand → Keyed.lookup operand.token c.values = some operand.value

namespace StandsFor

variable {c : Context} {item : Item}

theorem ofItem (c : Context) (item : Item) : StandsFor c (Draft.ofItem item) item := by
  refine ⟨?_, fun found => by cases found⟩
  rw [Draft.ofItem]
  induction item with
  | nil => exact .nil
  | cons entry rest ih => exact .cons ⟨rfl, .plain _⟩ ih

theorem finish (stands : StandsFor c d item) : d.finish = item := by
  rw [Draft.finish]
  have attributes := stands.attributes
  clear stands
  generalize d.item = shared at attributes
  induction attributes with
  | nil => rfl
  | @cons x y _ _ same _ ih =>
    obtain ⟨k, value⟩ := x
    obtain ⟨l, plain⟩ := y
    obtain ⟨keys, denotes⟩ := same
    have sameKey : k = l := keys
    have revealed : Shared.reveal (linked d.maps d.maps.length) value = plain := denotes.reveal
    rw [Shared.revealFields, ih, revealed, sameKey]

theorem insert (stands : StandsFor c d item) (name : String) {shared : Shared} {value : AttributeValue}
    (denotes : Shared.Denotes d.maps shared value) :
    StandsFor c { d with item := Keyed.insert name shared d.item } (Keyed.insert name value item) :=
  ⟨stands.attributes.insert name denotes, stands.maps⟩

theorem erase (stands : StandsFor c d item) (name : String) :
    StandsFor c { d with item := Keyed.erase name d.item } (Keyed.erase name item) :=
  ⟨stands.attributes.erase name, stands.maps⟩

/-- Keeping the map of a placeholder changes nothing of what a draft stands for. -/
theorem withMap (stands : StandsFor c d item) {token : String} {fields : List (String × AttributeValue)}
    (bound : Keyed.lookup token c.values = some (.m fields)) :
    ∃ maps, (if Keyed.contains token d.maps then d.maps
        else Keyed.insert token (Shared.ofFields fields) d.maps) = maps ∧
      StandsFor c { d with maps := maps } item ∧
      Shared.Denotes maps (.link token) (.m fields) := by
  refine ⟨_, rfl, ?_⟩
  split
  · rename_i there
    obtain ⟨found, lookup⟩ := Keyed.contains_iff.mp there
    obtain ⟨plain, rfl, boundPlain⟩ := stands.maps lookup
    rw [bound] at boundPlain
    cases boundPlain
    exact ⟨stands, .link lookup⟩
  · rename_i absent
    refine ⟨⟨stands.attributes.imp fun shared value denotes => ?_, fun {other} {others} found => ?_⟩,
      .link (Keyed.lookup_insert_self _ _ _)⟩
    · cases denotes with
      | plain => exact .plain _
      | @link other _ lookup =>
        have distinct : token ≠ other := by
          rintro rfl
          exact absent (Keyed.contains_iff.mpr ⟨_, lookup⟩)
        exact .link ((Keyed.lookup_insert_of_ne _ _ distinct).trans lookup)
    · rw [Keyed.lookup_insert] at found
      split at found
      · rename_i same
        cases found
        exact ⟨fields, rfl, same ▸ bound⟩
      · exact stands.maps found

/-- Putting the value of an action into a whole attribute. -/
theorem putOperand (stands : StandsFor c d item) {a : UpdateAction} (path : a.path = [name])
    (bound : Bound c a) :
    ∃ after, d.putOperand a = .ok after ∧ StandsFor c after (Keyed.insert name a.value item) := by
  rw [Draft.putOperand]
  split
  · rename_i token fields given
    obtain ⟨maps, same, standsNow, denotes⟩ := stands.withMap (bound _ given)
    have value : a.value = .m fields := by
      rw [UpdateAction.value, given]
    rw [same, path, put_singleton, value]
    exact ⟨_, rfl, standsNow.insert name denotes⟩
  · rename_i noMap
    rw [path, put_singleton]
    refine ⟨_, rfl, stands.insert name (.leaf _ ?_)⟩
    rw [UpdateAction.value]
    split
    · rename_i operand given
      cases isMap : operand.value with
      | m fields =>
        obtain ⟨token, value⟩ := operand
        cases isMap
        exact absurd given (noMap token fields)
      | _ => rfl
    · rfl

/-- An action on a whole attribute does to a draft what it means for the item that the draft stands
for. -/
theorem act (stands : StandsFor c d item) {a : UpdateAction} (path : a.path = [name])
    (bound : Bound c a) :
    (∃ after new, d.act a = .ok after ∧ a.onValues item = .ok new ∧ StandsFor c after new) ∨
      ∃ cause, d.act a = .error cause ∧ a.onValues item = .error cause := by
  have placed : ∀ value : AttributeValue,
      UpdateAction.placed item [name] value = .ok (Keyed.insert name value item) := fun _ => rfl
  have removed : Path.remove item [name] = Keyed.erase name item := rfl
  have got : Path.get? item [name] = Keyed.lookup name item := rfl
  rw [Draft.act.eq_def, UpdateAction.onValues.eq_def]
  cases a.kind with
  | set =>
    obtain ⟨after, done, standsAfter⟩ := stands.putOperand path bound
    dsimp only
    rw [path, placed]
    exact .inl ⟨after, _, done, rfl, standsAfter⟩
  | remove =>
    dsimp only
    rw [path, remove_singleton, removed]
    exact .inl ⟨_, _, rfl, rfl, stands.erase name⟩
  | add =>
    dsimp only
    rw [path, get?_singleton, got]
    rcases stands.attributes.lookup name with ⟨missing, missingPlain⟩ | ⟨shared, value, found, plain, denotes⟩
    · obtain ⟨after, done, standsAfter⟩ := stands.putOperand path bound
      simp only [missing, missingPlain, placed]
      exact .inl ⟨after, _, done, rfl, standsAfter⟩
    · simp only [found, plain, denotes.add_surface, put_singleton, placed]
      cases added : value.add a.value with
      | error cause => exact .inr ⟨_, rfl, rfl⟩
      | ok sum =>
        exact .inl ⟨_, _, rfl, rfl, stands.insert name (.leaf _ (AttributeValue.fields?_of_add added))⟩
  | delete =>
    dsimp only
    rw [path, get?_singleton, got]
    rcases stands.attributes.lookup name with ⟨missing, missingPlain⟩ | ⟨shared, value, found, plain, denotes⟩
    · simp only [missing, missingPlain]
      exact .inl ⟨_, _, rfl, rfl, stands⟩
    · simp only [found, plain, denotes.delete_surface, put_singleton, remove_singleton, removed, placed]
      cases deleted : value.delete a.value with
      | error cause => exact .inr ⟨_, rfl, rfl⟩
      | ok rest? =>
        cases rest? with
        | none => exact .inl ⟨_, _, rfl, rfl, stands.erase name⟩
        | some rest =>
          exact .inl ⟨_, _, rfl, rfl,
            stands.insert name (.leaf _ (AttributeValue.fields?_of_delete deleted))⟩

end StandsFor

end Draft

/-- **An update of whole attributes means what its actions mean**, one after the other. -/
theorem UpdateAction.apply_eq_onValues {c : Context} {actions : List UpdateAction}
    (whole : ∀ a ∈ actions, ∃ name, a.path = [name]) (bound : ∀ a ∈ actions, Draft.Bound c a)
    (item : Item) : UpdateAction.apply actions item = actions.foldlM UpdateAction.onValues item := by
  have run : ∀ {d : Draft} {item : Item}, Draft.StandsFor c d item →
      (d.actAll actions).map Draft.finish = actions.foldlM UpdateAction.onValues item := by
    induction actions with
    | nil =>
      intro d item stands
      rw [Draft.actAll, List.foldlM_nil, Except.map, stands.finish]
      rfl
    | cons a rest ih =>
      intro d item stands
      obtain ⟨name, path⟩ := whole a List.mem_cons_self
      have boundFirst := bound a List.mem_cons_self
      have later := @ih (fun b member => whole b (List.mem_cons_of_mem _ member))
        fun b member => bound b (List.mem_cons_of_mem _ member)
      rw [Draft.actAll, List.foldlM_cons]
      rcases stands.act path boundFirst with ⟨after, new, acted, meant, standsAfter⟩ | ⟨cause, acted, meant⟩
      · rw [acted, meant]
        exact later standsAfter
      · rw [acted, meant]
        rfl
  rw [UpdateAction.apply, ← run (Draft.StandsFor.ofItem c item)]
  cases (Draft.ofItem item).actAll actions <;> rfl

end DocTable
