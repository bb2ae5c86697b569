import DocTable.Proofs.Expression.UnfoldedDrafts
import DocTable.Proofs.Expression.UntouchedPaths

/-!
# Edits of a record and of the tree it stands for

What an action does at the end of its path is one of two edits: it puts a value there, or takes the value
there away (`PathEdit`).  A record of a draft that meets no link on the way is edited as the tree that it
stands for (`Reveals.edit`).  An action of an update is such an edit, and means the same edit of plain values,
except that a map given with a placeholder is put as a link to what this placeholder stands for by now
(`Draft.act_cases`).

A place can be written to as long as nothing but maps stands on the way (`Path.Open`), which stays so when the value
there is taken away.
-/

namespace DocTable

set_option autoImplicit false

/-- What is done at the end of a path: a value is put there, or the value there is taken away. -/
inductive PathEdit (α : Type) where
  | put (value : α)
  | take

/-! ## Editing fields -/

namespace Path

variable {α : Type} [Nested α] [LawfulNested α] {fields after : List (String × α)} {value : α}

/-- What was put at a path is found there. -/
theorem get?_set_self {path : Path} (nonempty : path ≠ []) (done : set fields value path = .ok after) :
    get? after path = some value := by
  induction path generalizing fields after with
  | nil => exact absurd rfl nonempty
  | cons step rest ih =>
    by_cases last : rest = []
    · subst last
      cases done
      exact Keyed.lookup_insert_self _ _ _
    · obtain ⟨below, inner, placed, rfl, _⟩ := set_cons last done
      rw [get?_cons last, Keyed.lookup_insert_self, Option.bind_some, LawfulNested.fields?_ofFields,
        Option.bind_some]
      exact ih last placed

omit [LawfulNested α] in
/-- Where there is no map yet, a new one is made. -/
theorem set_of_missing {step : String} {rest : Path} {inner : List (String × α)} (nonempty : rest ≠ [])
    (missing : Keyed.lookup step fields = none) (placed : set [] value rest = .ok inner) :
    set fields value (step :: rest) = .ok (Keyed.insert step (Nested.ofFields inner) fields) := by
  cases rest with
  | nil => exact absurd rfl nonempty
  | cons next more => simp only [set, missing, placed]

omit [LawfulNested α] in
/-- Below what is no map there is nothing to take away. -/
theorem remove_of_no_map {step : String} {rest : Path} (nonempty : rest ≠ [])
    (noMap : (Keyed.lookup step fields).bind Nested.fields? = none) :
    remove fields (step :: rest) = fields := by
  cases rest with
  | nil => exact absurd rfl nonempty
  | cons next more =>
    cases found : Keyed.lookup step fields with
    | none => simp only [remove, found]
    | some there =>
      have closed : Nested.fields? there = none := by rwa [found] at noMap
      simp only [remove, found, closed]

end Path

namespace PathEdit

section Run

variable {α : Type} [Nested α] {fields after : List (String × α)} {e : PathEdit α}

/-- Carries out an edit; the error is the step where something else than a map stands. -/
def run (e : PathEdit α) (fields : List (String × α)) (path : Path) : Except String (List (String × α)) :=
  match e with
  | .put value => Path.set fields value path
  | .take => .ok (Path.remove fields path)

/-- An edit below a map is an edit of the map. -/
theorem run_cons {step : String} {rest : Path} {there : α} {below inner : List (String × α)}
    (nonempty : rest ≠ []) (found : Keyed.lookup step fields = some there)
    (isMap : Nested.fields? there = some below) (done : e.run below rest = .ok inner) :
    e.run fields (step :: rest) = .ok (Keyed.insert step (Nested.ofFields inner) fields) := by
  cases rest with
  | nil => exact absurd rfl nonempty
  | cons next more =>
    cases e with
    | put value =>
      have placed : Path.set below value (next :: more) = .ok inner := done
      simp only [run, Path.set, found, isMap, placed]
    | take =>
      cases done
      simp only [run, Path.remove, found, isMap]

/-- An edit leaves what is read at a path apart from its own. -/
theorem get?_run_of_apart [LawfulNested α] {p q : Path} (apart : Path.Apart p q)
    (done : e.run fields p = .ok after) : Path.get? after q = Path.get? fields q := by
  cases e with
  | put value => exact Path.get?_set_of_apart apart done
  | take =>
    cases done
    exact Path.get?_remove_of_apart apart

end Run

end PathEdit

namespace AttributeValue.Arranged

variable {item new : Item} {value : AttributeValue}

theorem set {path : Path} (arranged : Arranged (.m item)) (here : value.Arranged)
    (done : Path.set item value path = .ok new) : Arranged (.m new) := by
  induction path generalizing item new with
  | nil =>
    cases done
    exact arranged
  | cons step rest ih =>
    by_cases last : rest = []
    · subst last
      cases done
      exact arranged.insert step here
    · obtain ⟨below, inner, placed, rfl, was⟩ := Path.set_cons last done
      refine arranged.insert step (ih ?_ placed)
      rcases was with ⟨_, rfl⟩ | ⟨there, found, isMap⟩
      · exact .map List.Pairwise.nil fun entry member => (nomatch member)
      · cases eq_m_of_fields? isMap
        exact arranged.lookup found

theorem remove (arranged : Arranged (.m item)) (path : Path) : Arranged (.m (Path.remove item path)) := by
  induction path generalizing item with
  | nil => exact arranged
  | cons step rest ih =>
    by_cases last : rest = []
    · subst last
      exact arranged.erase step
    · cases through : (Keyed.lookup step item).bind Nested.fields? with
      | none =>
        rw [Path.remove_of_no_map last through]
        exact arranged
      | some below =>
        have found := Path.lookup_of_fields? through
        rw [Except.ok.inj (PathEdit.run_cons (e := .take) last found rfl rfl)]
        exact arranged.insert step (ih (arranged.lookup found))

end AttributeValue.Arranged

/-! ## Places that can be written to -/

namespace Path

section Open

variable {α : Type} [Nested α] {fields after : List (String × α)} {value : α} {path : Path}

/-- Nothing but maps stands on the way to a place. -/
def Open (fields : List (String × α)) (path : Path) : Prop :=
  ∀ q there, q ≠ [] → q <+: path → q ≠ path → get? fields q = some there →
    ∃ inner, Nested.fields? there = some inner

theorem open_of_get? (found : get? fields path = some value) : Open fields path := by
  intro q there nonempty above proper here
  obtain ⟨there', inner, here', isMap⟩ := exists_map_above nonempty above proper found
  cases here.symm.trans here'
  exact ⟨inner, isMap⟩

variable [LawfulNested α]

theorem Open.remove (way : Open fields path) : Open (Path.remove fields path) path := by
  intro q there nonempty above proper here
  rcases @get?_remove_above _ _ _ _ fields _ above proper with same | ⟨inner, isMap⟩
  · exact way q there nonempty above proper (same ▸ here)
  · cases here.symm.trans isMap
    exact ⟨inner, LawfulNested.fields?_ofFields inner⟩

end Open

/-- What was taken away from an arranged item is not found any more. -/
theorem get?_remove_self {item : Item} {path : Path} (arranged : AttributeValue.Arranged (.m item)) :
    get? (remove item path) path = none := by
  induction path generalizing item with
  | nil => rfl
  | cons step rest ih =>
    by_cases last : rest = []
    · subst last
      exact Keyed.lookup_erase_self (AttributeValue.Arranged.m_iff.mp arranged).1 step
    · cases through : (Keyed.lookup step item).bind Nested.fields? with
      | none => rw [remove_of_no_map last through, get?_cons last, through, Option.bind_none]
      | some below =>
        have found := lookup_of_fields? through
        rw [Except.ok.inj (PathEdit.run_cons (e := .take) last found rfl rfl), get?_cons last,
          Keyed.lookup_insert_self, Option.bind_some, LawfulNested.fields?_ofFields, Option.bind_some]
        exact ih (arranged.lookup found)

end Path

namespace PathEdit

/-- An edit of a draft stands for an edit of plain values. -/
inductive Unfolds (maps : Fields (Fields Shared)) : PathEdit Shared → PathEdit AttributeValue → Prop where
  | put {shared : Shared} {value : AttributeValue} (unfolds : shared.Unfolds maps value) :
      Unfolds maps (.put shared) (.put value)
  | take : Unfolds maps .take .take

/-- The value that is put, if any, is arranged. -/
def Arranged : PathEdit AttributeValue → Prop
  | .put value => value.Arranged
  | .take => True

/-- Edits keep records in the order of their names. -/
theorem Arranged.run {e : PathEdit AttributeValue} (given : e.Arranged) {item new : Item} {path : Path}
    (arranged : AttributeValue.Arranged (.m item)) (done : e.run item path = .ok new) :
    AttributeValue.Arranged (.m new) := by
  cases e with
  | put value => exact arranged.set given done
  | take =>
    cases done
    exact arranged.remove path

end PathEdit

/-! ## Editing what a record stands for -/

namespace Draft

variable {fields after : Fields Shared} {path : Path}

theorem direct_nil (path : Path) : Direct [] path := by
  cases path with
  | nil => trivial
  | cons step rest =>
    by_cases last : rest = []
    · subst last
      trivial
    · exact (direct_cons last).mpr ⟨fun _ found => (nomatch found), fun _ found => (nomatch found)⟩

/-- A path that meets no link meets none after a value was put at its end. -/
theorem Direct.set {value : Shared} (direct : Direct fields path)
    (done : Path.set fields value path = .ok after) : Direct after path := by
  induction path generalizing fields after with
  | nil => trivial
  | cons step rest ih =>
    by_cases last : rest = []
    · subst last
      trivial
    · obtain ⟨noLink, below⟩ := (direct_cons last).mp direct
      obtain ⟨old, inner, placed, rfl, was⟩ := Path.set_cons last done
      refine (direct_cons last).mpr ⟨fun token found => ?_, fun other found => ?_⟩
      · rw [Keyed.lookup_insert_self] at found
        cases found
      · rw [Keyed.lookup_insert_self] at found
        cases found
        rcases was with ⟨_, rfl⟩ | ⟨there, found, isMap⟩
        · exact ih (direct_nil rest) placed
        · cases there with
          | map inside =>
            cases isMap
            exact ih (below _ found) placed
          | _ => cases isMap

end Draft

namespace Reveals

open Shared Draft

variable {maps : Fields (Fields Shared)} {fields after : Fields Shared} {plain : Item} {path : Path}

theorem insert (reveals : Reveals maps fields plain) (name : String) {shared : Shared}
    {value : AttributeValue} (unfolds : shared.Unfolds maps value) :
    Reveals maps (Keyed.insert name shared fields) (Keyed.insert name value plain) :=
  matches_iff.mpr ((matches_iff.mp reveals).insert name unfolds)

/-- Putting a value where no link is on the way puts what it stands for into the tree. -/
theorem set {shared : Shared} {value : AttributeValue} (reveals : Reveals maps fields plain)
    (direct : Direct fields path) (unfolds : shared.Unfolds maps value)
    (done : Path.set fields shared path = .ok after) :
    ∃ new, Path.set plain value path = .ok new ∧ Reveals maps after new := by
  induction path generalizing fields plain after with
  | nil =>
    cases done
    exact ⟨plain, rfl, reveals⟩
  | cons step rest ih =>
    by_cases last : rest = []
    · subst last
      cases done
      exact ⟨_, rfl, reveals.insert step unfolds⟩
    · obtain ⟨_, directInside⟩ := (direct_cons last).mp direct
      obtain ⟨old, inner, placed, rfl, was⟩ := Path.set_cons last done
      rcases was with ⟨missing, rfl⟩ | ⟨there, found, isMap⟩
      · obtain ⟨new, placed', inside⟩ := ih .nil (direct_nil rest) placed
        exact ⟨_, Path.set_of_missing last (reveals.lookup_of_none missing) placed',
          reveals.insert step ⟨new, rfl, inside⟩⟩
      · cases there with
        | map old =>
          cases isMap
          obtain ⟨_, foundPlain, below, rfl, inside⟩ := reveals.lookup_of_some found
          obtain ⟨new, placed', insideNew⟩ := ih inside (directInside _ found) placed
          exact ⟨_, PathEdit.run_cons (e := .put value) last foundPlain rfl placed',
            reveals.insert step ⟨new, rfl, insideNew⟩⟩
        | _ => cases isMap

/-- Taking away a value where no link is on the way takes away what it stands for. -/
theorem remove (reveals : Reveals maps fields plain) (direct : Direct fields path) :
    Reveals maps (Path.remove fields path) (Path.remove plain path) := by
  induction path generalizing fields plain with
  | nil => exact reveals
  | cons step rest ih =>
    by_cases last : rest = []
    · subst last
      exact matches_iff.mpr ((matches_iff.mp reveals).erase step)
    · obtain ⟨noLink, directInside⟩ := (direct_cons last).mp direct
      cases found : Keyed.lookup step fields with
      | none =>
        rw [Path.remove_of_no_map last (by rw [found]; rfl),
          Path.remove_of_no_map last (by rw [reveals.lookup_of_none found]; rfl)]
        exact reveals
      | some shared =>
        obtain ⟨value, foundPlain, unfolds⟩ := reveals.lookup_of_some found
        cases shared with
        | leaf there =>
          obtain ⟨rfl, noMap⟩ := unfolds
          rw [Path.remove_of_no_map last (by rw [found]; rfl),
            Path.remove_of_no_map last (by rw [foundPlain]; exact noMap)]
          exact reveals
        | map inner =>
          obtain ⟨below, rfl, inside⟩ := unfolds
          rw [Except.ok.inj (PathEdit.run_cons (e := .take) last found rfl rfl),
            Except.ok.inj (PathEdit.run_cons (e := .take) last foundPlain rfl rfl)]
          exact reveals.insert step ⟨_, rfl, ih inside (directInside inner found)⟩
        | link token => exact absurd found (noLink token)

/-- A record that meets no link on the way is edited as the tree that it stands for. -/
theorem edit {e : PathEdit Shared} {e' : PathEdit AttributeValue} (reveals : Reveals maps fields plain)
    (direct : Direct fields path) (same : e.Unfolds maps e') (done : e.run fields path = .ok after) :
    ∃ new, e'.run plain path = .ok new ∧ Reveals maps after new := by
  cases same with
  | put unfolds => exact reveals.set direct unfolds done
  | take =>
    cases done
    exact ⟨_, rfl, reveals.remove direct⟩

end Reveals

/-! ## Actions -/

namespace Shared.Unfolds

variable {maps : Fields (Fields Shared)} {shared : Shared} {value : AttributeValue}

/-- Actions see the value that a value of a draft stands for, or that it is a map. -/
theorem surface_cases (unfolds : shared.Unfolds maps value) :
    shared.surface = value ∨ ∃ below, value = .m below ∧ shared.surface = .m [] := by
  cases shared with
  | leaf there => exact .inl unfolds.1.symm
  | map inner =>
    obtain ⟨below, rfl, _⟩ := unfolds
    exact .inr ⟨below, rfl, rfl⟩
  | link token =>
    obtain ⟨_, below, _, rfl, _⟩ := unfolds
    exact .inr ⟨below, rfl, rfl⟩

theorem add_surface (unfolds : shared.Unfolds maps value) (delta : AttributeValue) :
    shared.surface.add delta = value.add delta := by
  rcases unfolds.surface_cases with same | ⟨below, rfl, seen⟩
  · rw [same]
  · rw [seen]
    cases delta <;> rfl

theorem delete_surface (unfolds : shared.Unfolds maps value) (removed : AttributeValue) :
    shared.surface.delete removed = value.delete removed := by
  rcases unfolds.surface_cases with same | ⟨below, rfl, seen⟩
  · rw [same]
  · rw [seen]
    cases removed <;> rfl

end Shared.Unfolds

/-- An action that puts the map given with a placeholder. -/
def UpdateAction.Puts (a : UpdateAction) (token : String) (fields : Item) : Prop :=
  a.operand? = some ⟨token, .m fields⟩ ∧ (a.kind = .set ∨ a.kind = .add)

/-- An action that is given no map has a value that is no map. -/
theorem UpdateAction.fields?_value {a : UpdateAction}
    (noMap : ∀ token fields, a.operand? = some ⟨token, .m fields⟩ → False) : a.value.fields? = none := by
  rw [value]
  cases given : a.operand? with
  | none => rfl
  | some operand =>
    obtain ⟨token, value⟩ := operand
    cases value with
    | m fields => exact (noMap token fields given).elim
    | _ => rfl

namespace Draft

/-- Edits a draft at a path. -/
def edit (d : Draft) (path : Path) : PathEdit Shared → Except ExpressionError Draft
  | .put value => d.put path value
  | .take => .ok (d.remove path)

/-- The draft with a map for a placeholder, unless the placeholder has one. -/
def holding (d : Draft) (token : String) (fields : Item) : Draft :=
  { d with maps := if Keyed.contains token d.maps then d.maps
      else Keyed.insert token (Shared.ofFields fields) d.maps }

variable {d after : Draft} {path : Path} {e : PathEdit Shared} {a : UpdateAction}

/-- An edit of a draft is one of the map that its path ends in. -/
theorem edit_cases (done : d.edit path e = .ok after) :
    ∃ token? ending fields, home d.maps none [] d.item path = (token?, ending) ∧
      e.run (d.fieldsOf token?) ending = .ok fields ∧ after = d.withFields fields token? := by
  cases ends : home d.maps none [] d.item path with
  | mk token? ending =>
    refine ⟨token?, ending, ?_⟩
    cases e with
    | put value =>
      simp only [edit, put, ends] at done
      split at done
      · rename_i fields placed
        cases done
        exact ⟨fields, rfl, placed, rfl⟩
      · cases done
    | take =>
      simp only [edit, remove, ends] at done
      cases done
      exact ⟨_, rfl, rfl, rfl⟩

/-- How an action changes a draft, and what it means for the tree that the draft stands for: nothing is done,
or the same edit, or the link to a map is put in place of the map that is given. -/
inductive Acts (d : Draft) (a : UpdateAction) (plain : Item) : Draft → Prop where
  | kept (noMap : ∀ token fields, ¬a.Puts token fields) (meant : a.onValues plain = .ok plain) :
      Acts d a plain d
  | edited {e : PathEdit Shared} {e' : PathEdit AttributeValue} {after : Draft}
      (noMap : ∀ token fields, ¬a.Puts token fields) (same : ∀ maps, e.Unfolds maps e')
      (arranged : e'.Arranged) (done : d.edit a.path e = .ok after)
      (meant : a.onValues plain = (e'.run plain a.path).mapError .notAMap) : Acts d a plain after
  | linked {token : String} {fields : Item} {after : Draft} (puts : a.Puts token fields)
      (done : (d.holding token fields).edit a.path (.put (.link token)) = .ok after)
      (meant : a.onValues plain = ((PathEdit.put (.m fields)).run plain a.path).mapError .notAMap) :
      Acts d a plain after

theorem Acts.putLeaf {plain : Item} {value : AttributeValue} (noMap : ∀ token fields, ¬a.Puts token fields)
    (leaf : value.fields? = none) (meant : a.onValues plain = UpdateAction.placed plain a.path value)
    (done : d.put a.path (.leaf value) = .ok after) : Acts d a plain after := by
  have unfolds : ∀ maps, PathEdit.Unfolds maps (.put (.leaf value)) (.put value) := fun maps => .put ⟨rfl, leaf⟩
  exact .edited noMap unfolds (.leaf leaf) done meant

theorem Acts.putOperand {plain : Item} (kind : a.kind = .set ∨ a.kind = .add)
    (meant : a.onValues plain = UpdateAction.placed plain a.path a.value)
    (done : d.putOperand a = .ok after) : Acts d a plain after := by
  rw [Draft.putOperand] at done
  split at done
  · rename_i token fields given
    refine .linked ⟨given, kind⟩ done (meant.trans ?_)
    rw [UpdateAction.value, given]
    rfl
  · rename_i noMap
    exact .putLeaf (fun token fields puts => noMap token fields puts.1) (UpdateAction.fields?_value noMap)
      meant done

/-- Nothing can be added to a value with a map. -/
theorem not_puts_of_add {current sum : AttributeValue} (added : current.add a.value = .ok sum)
    (token : String) (fields : Item) : ¬a.Puts token fields := by
  rintro ⟨given, _⟩
  rw [UpdateAction.value, given] at added
  cases current <;> cases added

theorem act_cases {plain : Item} (reveals : Reveals d.maps d.item plain) (done : d.act a = .ok after) :
    Acts d a plain after := by
  have onValues := UpdateAction.onValues.eq_def plain a
  rw [Draft.act.eq_def] at done
  cases kind : a.kind with
  | set =>
    rw [kind] at done onValues
    exact .putOperand (.inl kind) onValues done
  | remove =>
    rw [kind] at done onValues
    have noMap : ∀ token fields, ¬a.Puts token fields := by simp [UpdateAction.Puts, kind]
    exact .edited (e := .take) noMap (fun maps => .take) trivial done onValues
  | add =>
    simp only [kind, get?_eq_find] at done onValues
    rcases reveals.find a.path with ⟨missing, missingPlain⟩ | ⟨shared, current, found, foundPlain, unfolds⟩
    · simp only [missing, missingPlain] at done onValues
      exact .putOperand (.inr kind) onValues done
    · simp only [found, foundPlain, unfolds.add_surface] at done onValues
      cases added : current.add a.value with
      | error cause =>
        rw [added] at done
        cases done
      | ok sum =>
        rw [added] at done onValues
        exact .putLeaf (not_puts_of_add added) (AttributeValue.fields?_of_add added) onValues done
  | delete =>
    have noMap : ∀ token fields, ¬a.Puts token fields := by simp [UpdateAction.Puts, kind]
    simp only [kind, get?_eq_find] at done onValues
    rcases reveals.find a.path with ⟨missing, missingPlain⟩ | ⟨shared, current, found, foundPlain, unfolds⟩
    · simp only [missing, missingPlain] at done onValues
      cases done
      exact .kept noMap onValues
    · simp only [found, foundPlain, unfolds.delete_surface] at done onValues
      cases deleted : current.delete a.value with
      | error cause =>
        rw [deleted] at done
        cases done
      | ok rest? =>
        rw [deleted] at done onValues
        cases rest? with
        | none => exact .edited (e := .take) noMap (fun maps => .take) trivial done onValues
        | some rest => exact .putLeaf noMap (AttributeValue.fields?_of_delete deleted) onValues done

end Draft

end DocTable
