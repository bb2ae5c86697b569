import DocTable.Proofs.Expression.TopLevelUpdate
import DocTable.Proofs.Expression.UpdateGrammar

/-!
# What directives mean

What the directives of an update document do to an item, apart from the expression that they are written
as: the fields take effect one after the other, each on the attribute of its literal name
(`Directive.meaning?`).  They have no meaning for an item if an operand cannot be encoded, or if an
increment meets a value to which its operand cannot be added (`Directive.Clashes`).

The actions that are read back from a written update carry out the fields, so the update does to an item
what its directives mean (`Directive.apply_eq_meaning?`).  Directives that mean something for an item can
be written (`Directive.expression_of_meaning?`).
-/

namespace DocTable

set_option autoImplicit false

/-! ## Effects of fields -/

namespace Directive

/-- The value that a field gives or adds. -/
def operand? (value : Value) : Option AttributeValue :=
  (Resolved.ofValue value).operand.encode.toOption

/-- What a field of a directive does to an item. -/
def effect? (item : Item) : DirectiveKind × String × Value → Option Item
  | (.set, name, value) => do
    let operand ← operand? value
    return Keyed.insert name operand item
  | (.inc, name, value) => do
    let operand ← operand? value
    match Keyed.lookup name item with
    | none => return Keyed.insert name operand item
    | some current =>
      let sum ← (current.add operand).toOption
      return Keyed.insert name sum item
  | (.unset, name, _) => some (Keyed.erase name item)

/-- What directives do to an item: the effects of their fields in order. -/
def meaning? (directives : List Directive) (item : Item) : Option Item :=
  (directives.flatMap entries).foldlM effect? item

/-- The names of the fields of directives. -/
def names (directives : List Directive) : List String :=
  (directives.flatMap entries).map fun field => field.2.1

/-- After the fields before it, an increment meets a value to which its operand cannot be added. -/
def Clashes (directives : List Directive) (item : Item) : Prop :=
  ∃ earlier name value later between operand current cause,
    directives.flatMap entries = earlier ++ (.inc, name, value) :: later ∧
      earlier.foldlM effect? item = some between ∧ operand? value = some operand ∧
      Keyed.lookup name between = some current ∧ current.add operand = .error cause

variable {directives : List Directive} {item new : Item} {fields : List (DirectiveKind × String × Value)}

theorem operand?_eq_some_iff {value : Value} {operand : AttributeValue} :
    operand? value = some operand ↔ (Resolved.ofValue value).operand.encode = .ok operand := by
  rw [operand?]
  cases (Resolved.ofValue value).operand.encode <;> simp [Except.toOption]

theorem meaning?_of_clashes (clashes : Clashes directives item) : meaning? directives item = none := by
  obtain ⟨earlier, name, value, later, between, operand, current, cause, split, reached, encoded, found,
    rejected⟩ := clashes
  have stuck : effect? between (.inc, name, value) = none := by
    simp [effect?, encoded, found, rejected, Except.toOption]
  rw [meaning?, split, List.foldlM_append, reached]
  simp [List.foldlM_cons, stuck]

/-- A field leaves the attributes of other names. -/
theorem lookup_effect? {field : DirectiveKind × String × Value} {name : String}
    (other : field.2.1 ≠ name) (done : effect? item field = some new) :
    Keyed.lookup name new = Keyed.lookup name item := by
  obtain ⟨kind, own, value⟩ := field
  cases kind with
  | unset =>
    cases done
    exact Keyed.lookup_erase_of_ne _ other
  | set =>
    obtain ⟨operand, _, done⟩ := Option.bind_eq_some_iff.mp done
    cases done
    exact Keyed.lookup_insert_of_ne _ _ other
  | inc =>
    obtain ⟨operand, _, done⟩ := Option.bind_eq_some_iff.mp done
    split at done
    · cases done
      exact Keyed.lookup_insert_of_ne _ _ other
    · obtain ⟨sum, _, done⟩ := Option.bind_eq_some_iff.mp done
      cases done
      exact Keyed.lookup_insert_of_ne _ _ other

theorem lookup_effects {name : String} (others : ∀ field ∈ fields, field.2.1 ≠ name)
    (done : fields.foldlM effect? item = some new) :
    Keyed.lookup name new = Keyed.lookup name item := by
  induction fields generalizing item with
  | nil =>
    cases done
    rfl
  | cons field rest ih =>
    rw [List.foldlM_cons] at done
    obtain ⟨between, first, done⟩ := Option.bind_eq_some_iff.mp done
    rw [ih (fun other member => others other (List.mem_cons_of_mem _ member)) done]
    exact lookup_effect? (others field List.mem_cons_self) first

/-- Directives leave the attributes that they do not name. -/
theorem lookup_meaning? {name : String} (unnamed : name ∉ names directives)
    (meant : meaning? directives item = some new) :
    Keyed.lookup name new = Keyed.lookup name item := by
  refine lookup_effects (fun field member same => unnamed ?_) meant
  exact List.mem_map.mpr ⟨field, member, same⟩

/-! ## Actions that carry out fields -/

theorem effect?_eq_onValues {field : DirectiveKind × String × Value} {a : UpdateAction}
    (carries : a.CarriesOut field) (item : Item) : effect? item field = (a.onValues item).toOption := by
  obtain ⟨kind, name, value⟩ := field
  obtain ⟨sameKind, path, operand⟩ := carries
  have placed : ∀ v : AttributeValue, UpdateAction.placed item [name] v = .ok (Keyed.insert name v item) :=
    fun _ => rfl
  have got : Path.get? item [name] = Keyed.lookup name item := rfl
  cases kind with
  | unset =>
    simp only [UpdateAction.onValues.eq_def, sameKind, path, DirectiveKind.actionKind]
    rfl
  | set =>
    obtain ⟨operand, given, encoded⟩ := operand
    simp only [UpdateAction.onValues.eq_def, sameKind, path, DirectiveKind.actionKind, placed,
      UpdateAction.value, given, effect?, operand?_eq_some_iff.mpr encoded]
    rfl
  | inc =>
    obtain ⟨operand, given, encoded⟩ := operand
    simp only [UpdateAction.onValues.eq_def, sameKind, path, DirectiveKind.actionKind, placed, got,
      UpdateAction.value, given, effect?, operand?_eq_some_iff.mpr encoded, Option.bind_eq_bind,
      Option.bind_some]
    cases Keyed.lookup name item with
    | none => rfl
    | some current =>
      dsimp only
      cases current.add operand.value <;> rfl

theorem effects_eq_onValues {actions : List UpdateAction}
    (carries : List.Forall₂ UpdateAction.CarriesOut fields actions) (item : Item) :
    fields.foldlM effect? item = (actions.foldlM UpdateAction.onValues item).toOption := by
  induction carries generalizing item with
  | nil => rfl
  | @cons field a _ _ first _ ih =>
    rw [List.foldlM_cons, List.foldlM_cons, effect?_eq_onValues first]
    cases a.onValues item with
    | error cause => rfl
    | ok next => exact ih next

/-- The actions that carry out fields name them, and nothing else. -/
theorem paths_of_carriesOut {actions : List UpdateAction}
    (carries : List.Forall₂ UpdateAction.CarriesOut fields actions) :
    actions.map UpdateAction.path = fields.map fun field => [field.2.1] := by
  induction carries with
  | nil => rfl
  | cons first _ ih => rw [List.map_cons, List.map_cons, first.path, ih]

theorem mem_names_iff {actions : List UpdateAction} {name : String}
    (carries : List.Forall₂ UpdateAction.CarriesOut (directives.flatMap entries) actions) :
    name ∈ names directives ↔ ∃ a ∈ actions, a.path = [name] := by
  rw [← List.mem_map, paths_of_carriesOut carries, names]
  simp

end Directive

/-! ## Values of read actions -/

theorem UpdateText.Spells.bound {c : Context} {item : ActionKind × String} {a : UpdateAction}
    (spells : UpdateText.Spells c item a) : Draft.Bound c a := by
  obtain ⟨-, left, right, -, -, -, gives⟩ := spells
  intro operand given
  rcases gives with ⟨-, none⟩ | ⟨-, value, bound, some⟩
  · cases none.symm.trans given
  · cases some.symm.trans given
    exact bound

theorem UpdateAction.bound_of_parse {text : String} {c : Context} {found : List UpdateAction}
    (read : UpdateAction.parse text c = .ok found) : ∀ a ∈ found, Draft.Bound c a := by
  intro a member
  obtain ⟨item, spells⟩ := UpdateAction.exists_spells_of_parse read a member
  exact spells.bound

theorem UpdateAction.ne_empty_of_parse {text : String} {c : Context} {found : List UpdateAction}
    (read : UpdateAction.parse text c = .ok found) : text ≠ "" := by
  rintro rfl
  cases read

namespace Directive

variable {directives : List Directive} {item new : Item}

/-- **An update does to an item what its directives mean.** -/
theorem apply_eq_meaning? {text : String} {c : Context} {found : List UpdateAction}
    (read : UpdateAction.parse text c = .ok found)
    (carries : List.Forall₂ UpdateAction.CarriesOut (directives.flatMap entries) found) (item : Item) :
    (UpdateAction.apply found item).toOption = meaning? directives item := by
  have whole : ∀ a ∈ found, ∃ name, a.path = [name] := by
    intro a member
    have named := List.mem_map_of_mem (f := UpdateAction.path) member
    rw [paths_of_carriesOut carries] at named
    obtain ⟨field, _, path⟩ := List.mem_map.mp named
    exact ⟨field.2.1, path.symm⟩
  rw [UpdateAction.apply_eq_onValues whole (UpdateAction.bound_of_parse read), meaning?,
    effects_eq_onValues carries]

/-! ## Writing directives -/

theorem operand?_of_effects {fields : List (DirectiveKind × String × Value)}
    (done : fields.foldlM effect? item = some new) :
    ∀ field ∈ fields, field.1 ≠ .unset → ∃ operand, operand? field.2.2 = some operand := by
  induction fields generalizing item with
  | nil => exact fun _ member => absurd member List.not_mem_nil
  | cons first rest ih =>
    rw [List.foldlM_cons] at done
    obtain ⟨between, effect, done⟩ := Option.bind_eq_some_iff.mp done
    intro field member kept
    rcases List.mem_cons.mp member with rfl | there
    · obtain ⟨kind, name, value⟩ := field
      cases kind with
      | unset => exact absurd rfl kept
      | set =>
        obtain ⟨operand, encoded, _⟩ := Option.bind_eq_some_iff.mp effect
        exact ⟨operand, encoded⟩
      | inc =>
        obtain ⟨operand, encoded, _⟩ := Option.bind_eq_some_iff.mp effect
        exact ⟨operand, encoded⟩
    · exact ih done field there kept

theorem fields_of_operands {fields : Document} (glue : String)
    (encodes : ∀ field ∈ fields, ∃ operand, operand? field.2 = some operand) (c : Clause) :
    ∃ after, c.fields glue fields = (after, none) := by
  induction fields generalizing c with
  | nil => exact ⟨c, rfl⟩
  | cons field rest ih =>
    obtain ⟨name, value⟩ := field
    obtain ⟨operand, encoded⟩ := encodes (name, value) List.mem_cons_self
    have later := ih fun field member => encodes field (List.mem_cons_of_mem _ member)
    simp only [Clause.fields, Clause.joined, operand?_eq_some_iff.mp encoded]
    exact later _

theorem clauses_of_operands
    (encodes : ∀ field ∈ directives.flatMap entries, field.1 ≠ .unset →
      ∃ operand, operand? field.2.2 = some operand) (p : Placeholders) :
    ∃ after texts, clauses p directives = (after, .ok texts) := by
  induction directives generalizing p with
  | nil => exact ⟨p, [], rfl⟩
  | cons d rest ih =>
    have own : d.kind ≠ .unset → ∀ field ∈ d.fields, ∃ operand, operand? field.2 = some operand := by
      intro kept field member
      refine encodes (d.kind, field) ?_ kept
      exact List.mem_flatMap.mpr ⟨d, List.mem_cons_self, List.mem_map.mpr ⟨field, member, rfl⟩⟩
    have written : ∃ c, d.clause p = (c, none) := by
      obtain ⟨kind, fields⟩ := d
      cases kind with
      | set => exact fields_of_operands _ (own nofun) _
      | inc => exact fields_of_operands _ (own nofun) _
      | unset => exact ⟨_, rfl⟩
    obtain ⟨c, first⟩ := written
    obtain ⟨after, texts, later⟩ := ih (fun field member => encodes field (by
      rw [List.flatMap_cons]
      exact List.mem_append_right _ member)) c.placeholders
    simp only [clauses, first, later]
    split
    · exact ⟨_, _, rfl⟩
    · exact ⟨_, _, rfl⟩

/-- Directives with fields that mean something for an item can be written. -/
theorem expression_of_meaning? {p : Placeholders} (sound : p.Sound)
    (filled : directives.flatMap entries ≠ []) (meant : meaning? directives item = some new) :
    ∃ after text, expression p directives = (after, .ok text) ∧ text ≠ "" := by
  obtain ⟨after, texts, made⟩ := clauses_of_operands (operand?_of_effects meant) p
  refine ⟨after, " ".intercalate texts, by rw [expression, made], ?_⟩
  obtain ⟨_, _, read⟩ := actions_of_clauses sound made
  obtain ⟨written, found, rfl, areClauses, readWritten, carries⟩ := read after.context (.refl _)
  have nonempty : written ≠ [] := by
    rintro rfl
    cases readWritten
    exact filled (List.forall₂_nil_right_iff.mp carries)
  exact UpdateAction.ne_empty_of_parse
    ((UpdateAction.parse_intercalate nonempty areClauses after.context).trans readWritten)

end Directive

end DocTable
