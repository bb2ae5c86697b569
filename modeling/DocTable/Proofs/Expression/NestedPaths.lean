import DocTable.Path
import DocTable.Proofs.Keyed
import DocTable.Proofs.Outcome

/-!
# Reading at one path after writing at another

Two paths are apart if neither leads to the place of the other or through it (`Path.Apart`).  Putting a
value at a path and taking it away leave what is read at every path apart from it
(`Path.get?_set_of_apart`, `Path.get?_remove_of_apart`).  On the way to a place where a value was put
there are maps, and nothing else (`Path.get?_set_above`); taking a value away changes no other values there
into something else than maps (`Path.get?_remove_above`).  A value can be put at a path unless something else
than a map stands on the way, and the error names the attribute that does (`Path.set_eq_error_iff`).

The laws hold for every type of values in which a map has the fields that it is made of
(`LawfulNested`).
-/

namespace DocTable

set_option autoImplicit false

/-- A map has the fields that it is made of. -/
class LawfulNested (α : Type) [Nested α] : Prop where
  fields?_ofFields : ∀ fields : List (String × α), Nested.fields? (Nested.ofFields fields : α) = some fields

instance : LawfulNested AttributeValue := ⟨fun _ => rfl⟩

theorem AttributeValue.eq_m_of_fields? {there : AttributeValue} {inner : Item}
    (isMap : Nested.fields? there = some inner) : there = .m inner := by
  cases there with
  | m fields =>
    cases isMap
    rfl
  | _ => cases isMap

namespace Path

/-- Neither of two paths leads to the place of the other or through it. -/
def Apart (p q : Path) : Prop := ¬p <+: q ∧ ¬q <+: p

variable {step : String} {p q rest : Path}

theorem Apart.tail (apart : Apart (step :: p) (step :: q)) : Apart p q := by
  constructor
  · intro leads
    exact apart.1 (List.cons_prefix_cons.mpr ⟨rfl, leads⟩)
  · intro leads
    exact apart.2 (List.cons_prefix_cons.mpr ⟨rfl, leads⟩)

theorem Apart.ne_nil (apart : Apart p q) : q ≠ [] := by
  rintro rfl
  exact apart.2 List.nil_prefix

theorem Apart.append (apart : Apart p q) (rest : Path) : Apart (p ++ rest) q := by
  constructor
  · intro leads
    exact apart.1 ((List.prefix_append p rest).trans leads)
  · intro leads
    rcases List.prefix_or_prefix_of_prefix leads (List.prefix_append p rest) with below | above
    · exact apart.2 below
    · exact apart.1 above

variable {α : Type} [Nested α] {fields after : List (String × α)} {value : α}

/-- What is read at a path depends on the attribute that it starts with. -/
theorem get?_congr (same : Keyed.lookup step fields = Keyed.lookup step after) :
    get? fields (step :: rest) = get? after (step :: rest) := by
  cases rest with
  | nil => exact same
  | cons next more => simp only [get?, same]

/-- What is read through an attribute is read in its map. -/
theorem get?_cons (nonempty : rest ≠ []) :
    get? fields (step :: rest) =
      ((Keyed.lookup step fields).bind Nested.fields?).bind fun inner => get? inner rest := by
  cases rest with
  | nil => exact absurd rfl nonempty
  | cons next more =>
    rw [get?]
    · cases Keyed.lookup step fields with
      | none => rfl
      | some there =>
        dsimp only [Option.bind_some]
        cases Nested.fields? there <;> rfl
    · intro atEnd
      cases atEnd

theorem get?_nil (q : Path) : get? ([] : List (String × α)) q = none := by
  rcases q with _ | ⟨step, _ | ⟨next, more⟩⟩ <;> rfl

/-- What is read below a place is read in the map there. -/
theorem get?_append (nonempty : p ≠ []) (more : rest ≠ []) :
    get? fields (p ++ rest) = ((get? fields p).bind Nested.fields?).bind fun inner => get? inner rest := by
  induction p generalizing fields with
  | nil => exact absurd rfl nonempty
  | cons step others ih =>
    by_cases last : others = []
    · subst last
      exact get?_cons more
    · have below : others ++ rest ≠ [] := List.append_ne_nil_of_left_ne_nil last rest
      rw [List.cons_append, get?_cons below, get?_cons last]
      cases (Keyed.lookup step fields).bind Nested.fields? with
      | none => rfl
      | some inner => exact ih last

/-- Above a value there are maps. -/
theorem exists_map_above (nonempty : q ≠ []) (above : q <+: p) (proper : q ≠ p)
    (found : get? fields p = some value) :
    ∃ there inner, get? fields q = some there ∧ Nested.fields? there = some inner := by
  obtain ⟨rest, rfl⟩ := above
  have more : rest ≠ [] := by
    rintro rfl
    exact proper (List.append_nil q).symm
  rw [get?_append nonempty more] at found
  obtain ⟨inner, through, _⟩ := Option.bind_eq_some_iff.mp found
  obtain ⟨there, here, isMap⟩ := Option.bind_eq_some_iff.mp through
  exact ⟨there, inner, here, isMap⟩

/-- Where there are fields behind an attribute of an item, there is the map of them. -/
theorem lookup_of_fields? {item inner : Item}
    (through : (Keyed.lookup step item).bind Nested.fields? = some inner) :
    Keyed.lookup step item = some (.m inner) := by
  obtain ⟨there, here, isMap⟩ := Option.bind_eq_some_iff.mp through
  rw [here, AttributeValue.eq_m_of_fields? isMap]

/-- What is read below an attribute of an item is read in the map there. -/
theorem exists_m_of_get?_cons {item : Item} {there : AttributeValue} (nonempty : rest ≠ [])
    (found : get? item (step :: rest) = some there) :
    ∃ inner, Keyed.lookup step item = some (.m inner) ∧ get? inner rest = some there := by
  rw [get?_cons nonempty] at found
  obtain ⟨inner, through, below⟩ := Option.bind_eq_some_iff.mp found
  exact ⟨inner, lookup_of_fields? through, below⟩

/-! ## What stands in the way -/

/-- The fields that a value below an attribute is put into: those of its map, or none yet if the attribute is not
there; the error is the attribute if it is something else than a map. -/
def enter (fields : List (String × α)) (step : String) : Except String (List (String × α)) :=
  match Keyed.lookup step fields with
  | none => .ok []
  | some there => (Nested.fields? there).elim (.error step) .ok

theorem enter_eq_ok_iff {below : List (String × α)} : enter fields step = .ok below ↔
    (Keyed.lookup step fields = none ∧ below = []) ∨
      ∃ there, Keyed.lookup step fields = some there ∧ Nested.fields? there = some below := by
  rw [enter]
  cases Keyed.lookup step fields with
  | none => simp [eq_comm]
  | some there => cases isMap : Nested.fields? there <;> simp [isMap]

theorem enter_eq_error_iff {blocked : String} : enter fields step = .error blocked ↔
    step = blocked ∧ ∃ there, Keyed.lookup step fields = some there ∧ Nested.fields? there = none := by
  rw [enter]
  cases Keyed.lookup step fields with
  | none => simp
  | some there => cases isMap : Nested.fields? there <;> simp [isMap]

theorem set_eq_bind (nonempty : rest ≠ []) : set fields value (step :: rest) = (do
    let below ← enter fields step
    let inner ← set below value rest
    return Keyed.insert step (Nested.ofFields inner) fields) := by
  obtain ⟨next, more, rfl⟩ := List.exists_cons_of_ne_nil nonempty
  cases found : Keyed.lookup step fields with
  | none =>
    simp only [set, enter, found]
    change _ = set [] value (next :: more) >>= _
    cases set [] value (next :: more) <;> rfl
  | some there =>
    cases isMap : Nested.fields? there with
    | none =>
      simp only [set, enter, found, isMap]
      rfl
    | some below =>
      simp only [set, enter, found, isMap]
      change _ = set below value (next :: more) >>= _
      cases set below value (next :: more) <;> rfl

/-- What is read below an attribute is read in the fields that a value is put into. -/
theorem get?_cons_eq_some_iff (nonempty : rest ≠ []) : get? fields (step :: rest) = some value ↔
    ∃ below, enter fields step = .ok below ∧ get? below rest = some value := by
  rw [get?_cons nonempty, enter]
  cases Keyed.lookup step fields with
  | none => simp [get?_nil]
  | some outer => cases isMap : Nested.fields? outer <;> simp [isMap]

theorem set_of_blocked {q tail : Path} {there : α} (found : get? fields (q ++ [step]) = some there)
    (noMap : Nested.fields? there = none) (below : tail ≠ []) :
    set fields value (q ++ [step] ++ tail) = .error step := by
  induction q generalizing fields with
  | nil =>
    have entered : enter fields step = .error step := enter_eq_error_iff.mpr ⟨rfl, there, found, noMap⟩
    refine (set_eq_bind below).trans ?_
    rw [entered]
    rfl
  | cons first others ih =>
    have more : others ++ [step] ≠ [] := List.append_ne_nil_of_right_ne_nil _ (List.cons_ne_nil _ _)
    obtain ⟨inner, entered, inside⟩ := (get?_cons_eq_some_iff more).mp found
    rw [List.cons_append, List.cons_append, set_eq_bind (List.append_ne_nil_of_left_ne_nil more _), entered]
    change set inner value (others ++ [step] ++ tail) >>= _ = _
    rw [ih inside]
    rfl

/-- A value cannot be put below another value than a map, and nothing else stands in its way.  The error names the
last step to the value that does. -/
theorem set_eq_error_iff : set fields value p = .error step ↔
    ∃ q tail there, p = q ++ [step] ++ tail ∧ tail ≠ [] ∧ get? fields (q ++ [step]) = some there ∧
      Nested.fields? there = none := by
  constructor
  · intro failed
    induction p generalizing fields with
    | nil => cases failed
    | cons first rest ih =>
      by_cases last : rest = []
      · subst last
        cases failed
      · rw [set_eq_bind last] at failed
        rcases Outcome.error_of_bind failed with blocked | ⟨below, entered, failedBelow⟩
        · obtain ⟨rfl, there, here, noMap⟩ := enter_eq_error_iff.mp blocked
          exact ⟨[], rest, there, rfl, last, here, noMap⟩
        · rcases Outcome.error_of_bind failedBelow with blocked | ⟨inner, _, returned⟩
          · obtain ⟨q, tail, there, rfl, proper, found, noMap⟩ := ih blocked
            exact ⟨first :: q, tail, there, rfl, proper,
              (get?_cons_eq_some_iff (by simp)).mpr ⟨below, entered, found⟩, noMap⟩
          · cases returned
  · rintro ⟨q, tail, there, rfl, below, found, noMap⟩
    exact set_of_blocked found noMap below

/-- A value can be put at a path if nothing but maps stands on the way. -/
theorem exists_set (clear : ∀ q there, q ≠ [] → q <+: p → q ≠ p → get? fields q = some there →
      ∃ inner, Nested.fields? there = some inner) : ∃ after, set fields value p = .ok after := by
  cases outcome : set fields value p with
  | ok after => exact ⟨after, rfl⟩
  | error step =>
    obtain ⟨q, tail, there, rfl, proper, found, noMap⟩ := set_eq_error_iff.mp outcome
    obtain ⟨inner, isMap⟩ :=
      clear (q ++ [step]) there (by simp) (List.prefix_append _ _) (by simpa using proper) found
    cases noMap.symm.trans isMap

/-- Putting a value below an attribute puts it into the map of the attribute, which is a new one if there
is none. -/
theorem set_cons (nonempty : rest ≠ []) (done : set fields value (step :: rest) = .ok after) :
    ∃ below inner, set below value rest = .ok inner ∧
      after = Keyed.insert step (Nested.ofFields inner) fields ∧
      (Keyed.lookup step fields = none ∧ below = [] ∨
        ∃ there, Keyed.lookup step fields = some there ∧ Nested.fields? there = some below) := by
  rw [set_eq_bind nonempty] at done
  obtain ⟨below, entered, done⟩ := Outcome.ok_of_bind done
  obtain ⟨inner, placed, returned⟩ := Outcome.ok_of_bind done
  cases returned
  exact ⟨below, inner, placed, rfl, enter_eq_ok_iff.mp entered⟩

/-! ## Reading after writing -/

variable [LawfulNested α]

/-- Putting a value at a path leaves what is read at a path apart from it. -/
theorem get?_set_of_apart (apart : Apart p q) (done : set fields value p = .ok after) :
    get? after q = get? fields q := by
  induction p generalizing fields after q with
  | nil => exact absurd List.nil_prefix apart.1
  | cons step rest ih =>
    obtain ⟨other, others, rfl⟩ := List.exists_cons_of_ne_nil apart.ne_nil
    by_cases same : step = other
    · subst same
      have below := apart.tail
      have nonempty : rest ≠ [] := by
        rintro rfl
        exact below.1 List.nil_prefix
      obtain ⟨old, inner, placed, rfl, was⟩ := set_cons nonempty done
      rw [get?_cons below.ne_nil, get?_cons below.ne_nil, Keyed.lookup_insert_self, Option.bind_some,
        LawfulNested.fields?_ofFields, Option.bind_some, ih below placed]
      rcases was with ⟨missing, rfl⟩ | ⟨there, found, isMap⟩
      · rw [missing]
        obtain ⟨next, more, rfl⟩ := List.exists_cons_of_ne_nil below.ne_nil
        cases more <;> rfl
      · rw [found, Option.bind_some, isMap, Option.bind_some]
    · refine get?_congr ?_
      cases rest with
      | nil =>
        cases done
        exact Keyed.lookup_insert_of_ne _ _ same
      | cons next more =>
        obtain ⟨_, _, _, rfl, _⟩ := set_cons (List.cons_ne_nil _ _) done
        exact Keyed.lookup_insert_of_ne _ _ same

/-- Where a value was put below a place, there is a map at the place. -/
theorem get?_set_above (nonempty : q ≠ []) (above : q <+: p) (proper : q ≠ p)
    (done : set fields value p = .ok after) : ∃ inner, get? after q = some (Nested.ofFields inner) := by
  induction q generalizing fields after p with
  | nil => exact absurd rfl nonempty
  | cons step others ih =>
    obtain ⟨tail, rfl⟩ := above
    have rest : others ++ tail ≠ [] := by
      intro empty
      obtain ⟨rfl, rfl⟩ := List.append_eq_nil_iff.mp empty
      exact proper rfl
    rw [List.cons_append] at done
    obtain ⟨old, inner, placed, rfl, _⟩ := set_cons rest done
    by_cases last : others = []
    · subst last
      exact ⟨inner, Keyed.lookup_insert_self _ _ _⟩
    · rw [get?_cons last, Keyed.lookup_insert_self, Option.bind_some, LawfulNested.fields?_ofFields,
        Option.bind_some]
      refine ih last (List.prefix_append _ _) (fun same => proper ?_) placed
      rw [List.cons_append, ← same]

/-- Taking away the value at a path leaves what is read at a path apart from it. -/
theorem get?_remove_of_apart (apart : Apart p q) : get? (remove fields p) q = get? fields q := by
  induction p generalizing fields q with
  | nil => exact absurd List.nil_prefix apart.1
  | cons step rest ih =>
    obtain ⟨other, others, rfl⟩ := List.exists_cons_of_ne_nil apart.ne_nil
    cases rest with
    | nil =>
      have distinct : step ≠ other := by
        rintro rfl
        exact apart.1 (List.cons_prefix_cons.mpr ⟨rfl, List.nil_prefix⟩)
      exact get?_congr (Keyed.lookup_erase_of_ne _ distinct)
    | cons next more =>
      simp only [remove]
      split
      · rfl
      · rename_i there found
        split
        · rfl
        · rename_i below isMap
          by_cases same : step = other
          · subst same
            rw [get?_cons apart.tail.ne_nil, get?_cons apart.tail.ne_nil, Keyed.lookup_insert_self, found,
              Option.bind_some, Option.bind_some, LawfulNested.fields?_ofFields, isMap, Option.bind_some,
              Option.bind_some, ih apart.tail]
          · exact get?_congr (Keyed.lookup_insert_of_ne _ _ same)

/-- Taking away a value below a place leaves what is at the place, or a map there. -/
theorem get?_remove_above (above : q <+: p) (proper : q ≠ p) :
    get? (remove fields p) q = get? fields q ∨
      ∃ inner, get? (remove fields p) q = some (Nested.ofFields inner) := by
  induction q generalizing fields p with
  | nil => exact .inl rfl
  | cons step others ih =>
    obtain ⟨tail, rfl⟩ := above
    obtain ⟨next, more, rest⟩ : ∃ next more, others ++ tail = next :: more := by
      refine List.exists_cons_of_ne_nil fun empty => proper ?_
      rw [List.cons_append, empty, (List.append_eq_nil_iff.mp empty).1]
    rw [List.cons_append, rest]
    simp only [remove]
    split
    · exact .inl rfl
    · rename_i there found
      split
      · exact .inl rfl
      · rename_i below isMap
        by_cases last : others = []
        · subst last
          exact .inr ⟨_, Keyed.lookup_insert_self _ _ _⟩
        · rw [get?_cons last, get?_cons last, Keyed.lookup_insert_self, found, Option.bind_some,
            Option.bind_some, LawfulNested.fields?_ofFields, isMap, Option.bind_some, Option.bind_some]
          refine ih (p := next :: more) (rest ▸ List.prefix_append _ _) fun same => proper ?_
          rw [List.cons_append, rest, same]

end Path

end DocTable
