import DocTable.Proofs.Keyed
import DocTable.Proofs.Request.GivenParams

/-!
# Layers of parameters

The parameters of a request come in layers: what the operation generates lies over the options of the
call, and these over the parameters of the table.  A parameter has the value that the uppermost layer gives
it; only placeholders are taken from all layers, each with what the uppermost layer that has it binds it to
(`Params.Stacked`).

A layer may hold placeholders as a typed map or as a plain one (`Params.MapsPlaceholders`), and both say the
same about a placeholder (`Params.boundName?`, `Params.boundValue?`).  Typing the placeholders gives the layer
itself (`Params.Stacked.normalize`), and setting one layer on top of another stacks the two
(`Params.Stacked.merge`).  Layers of layers are layers again (`Params.Stacked.replace`).
-/

namespace DocTable

set_option autoImplicit false

/-! ## What a layer says about a placeholder -/

/-- The attribute value that a value in a plain map stands for: itself, or its encoded form. -/
def Value.asAttribute? : Value → Option AttributeValue
  | .attributeValue value => some value
  | other => other.encode.toOption

/-- The name that a map of names gives a placeholder. -/
def Value.boundName? (token : String) : Value → Option String
  | .textMap names => Keyed.lookup token names
  | .map fields => (Keyed.lookup token fields).bind Value.text?
  | _ => none

/-- The attribute value that a map of values gives a placeholder. -/
def Value.boundValue? (token : String) : Value → Option AttributeValue
  | .attributes item? => Keyed.lookup token (item?.getD [])
  | .map fields => (Keyed.lookup token fields).bind Value.asAttribute?
  | _ => none

/-- A map of names, typed or plain. -/
def Value.MapsNames : Value → Prop
  | .textMap names => Keyed.Ascending names
  | .map fields => Keyed.Ascending fields
  | _ => False

/-- A map of values, typed or plain. -/
def Value.MapsValues : Value → Prop
  | .attributes item? => Keyed.Ascending (item?.getD [])
  | .map fields => Keyed.Ascending fields
  | _ => False

namespace Params

/-- The name that a placeholder has in parameters. -/
def boundName? (p : Params) (token : String) : Option String :=
  (Keyed.lookup namesKey p).bind (Value.boundName? token)

/-- The value that a placeholder has in parameters. -/
def boundValue? (p : Params) (token : String) : Option AttributeValue :=
  (Keyed.lookup valuesKey p).bind (Value.boundValue? token)

/-- The placeholders of parameters, as far as there are any, are maps. -/
structure MapsPlaceholders (p : Params) : Prop where
  names : ∀ value, Keyed.lookup namesKey p = some value → value.MapsNames
  values : ∀ value, Keyed.lookup valuesKey p = some value → value.MapsValues

/-- The placeholders of parameters, as far as there are any, are typed maps. -/
structure IsTyped (p : Params) : Prop where
  names : ∀ value, Keyed.lookup namesKey p = some value → ∃ names, value = .textMap names ∧
    Keyed.Ascending names
  values : ∀ value, Keyed.lookup valuesKey p = some value → ∃ item?, value = .attributes item? ∧
    Keyed.Ascending (item?.getD [])

variable {p q : Params}

namespace IsTyped

theorem mapsPlaceholders (typed : p.IsTyped) : p.MapsPlaceholders where
  names value found := by
    obtain ⟨names, rfl, ascending⟩ := typed.names value found
    exact ascending
  values value found := by
    obtain ⟨item?, rfl, ascending⟩ := typed.values value found
    exact ascending

theorem boundName?_eq (typed : p.IsTyped) (token : String) :
    p.boundName? token = Keyed.lookup token p.names := by
  rw [boundName?, Params.names]
  cases found : Keyed.lookup namesKey p with
  | none => rfl
  | some value =>
    obtain ⟨names, rfl, _⟩ := typed.names value found
    rfl

theorem boundValue?_eq (typed : p.IsTyped) (token : String) :
    p.boundValue? token = Keyed.lookup token p.values := by
  rw [boundValue?, Params.values]
  cases found : Keyed.lookup valuesKey p with
  | none => rfl
  | some value =>
    obtain ⟨item?, rfl, _⟩ := typed.values value found
    cases item? <;> rfl

theorem ascending_names (typed : p.IsTyped) : Keyed.Ascending p.names := by
  rw [Params.names]
  split
  · rename_i names found
    obtain ⟨_, same, ascending⟩ := typed.names _ found
    cases same
    exact ascending
  · exact List.Pairwise.nil

theorem ascending_values (typed : p.IsTyped) : Keyed.Ascending p.values := by
  rw [Params.values]
  split
  · rename_i values found
    obtain ⟨_, same, ascending⟩ := typed.values _ found
    cases same
    exact ascending
  · exact List.Pairwise.nil

/-- Parameters that say the same about placeholders are typed too. -/
theorem congr (typed : p.IsTyped) (names : Keyed.lookup namesKey q = Keyed.lookup namesKey p)
    (values : Keyed.lookup valuesKey q = Keyed.lookup valuesKey p) : q.IsTyped :=
  ⟨fun value found => typed.names value (names ▸ found),
    fun value found => typed.values value (values ▸ found)⟩

theorem insert_other (typed : p.IsTyped) {key : String} (other : key ∉ Request.placeholderKeys)
    (value : Value) : IsTyped (Keyed.insert key value p) := by
  have distinct : ∀ known ∈ Request.placeholderKeys, key ≠ known := fun known member same =>
    other (same ▸ member)
  exact typed.congr (Keyed.lookup_insert_of_ne _ _ (distinct _ (by decide)))
    (Keyed.lookup_insert_of_ne _ _ (distinct _ (by decide)))

end IsTyped

/-! ## Stacked layers -/

/-- Parameters that have what the uppermost of several layers says, placeholder by placeholder. -/
structure Stacked (layers : List Params) (whole : Params) : Prop where
  lookup : ∀ key ∉ Request.placeholderKeys,
    Keyed.lookup key whole = layers.findSome? (Keyed.lookup key)
  contains : ∀ key ∈ Request.placeholderKeys,
    Keyed.contains key whole = layers.any (Keyed.contains key)
  name : ∀ token, whole.boundName? token = layers.findSome? (boundName? · token)
  value : ∀ token, whole.boundValue? token = layers.findSome? (boundValue? · token)

section Views

variable {α : Type} {view : Params → Option α}

theorem findSome?_cons_or (p : Params) (layers : List Params) :
    (p :: layers).findSome? view = (view p).or (layers.findSome? view) := by
  rw [List.findSome?_cons]
  cases view p <;> rfl

theorem findSome?_single (p : Params) : [p].findSome? view = view p := by
  rw [findSome?_cons_or, List.findSome?_nil, Option.or_none]

theorem findSome?_pair (p q : Params) : [p, q].findSome? view = (view p).or (view q) := by
  rw [findSome?_cons_or, findSome?_single]

/-- What layers say does not change if one of them is replaced by layers that say the same. -/
theorem findSome?_replace {above below layers : List Params} (made : view p = layers.findSome? view) :
    (above ++ p :: below).findSome? view = (above ++ layers ++ below).findSome? view := by
  rw [List.append_assoc, List.findSome?_append, List.findSome?_append, List.findSome?_append,
    List.findSome?_cons, made]
  cases layers.findSome? view <;> rfl

end Views

theorem boundName?_congr (same : Keyed.lookup namesKey q = Keyed.lookup namesKey p) (token : String) :
    q.boundName? token = p.boundName? token := by
  rw [boundName?, boundName?, same]

theorem boundValue?_congr (same : Keyed.lookup valuesKey q = Keyed.lookup valuesKey p) (token : String) :
    q.boundValue? token = p.boundValue? token := by
  rw [boundValue?, boundValue?, same]

namespace Stacked

variable (above below : List Params) {layers : List Params}

/-- A layer that is made of layers can be replaced by them. -/
theorem replace (stacked : Stacked (above ++ p :: below) q) (made : Stacked layers p) :
    Stacked (above ++ layers ++ below) q where
  lookup key plain := (stacked.lookup key plain).trans (findSome?_replace (made.lookup key plain))
  contains key known := by
    rw [stacked.contains key known, List.append_assoc, List.any_append, List.any_append, List.any_append,
      List.any_cons, made.contains key known]
  name token := (stacked.name token).trans (findSome?_replace (made.name token))
  value token := (stacked.value token).trans (findSome?_replace (made.value token))

/-- Parameters are there if one of the layers has them. -/
theorem contains_iff (stacked : Stacked layers q) (key : String) :
    Keyed.contains key q = true ↔ ∃ layer ∈ layers, Keyed.contains key layer = true := by
  by_cases known : key ∈ Request.placeholderKeys
  · rw [stacked.contains key known, List.any_eq_true]
  · rw [Keyed.contains, stacked.lookup key known, List.findSome?_isSome_iff]
    rfl

end Stacked

/-! ## Layers without placeholders -/

/-- Parameters without placeholders. -/
def Bare (p : Params) : Prop := ∀ key ∈ Request.placeholderKeys, Keyed.lookup key p = none

namespace Bare

variable {key : String}

theorem nil : Bare [] := fun _ _ => rfl

theorem cons (bare : p.Bare) (plain : key ∉ Request.placeholderKeys) (value : Value) :
    Bare ((key, value) :: p) := by
  intro known member
  have distinct : key ≠ known := by
    rintro rfl
    exact plain member
  rw [Keyed.lookup, if_neg distinct]
  exact bare known member

theorem lookup_append (bare : p.Bare) (known : key ∈ Request.placeholderKeys) (q : Params) :
    Keyed.lookup key (p ++ q) = Keyed.lookup key q := by
  rw [Keyed.lookup_append, bare key known, Option.none_or]

theorem boundName? (bare : p.Bare) (token : String) : p.boundName? token = none := by
  rw [Params.boundName?, bare namesKey (by decide)]
  rfl

theorem boundValue? (bare : p.Bare) (token : String) : p.boundValue? token = none := by
  rw [Params.boundValue?, bare valuesKey (by decide)]
  rfl

theorem contains (bare : p.Bare) (known : key ∈ Request.placeholderKeys) : Keyed.contains key p = false :=
  Keyed.contains_eq_false_iff.mpr (bare key known)

end Bare

theorem lookup_default (key other : String) (value : Value) (p : Params) :
    Keyed.lookup other (if Keyed.contains key p then p else Keyed.insert key value p) =
      (Keyed.lookup other p).or (Keyed.lookup other [(key, value)]) := by
  rw [Keyed.lookup, Keyed.lookup]
  split
  · rename_i there
    obtain ⟨given, found⟩ := Keyed.contains_iff.mp there
    split
    · rename_i same
      rw [← same, found, Option.some_or]
    · rw [Option.or_none]
  · rename_i missing
    rw [Keyed.lookup_insert]
    split
    · rename_i same
      rw [← same, Keyed.contains_eq_false_iff.mp (Bool.not_eq_true _ ▸ missing), Option.none_or]
    · rw [Option.or_none]

/-- A parameter that is set if it is missing lies below what is there. -/
theorem Stacked.default {key : String} (plain : key ∉ Request.placeholderKeys) (value : Value) (p : Params) :
    Stacked [p, [(key, value)]] (if Keyed.contains key p then p else Keyed.insert key value p) := by
  have bare : Bare [(key, value)] := .cons .nil plain value
  have kept : ∀ known ∈ Request.placeholderKeys,
      Keyed.lookup known (if Keyed.contains key p then p else Keyed.insert key value p) =
        Keyed.lookup known p := by
    intro known member
    rw [lookup_default, bare known member, Option.or_none]
  refine ⟨fun other _ => ?_, fun known member => ?_, fun token => ?_, fun token => ?_⟩
  · exact (lookup_default key other value p).trans (findSome?_pair p _).symm
  · rw [List.any_cons, List.any_cons, List.any_nil, bare.contains member, Bool.or_false, Bool.or_false,
      Keyed.contains, kept known member, Keyed.contains]
  · rw [findSome?_pair, bare.boundName? token, Option.or_none, boundName?_congr (kept _ (by decide))]
  · rw [findSome?_pair, bare.boundValue? token, Option.or_none, boundValue?_congr (kept _ (by decide))]

/-! ## Typing placeholders -/

theorem lookup_typedNames {fields : List (String × Value)} {names : Fields String}
    (done : typedNames fields = .ok names) :
    names.map Prod.fst = fields.map Prod.fst ∧
      ∀ token, Keyed.lookup token names = (Keyed.lookup token fields).bind Value.text? := by
  induction fields generalizing names with
  | nil =>
    cases done
    exact ⟨rfl, fun _ => rfl⟩
  | cons field rest ih =>
    obtain ⟨token, value⟩ := field
    rw [typedNames.eq_def] at done
    dsimp only at done
    split at done
    · rename_i name isText
      obtain ⟨tail, doneTail, done⟩ := Outcome.ok_of_bind done
      cases done
      obtain ⟨keys, same⟩ := ih doneTail
      refine ⟨by rw [List.map_cons, List.map_cons, keys], fun other => ?_⟩
      rw [Keyed.lookup, Keyed.lookup]
      split
      · exact isText.symm
      · exact same other
    · cases done

theorem lookup_typedValues {fields : List (String × Value)} {values : Fields AttributeValue}
    (done : typedValues fields = .ok values) (token : String) :
    Keyed.lookup token values = (Keyed.lookup token fields).bind Value.asAttribute? := by
  induction fields generalizing values with
  | nil =>
    cases done
    rfl
  | cons field rest ih =>
    obtain ⟨name, value⟩ := field
    have joined : ∀ {first : AttributeValue}, value.asAttribute? = some first →
        (do let tail ← typedValues rest; return (name, first) :: tail) = .ok values →
        Keyed.lookup token values = (Keyed.lookup token ((name, value) :: rest)).bind Value.asAttribute? := by
      intro first here done
      obtain ⟨tail, doneTail, done⟩ := Outcome.ok_of_bind done
      cases done
      rw [Keyed.lookup, Keyed.lookup]
      split
      · exact here.symm
      · exact ih doneTail
    rw [typedValues.eq_def] at done
    dsimp only at done
    split at done
    · exact joined rfl done
    · rename_i notAttribute
      split at done
      · rename_i encoded
        refine joined ?_ done
        rw [Value.asAttribute?.eq_def]
        split
        · exact absurd rfl (notAttribute _)
        · rw [encoded]
          rfl
      · cases done

/-- Entries in order stay in order if only their values change. -/
theorem ascending_of_keys {α β : Type} {fields : Fields α} {others : Fields β}
    (ascending : Keyed.Ascending fields) (keys : others.map Prod.fst = fields.map Prod.fst) :
    Keyed.Ascending others :=
  List.pairwise_map.mp (keys ▸ List.pairwise_map.mpr ascending)

/-- Parameters with at most one parameter set anew. -/
def SetsAtMost (key : String) (p q : Params) : Prop := q = p ∨ ∃ value, q = Keyed.insert key value p

namespace SetsAtMost

variable {key other : String}

theorem lookup (sets : SetsAtMost key p q) (distinct : key ≠ other) :
    Keyed.lookup other q = Keyed.lookup other p := by
  rcases sets with rfl | ⟨value, rfl⟩
  · rfl
  · exact Keyed.lookup_insert_of_ne _ _ distinct

theorem ascending (sets : SetsAtMost key p q) (ascending : Keyed.Ascending p) : Keyed.Ascending q := by
  rcases sets with rfl | ⟨value, rfl⟩
  · exact ascending
  · exact ascending.insert _ _

end SetsAtMost

theorem setsAtMost_of_normalizeNames (done : p.normalizeNames = .ok q) : SetsAtMost namesKey p q := by
  rw [normalizeNames] at done
  split at done
  iterate 3
    cases done
    exact .inl rfl
  · obtain ⟨names, _, done⟩ := Outcome.ok_of_bind done
    cases done
    exact .inr ⟨_, rfl⟩
  · cases done

theorem setsAtMost_of_normalizeValues (done : p.normalizeValues = .ok q) : SetsAtMost valuesKey p q := by
  rw [normalizeValues] at done
  split at done
  iterate 3
    cases done
    exact .inl rfl
  · obtain ⟨values, _, done⟩ := Outcome.ok_of_bind done
    cases done
    exact .inr ⟨_, rfl⟩
  · cases done

theorem lookup_normalize {key : String} (plain : key ∉ Request.placeholderKeys) (done : p.normalize = .ok q) :
    Keyed.lookup key q = Keyed.lookup key p := by
  obtain ⟨middle, doneNames, doneValues⟩ := Outcome.ok_of_bind done
  simp only [Request.placeholderKeys, List.mem_cons, List.not_mem_nil, or_false, not_or] at plain
  rw [(setsAtMost_of_normalizeValues doneValues).lookup (Ne.symm plain.2),
    (setsAtMost_of_normalizeNames doneNames).lookup (Ne.symm plain.1)]

theorem ascending_normalize (ascending : Keyed.Ascending p) (done : p.normalize = .ok q) :
    Keyed.Ascending q := by
  obtain ⟨middle, doneNames, doneValues⟩ := Outcome.ok_of_bind done
  have ascendingMiddle := (setsAtMost_of_normalizeNames doneNames).ascending ascending
  exact (setsAtMost_of_normalizeValues doneValues).ascending ascendingMiddle

/-- Typing the names of placeholders does not change what they stand for. -/
theorem normalizeNames_eq_ok (maps : p.MapsPlaceholders) (done : p.normalizeNames = .ok q) :
    Keyed.contains namesKey q = Keyed.contains namesKey p ∧
      (∀ token, q.boundName? token = p.boundName? token) ∧
      ∀ value, Keyed.lookup namesKey q = some value →
        ∃ names, value = .textMap names ∧ Keyed.Ascending names := by
  rw [normalizeNames] at done
  cases found : Keyed.lookup namesKey p with
  | none =>
    rw [found] at done
    cases done
    refine ⟨rfl, fun _ => rfl, fun value there => ?_⟩
    rw [found] at there
    cases there
  | some value =>
    rw [found] at done
    have isMap := maps.names value found
    cases value with
    | textMap names =>
      cases done
      refine ⟨rfl, fun _ => rfl, fun value there => ?_⟩
      rw [found] at there
      cases there
      exact ⟨names, rfl, isMap⟩
    | map fields =>
      obtain ⟨names, typed, done⟩ := Outcome.ok_of_bind done
      cases done
      obtain ⟨keys, same⟩ := lookup_typedNames typed
      refine ⟨?_, fun token => ?_, fun value there => ?_⟩
      · rw [Keyed.contains, Keyed.contains, Keyed.lookup_insert_self, found]
        rfl
      · rw [boundName?, boundName?, Keyed.lookup_insert_self, found]
        exact same token
      · rw [Keyed.lookup_insert_self] at there
        cases there
        exact ⟨names, rfl, ascending_of_keys isMap keys⟩
    | _ => exact absurd isMap id

/-- Typing the values of placeholders does not change what they stand for. -/
theorem normalizeValues_eq_ok (maps : ∀ value, Keyed.lookup valuesKey p = some value → value.MapsValues)
    (done : p.normalizeValues = .ok q) :
    Keyed.contains valuesKey q = Keyed.contains valuesKey p ∧
      (∀ token, q.boundValue? token = p.boundValue? token) ∧
      ∀ value, Keyed.lookup valuesKey q = some value →
        ∃ item?, value = .attributes item? ∧ Keyed.Ascending (item?.getD []) := by
  rw [normalizeValues] at done
  cases found : Keyed.lookup valuesKey p with
  | none =>
    rw [found] at done
    cases done
    refine ⟨rfl, fun _ => rfl, fun value there => ?_⟩
    rw [found] at there
    cases there
  | some value =>
    rw [found] at done
    have isMap := maps value found
    cases value with
    | attributes item? =>
      cases done
      refine ⟨rfl, fun _ => rfl, fun value there => ?_⟩
      rw [found] at there
      cases there
      exact ⟨item?, rfl, isMap⟩
    | map fields =>
      obtain ⟨values, typed, done⟩ := Outcome.ok_of_bind done
      cases done
      refine ⟨?_, fun token => ?_, fun value there => ?_⟩
      · rw [Keyed.contains, Keyed.contains, Keyed.lookup_insert_self, found]
        rfl
      · rw [boundValue?, boundValue?, Keyed.lookup_insert_self, found]
        exact lookup_typedValues typed token
      · rw [Keyed.lookup_insert_self] at there
        cases there
        exact ⟨some values, rfl, ascending_of_keys isMap (InOrder.keys_typedValues typed)⟩
    | _ => exact absurd isMap id

/-- Typing the placeholders of a layer gives the layer itself. -/
theorem Stacked.normalize (maps : p.MapsPlaceholders) (done : p.normalize = .ok q) :
    q.IsTyped ∧ Stacked [p] q := by
  obtain ⟨middle, doneNames, doneValues⟩ := Outcome.ok_of_bind done
  have distinct : namesKey ≠ valuesKey := by decide
  have valuesKept := (setsAtMost_of_normalizeNames doneNames).lookup distinct
  have namesKept := (setsAtMost_of_normalizeValues doneValues).lookup (Ne.symm distinct)
  obtain ⟨namesThere, names, typedNames⟩ := normalizeNames_eq_ok maps doneNames
  obtain ⟨valuesThere, values, typedValues⟩ :=
    normalizeValues_eq_ok (fun value found => maps.values value (valuesKept ▸ found)) doneValues
  refine ⟨⟨fun value found => typedNames value (namesKept ▸ found), typedValues⟩, fun key plain => ?_,
    fun key known => ?_, fun token => ?_, fun token => ?_⟩
  · rw [findSome?_single, lookup_normalize plain done]
  · simp only [Request.placeholderKeys, List.mem_cons, List.not_mem_nil, or_false] at known
    rw [List.any_cons, List.any_nil, Bool.or_false]
    rcases known with rfl | rfl
    · rw [Keyed.contains, namesKept]
      exact namesThere
    · rw [valuesThere, Keyed.contains, Keyed.contains, valuesKept]
  · rw [findSome?_single, boundName?_congr namesKept, names]
  · rw [findSome?_single, values, boundValue?_congr valuesKept]

/-! ## Merging -/

theorem lookup_set (p : Params) (key other : String) (value : Value) :
    Keyed.lookup other (p.set key value) = if key = other then
      some (((Keyed.lookup key p).map fun below => combine key below value).getD value)
    else Keyed.lookup other p := by
  rw [set]
  split
  · rename_i below found
    rw [Keyed.lookup_insert, found]
    rfl
  · rename_i missing
    rw [Keyed.lookup_insert, missing]
    rfl

/-- A merged parameter: what is above counts, combined with what is below if both are there. -/
theorem lookup_merge {key : String} (ascending : Keyed.Ascending q) :
    Keyed.lookup key (p.merge q) = match Keyed.lookup key q with
      | none => Keyed.lookup key p
      | some above => some (((Keyed.lookup key p).map fun below => combine key below above).getD above) := by
  rw [merge]
  induction q generalizing p with
  | nil => rfl
  | cons entry rest ih =>
    obtain ⟨k, v⟩ := entry
    obtain ⟨above, ascendingRest⟩ := List.pairwise_cons.mp ascending
    rw [List.foldl_cons, ih ascendingRest, lookup_set, Keyed.lookup]
    by_cases same : k = key
    · subst same
      have missing : Keyed.lookup k rest = none := Keyed.lookup_eq_none fun other member same =>
        absurd (same ▸ above other member) (Std.Irrefl.irrefl k)
      rw [missing, if_pos rfl, if_pos rfl]
    · rw [if_neg same, if_neg same]

theorem combine_other {key : String} (plain : key ∉ Request.placeholderKeys) (below above : Value) :
    combine key below above = above := by
  simp only [Request.placeholderKeys, List.mem_cons, List.not_mem_nil, or_false, not_or] at plain
  rw [combine.eq_def]
  split <;> simp [plain]

/-- The values of two layers are joined, those of the upper one winning. -/
theorem combine_values {below above : Option Item} (ascendingBelow : Keyed.Ascending (below.getD []))
    (ascendingAbove : Keyed.Ascending (above.getD [])) :
    ∃ item?, combine valuesKey (.attributes below) (.attributes above) = .attributes item? ∧
      Keyed.Ascending (item?.getD []) ∧ ∀ token, Keyed.lookup token (item?.getD []) =
        (Keyed.lookup token (above.getD [])).or (Keyed.lookup token (below.getD [])) := by
  rcases below with _ | a
  · rcases above with _ | b
    · exact ⟨none, rfl, ascendingBelow, fun _ => rfl⟩
    · cases b with
      | nil => exact ⟨none, rfl, ascendingBelow, fun _ => rfl⟩
      | cons entry rest =>
        exact ⟨some (entry :: rest), rfl, ascendingAbove, fun _ => (Option.or_none).symm⟩
  · rcases above with _ | b
    · exact ⟨some a, rfl, ascendingBelow, fun _ => rfl⟩
    · exact ⟨some (Keyed.insertAll a b), rfl, ascendingBelow.insertAll b, fun token =>
        Keyed.lookup_insertAll ascendingAbove token a⟩

section Merge

variable (typedP : p.IsTyped) (typedQ : q.IsTyped) (ascending : Keyed.Ascending q)

include typedP typedQ ascending

/-- The names of merged layers: none, or those of both. -/
theorem merge_names :
    (Keyed.lookup namesKey (p.merge q) = none ∧ Keyed.lookup namesKey q = none ∧
      Keyed.lookup namesKey p = none) ∨
    ∃ names, Keyed.lookup namesKey (p.merge q) = some (.textMap names) ∧ Keyed.Ascending names ∧
      (Keyed.contains namesKey q || Keyed.contains namesKey p) = true ∧
      ∀ token, Keyed.lookup token names = (q.boundName? token).or (p.boundName? token) := by
  rw [lookup_merge ascending]
  simp only [boundName?, Keyed.contains]
  cases foundQ : Keyed.lookup namesKey q with
  | none =>
    cases foundP : Keyed.lookup namesKey p with
    | none => exact .inl ⟨rfl, rfl, rfl⟩
    | some below =>
      obtain ⟨names, rfl, ascendingP⟩ := typedP.names below foundP
      exact .inr ⟨names, rfl, ascendingP, rfl, fun _ => rfl⟩
  | some above =>
    obtain ⟨names, rfl, ascendingQ⟩ := typedQ.names above foundQ
    cases foundP : Keyed.lookup namesKey p with
    | none => exact .inr ⟨names, rfl, ascendingQ, rfl, fun _ => (Option.or_none).symm⟩
    | some below =>
      obtain ⟨under, rfl, ascendingP⟩ := typedP.names below foundP
      exact .inr ⟨Keyed.insertAll under names, rfl, ascendingP.insertAll names, rfl, fun token =>
        Keyed.lookup_insertAll ascendingQ token under⟩

/-- The values of merged layers: none, or those of both. -/
theorem merge_values :
    (Keyed.lookup valuesKey (p.merge q) = none ∧ Keyed.lookup valuesKey q = none ∧
      Keyed.lookup valuesKey p = none) ∨
    ∃ item?, Keyed.lookup valuesKey (p.merge q) = some (.attributes item?) ∧
      Keyed.Ascending (item?.getD []) ∧
      (Keyed.contains valuesKey q || Keyed.contains valuesKey p) = true ∧
      ∀ token, Keyed.lookup token (item?.getD []) = (q.boundValue? token).or (p.boundValue? token) := by
  rw [lookup_merge ascending]
  simp only [boundValue?, Keyed.contains]
  cases foundQ : Keyed.lookup valuesKey q with
  | none =>
    cases foundP : Keyed.lookup valuesKey p with
    | none => exact .inl ⟨rfl, rfl, rfl⟩
    | some below =>
      obtain ⟨item?, rfl, ascendingP⟩ := typedP.values below foundP
      exact .inr ⟨item?, rfl, ascendingP, rfl, fun _ => rfl⟩
  | some above =>
    obtain ⟨item?, rfl, ascendingQ⟩ := typedQ.values above foundQ
    cases foundP : Keyed.lookup valuesKey p with
    | none => exact .inr ⟨item?, rfl, ascendingQ, rfl, fun _ => (Option.or_none).symm⟩
    | some below =>
      obtain ⟨under?, rfl, ascendingP⟩ := typedP.values below foundP
      obtain ⟨joined?, same, ascendingJoined, bound⟩ := combine_values ascendingP ascendingQ
      exact .inr ⟨joined?, congrArg some same, ascendingJoined, rfl, bound⟩

/-- Setting one typed layer on top of another stacks the two. -/
theorem Stacked.merge : (p.merge q).IsTyped ∧ Stacked [q, p] (p.merge q) := by
  have names := merge_names typedP typedQ ascending
  have values := merge_values typedP typedQ ascending
  refine ⟨⟨fun value found => ?_, fun value found => ?_⟩, fun key plain => ?_, fun key known => ?_,
    fun token => ?_, fun token => ?_⟩
  · rcases names with ⟨missing, _⟩ | ⟨names, there, ascendingNames, _⟩
    · cases missing.symm.trans found
    · cases there.symm.trans found
      exact ⟨names, rfl, ascendingNames⟩
  · rcases values with ⟨missing, _⟩ | ⟨item?, there, ascendingValues, _⟩
    · cases missing.symm.trans found
    · cases there.symm.trans found
      exact ⟨item?, rfl, ascendingValues⟩
  · rw [lookup_merge ascending, findSome?_pair]
    simp only [combine_other plain]
    cases Keyed.lookup key q with
    | none => rfl
    | some above => cases Keyed.lookup key p <;> rfl
  · simp only [Request.placeholderKeys, List.mem_cons, List.not_mem_nil, or_false] at known
    rw [List.any_cons, List.any_cons, List.any_nil, Bool.or_false]
    rcases known with rfl | rfl
    · rcases names with ⟨missing, missingQ, missingP⟩ | ⟨names, there, _, either, _⟩
      · rw [Keyed.contains, Keyed.contains, Keyed.contains, missing, missingQ, missingP]
        rfl
      · rw [either, Keyed.contains, there]
        rfl
    · rcases values with ⟨missing, missingQ, missingP⟩ | ⟨item?, there, _, either, _⟩
      · rw [Keyed.contains, Keyed.contains, Keyed.contains, missing, missingQ, missingP]
        rfl
      · rw [either, Keyed.contains, there]
        rfl
  · rw [findSome?_pair]
    rcases names with ⟨missing, missingQ, missingP⟩ | ⟨names, there, _, _, bound⟩
    · rw [boundName?, boundName?, boundName?, missing, missingQ, missingP]
      rfl
    · rw [← bound, boundName?, there]
      rfl
  · rw [findSome?_pair]
    rcases values with ⟨missing, missingQ, missingP⟩ | ⟨item?, there, _, _, bound⟩
    · rw [boundValue?, boundValue?, boundValue?, missing, missingQ, missingP]
      rfl
    · rw [← bound, boundValue?, there]
      rfl

end Merge

end Params

end DocTable
