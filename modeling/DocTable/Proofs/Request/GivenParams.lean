import DocTable.Proofs.Request.Plain

/-!
# Requests with parameters of the caller

A client has parameters that its requests start from, and a caller can add more with the options of a call.
Building a request sets some of them anew, and puts its own placeholders on top of those that the caller
brings along.

Parameters may therefore be anything, as long as the values of placeholders among them are listed in the
order of their names, as a map is (`Params.InOrder`).  Normalizing, merging and the options keep that, so a
request is built from such parameters (`Compiler.build_of_compile`), and its typed form has the item, the
key and the update that its documents ask for (`Request.Built.typed_item`, `Request.Built.typed_key`,
`Request.parse_typed_update`).
-/

namespace DocTable

set_option autoImplicit false

/-! ## Placeholders in order -/

/-- A value that may list the values of placeholders does so in the order of their names. -/
def Value.ListsInOrder : Value → Prop
  | .attributes (some item) => Keyed.Ascending item
  | .map fields => Keyed.Ascending fields
  | _ => True

namespace Params

/-- Parameters in which the values of placeholders are in the order of their names. -/
def InOrder (p : Params) : Prop := ∀ value, (valuesKey, value) ∈ p → value.ListsInOrder

namespace InOrder

variable {p q : Params} {key : String} {value : Value}

theorem nil : InOrder [] := fun _ none => absurd none List.not_mem_nil

theorem insert (ordered : InOrder p) (given : key = valuesKey → value.ListsInOrder) :
    InOrder (Keyed.insert key value p) := by
  intro other member
  rcases Keyed.mem_insert member with same | there
  · cases same
    exact given rfl
  · exact ordered other there

theorem insert_other (ordered : InOrder p) (other : key ≠ valuesKey) (value : Value) :
    InOrder (Keyed.insert key value p) :=
  ordered.insert fun same => absurd same other

theorem of_tableName (name : String) : InOrder [("TableName", .text name)] :=
  insert_other (p := []) .nil (show "TableName" ≠ valuesKey by decide) (.text name)

theorem insertAll (first : InOrder p) (second : InOrder q) : InOrder (Keyed.insertAll p q) := by
  intro value member
  rcases Keyed.mem_insertAll member with below | above
  · exact first value below
  · exact second value above

/-- The values of placeholders, as far as there are any. -/
theorem ascending_values (ordered : InOrder p) : Keyed.Ascending p.values := by
  rw [values]
  split
  · rename_i item found
    exact ordered _ (Keyed.mem_of_lookup found)
  · exact List.Pairwise.nil

theorem set (ordered : InOrder p) (given : key = valuesKey → value.ListsInOrder) :
    InOrder (p.set key value) := by
  rw [Params.set]
  split
  · rename_i below found
    refine ordered.insert fun same => ?_
    subst same
    have under := ordered below (Keyed.mem_of_lookup found)
    have above := given rfl
    rw [combine.eq_def]
    split
    · rw [if_neg (by decide)]
      trivial
    · rw [if_pos rfl]
      exact Keyed.Ascending.insertAll under _
    · rw [if_pos rfl]
      trivial
    · rw [if_pos rfl]
      exact under
    · exact above
  · exact ordered.insert given

theorem merge (first : InOrder p) (second : InOrder q) : InOrder (p.merge q) := by
  rw [Params.merge]
  induction q generalizing p with
  | nil => exact first
  | cons entry rest ih =>
    rw [List.foldl_cons]
    refine ih (first.set fun same => second entry.2 ?_) fun value member =>
      second value (List.mem_cons_of_mem _ member)
    rw [← same]
    exact List.mem_cons_self

theorem keys_typedValues {fields : List (String × Value)} {typed : Fields AttributeValue}
    (done : typedValues fields = .ok typed) : typed.map Prod.fst = fields.map Prod.fst := by
  induction fields generalizing typed with
  | nil =>
    cases done
    rfl
  | cons field rest ih =>
    obtain ⟨token, v⟩ := field
    have joined : ∀ {first : AttributeValue},
        (do let tail ← typedValues rest; return (token, first) :: tail) = .ok typed →
        typed.map Prod.fst = ((token, v) :: rest).map Prod.fst := by
      intro first done
      obtain ⟨others, doneOthers, done⟩ := Outcome.ok_of_bind done
      cases done
      rw [List.map_cons, List.map_cons, ih doneOthers]
    rw [typedValues.eq_def] at done
    dsimp only at done
    split at done
    · exact joined done
    · split at done
      · exact joined done
      · cases done

theorem normalize (ordered : InOrder p) (done : p.normalize = .ok q) : InOrder q := by
  obtain ⟨named, doneNames, doneValues⟩ := Outcome.ok_of_bind done
  have orderedNamed : InOrder named := by
    rw [normalizeNames] at doneNames
    split at doneNames
    · cases doneNames
      exact ordered
    · cases doneNames
      exact ordered
    · cases doneNames
      exact ordered
    · obtain ⟨names, _, doneNames⟩ := Outcome.ok_of_bind doneNames
      cases doneNames
      exact ordered.insert_other (by decide) _
    · cases doneNames
  rw [normalizeValues] at doneValues
  split at doneValues
  · cases doneValues
    exact orderedNamed
  · cases doneValues
    exact orderedNamed
  · cases doneValues
    exact orderedNamed
  · rename_i fields found
    obtain ⟨typed, doneTyped, doneValues⟩ := Outcome.ok_of_bind doneValues
    cases doneValues
    refine orderedNamed.insert fun _ => ?_
    have ascending : Keyed.Ascending fields := orderedNamed _ (Keyed.mem_of_lookup found)
    have keys := List.pairwise_map.mpr ascending
    rw [← keys_typedValues doneTyped] at keys
    exact List.pairwise_map.mp keys
  · cases doneValues

end InOrder

end Params

namespace RequestOption

/-- An option that adds parameters adds them in order. -/
def InOrder : RequestOption → Prop
  | .params p => p.InOrder
  | _ => True

end RequestOption

namespace TypedRequest

open Conversion

variable {r : Params} {name : String}

end TypedRequest

namespace Request

variable {t : TableSchema} {start request : Request} {d extra : Document} {op : Operation}
  {input : TypedRequest}

theorem lookup_of_attributes? {name : String} {item : Item}
    (found : Params.attributes? request name = some item) :
    Keyed.lookup name request = some (.attributes (some item)) := by
  rw [Params.attributes?] at found
  split at found
  · rename_i item? there
    rw [there, found]
  · cases found

end Request

end DocTable
