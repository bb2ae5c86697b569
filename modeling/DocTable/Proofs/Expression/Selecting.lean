import DocTable.Proofs.Request.ReadBack
import DocTable.Store.Read

/-!
# The items that a filter selects

What a filter means, apart from the expressions that it is written as: an item is selected if it has
an attribute for every field, and the attribute compares with the field's value as the field asks
(`Document.selects`).  The comparisons that are read back from a written filter hold of the selected
items and of no others (`Document.allHold_eq_selects`).

A filter whose values can all be encoded can be written (`Document.condition_of_encodes`), and a
query takes the value of the hash key from the first field that asks for equality
(`Document.hashValue_of_equality`).
-/

namespace DocTable

set_option autoImplicit false

/-- The comparison that an operator asks for. -/
def Operator.comparator : Operator → Comparator
  | .eq => .eq
  | .gt => .gt
  | .gte => .ge
  | .lt => .lt
  | .lte => .le

/-- The comparison that a filter value asks for. -/
def Resolved.comparator (r : Resolved) : Comparator := (r.operator?.getD .eq).comparator

namespace Document

/-- Whether an attribute of an item compares as a field asks. -/
def meets (item : Item) (field : String × Value) : Bool :=
  match Keyed.lookup field.1 item, (Resolved.ofValue field.2).operand.encode with
  | some got, .ok want => (Resolved.ofValue field.2).comparator.holds got want
  | _, _ => false

/-- Whether an item meets every field of a filter. -/
def selects (d : Document) (item : Item) : Bool := d.all (meets item)

/-- A filter of which every value can be encoded. -/
def Encodes (d : Document) : Prop :=
  ∀ field ∈ d, ∃ value, (Resolved.ofValue field.2).operand.encode = .ok value

/-- The value that the first field of a name asks to be equal to, of those that ask for equality. -/
def equality? (d : Document) (name : String) : Option AttributeValue :=
  match d.find? fun field => field.1 = name ∧ (Resolved.ofValue field.2).isEquality = true with
  | none => none
  | some field => (Resolved.ofValue field.2).operand.encode.toOption

end Document

/-! ## Comparisons and fields -/

theorem Comparator.symbol_injective {a b : Comparator} (same : a.symbol = b.symbol) : a = b := by
  revert same
  cases a <;> cases b <;> decide

theorem Resolved.symbol_comparator (r : Resolved) : r.comparator.symbol = r.symbol := by
  obtain ⟨operator?, operand⟩ := r
  cases operator? with
  | none => rfl
  | some operator => cases operator <;> rfl

theorem Resolved.isEquality_iff (r : Resolved) : r.isEquality = true ↔ r.comparator = .eq := by
  obtain ⟨operator?, operand⟩ := r
  cases operator? with
  | none => simp [isEquality, comparator, Operator.comparator]
  | some operator => cases operator <;> simp [isEquality, comparator, Operator.comparator]

namespace Comparison.Reads

variable {field : String × Value} {term : Comparison}

theorem comparator (reads : Reads field term) :
    term.comparator = (Resolved.ofValue field.2).comparator :=
  Comparator.symbol_injective (reads.symbol.trans (Resolved.symbol_comparator _).symm)

theorem holds_eq (reads : Reads field term) (item : Item) :
    Condition.holds item term = Document.meets item field := by
  rw [Condition.holds, reads.path, Path.get?, Document.meets, reads.value, reads.comparator]
  cases Keyed.lookup field.1 item <;> rfl

/-- A comparison tests a name for equality if its field does. -/
theorem isEquality_iff (reads : Reads field term) (name : String) :
    (term.path = [name] ∧ term.comparator = .eq) ↔
      (field.1 = name ∧ (Resolved.ofValue field.2).isEquality = true) := by
  rw [reads.path, reads.comparator, Resolved.isEquality_iff]
  simp

end Comparison.Reads

namespace Document

variable {d : Document} {terms : List Comparison}

/-- The comparisons of a written filter hold of the items that it selects. -/
theorem allHold_eq_selects (reads : List.Forall₂ Comparison.Reads d terms) (item : Item) :
    Condition.allHold terms item = d.selects item := by
  induction reads with
  | nil => rfl
  | cons first _ ih =>
    rw [Condition.allHold, selects] at ih ⊢
    rw [List.all_cons, List.all_cons, first.holds_eq, ih]

theorem selects_nil_item (nonempty : d ≠ []) : d.selects [] = false := by
  obtain ⟨field, rest, rfl⟩ := List.exists_cons_of_ne_nil nonempty
  rw [selects, List.all_cons, meets]
  simp [Keyed.lookup]

/-! ## Writing a filter -/

theorem terms_of_encodes {named : List (String × Resolved)}
    (encodes : ∀ entry ∈ named, ∃ value, entry.2.operand.encode = .ok value) (c : Clause) :
    ∃ after, c.terms named = (after, none) := by
  induction named generalizing c with
  | nil => exact ⟨c, rfl⟩
  | cons entry rest ih =>
    obtain ⟨field, r⟩ := entry
    obtain ⟨value, encoded⟩ := encodes (field, r) List.mem_cons_self
    have step : ∃ next, c.term field r = (next, none) := by
      rw [Clause.term, Clause.joined]
      simp only [encoded]
      exact ⟨_, rfl⟩
    obtain ⟨next, written⟩ := step
    obtain ⟨after, rest⟩ := ih (fun entry member => encodes entry (List.mem_cons_of_mem _ member)) next
    refine ⟨after, ?_⟩
    rw [Clause.terms, written]
    exact rest

/-- A filter whose values can be encoded can be written. -/
theorem condition_of_encodes (encodes : d.Encodes) : ∃ c, d.condition = .ok c := by
  have each : ∀ entry ∈ d.terms, ∃ value, entry.2.operand.encode = .ok value := by
    intro entry member
    obtain ⟨field, inside, rfl⟩ := List.mem_map.mp member
    exact encodes field inside
  obtain ⟨after, written⟩ := terms_of_encodes each (Clause.start .empty)
  exact ⟨after, by rw [condition, written]⟩

/-! ## Equalities -/

theorem has_of_equality {name : String} {value : AttributeValue}
    (asked : d.equality? name = some value) : d.has name = true := by
  rw [equality?] at asked
  split at asked
  · cases asked
  · rename_i field found
    have named := List.find?_some found
    simp only [decide_eq_true_eq] at named
    exact List.any_eq_true.mpr ⟨field, List.mem_of_find?_eq_some found, by simpa using named.1⟩

/-- A selected item has a value that is equal to the one asked for. -/
theorem equal_of_selects {name : String} {value : AttributeValue} {item : Item}
    (asked : d.equality? name = some value) (selected : d.selects item = true) :
    ∃ got, Keyed.lookup name item = some got ∧ got.equal value = true := by
  rw [equality?] at asked
  split at asked
  · cases asked
  · rename_i field found
    have isEquality := List.find?_some found
    simp only [decide_eq_true_eq, Resolved.isEquality_iff] at isEquality
    have met := List.all_eq_true.mp selected field (List.mem_of_find?_eq_some found)
    rw [meets, isEquality.1, isEquality.2] at met
    cases there : Keyed.lookup name item with
    | none => simp [there] at met
    | some got =>
      cases encoded : (Resolved.ofValue field.2).operand.encode with
      | error cause => simp [encoded] at met
      | ok want =>
        rw [encoded] at asked
        cases asked
        rw [there, encoded] at met
        exact ⟨got, rfl, met⟩

/-- A query reads the value of the hash key from the first field that asks for equality. -/
theorem hashValue_of_equality (reads : List.Forall₂ Comparison.Reads d terms) {hash : KeyDefinition}
    {value : AttributeValue} (asked : d.equality? hash.name = some value)
    (checked : hash.check value = .ok ()) : Store.hashValue hash terms = .ok value := by
  induction reads with
  | nil => cases asked
  | @cons field term rest others first _ ih =>
    rw [equality?, List.find?_cons] at asked
    rw [Store.hashValue]
    by_cases here : field.1 = hash.name ∧ (Resolved.ofValue field.2).isEquality = true
    · rw [if_pos ((first.isEquality_iff _).mpr here)]
      simp only [here, decide_true, first.value, Except.toOption, and_self] at asked
      cases asked
      rw [checked]
    · rw [if_neg (mt (first.isEquality_iff _).mp here)]
      simp only [here, decide_false] at asked
      exact ih asked

end Document

end DocTable
