import DocTable.Expression.Condition
import DocTable.Proofs.Expression.Placeholders

/-!
# Reading written conditions

The reader of conditions gives back what was written.  It starts from the words of a text; a written
condition has single blanks between its words, and none of them but the conjunctions is taken for
one, so it is read group by group (`Condition.parse_intercalate`).

With placeholders that stand for the names and values of fields, the condition of a document has one
comparison for each field, in order (`Condition.parse_of_written`).
-/

namespace DocTable

set_option autoImplicit false

/-! ## Groups of words -/

namespace Condition

theorem groupsFrom_append {words : List String}
    (plain : ∀ word ∈ words, Text.equalFold word "AND" = false) (group rest : List String) :
    groupsFrom group (words ++ rest) = groupsFrom (group ++ words) rest := by
  induction words generalizing group with
  | nil => simp
  | cons word words ih =>
    have notAnd : ¬Text.equalFold word "AND" = true := by simp [plain word List.mem_cons_self]
    rw [List.cons_append, groupsFrom, if_neg notAnd,
      ih fun other member => plain other (List.mem_cons_of_mem _ member)]
    simp

theorem groups_intercalate {groups : List (List String)} (nonempty : groups ≠ [])
    (plain : ∀ group ∈ groups, ∀ word ∈ group, Text.equalFold word "AND" = false) :
    Condition.groups (["AND"].intercalate groups) = groups := by
  induction groups with
  | nil => exact absurd rfl nonempty
  | cons group rest ih =>
    have plainHere := plain group List.mem_cons_self
    cases rest with
    | nil =>
      have read := groupsFrom_append plainHere [] []
      rw [List.append_nil, List.nil_append] at read
      rw [List.intercalate_singleton, Condition.groups, read]
      rfl
    | cons next rest =>
      have tail := ih (by simp) fun other member => plain other (List.mem_cons_of_mem _ member)
      rw [Condition.groups] at tail ⊢
      rw [List.intercalate_cons_cons, List.append_assoc, groupsFrom_append plainHere,
        List.singleton_append, groupsFrom, if_pos (by decide), tail, List.nil_append]

theorem mem_intercalate_and {word : String} {groups : List (List String)}
    (member : word ∈ ["AND"].intercalate groups) :
    word = "AND" ∨ ∃ group ∈ groups, word ∈ group := by
  induction groups with
  | nil => cases member
  | cons group rest ih =>
    cases rest with
    | nil => exact .inr ⟨group, List.mem_cons_self, by simpa using member⟩
    | cons next rest =>
      rw [List.intercalate_cons_cons, List.append_assoc, List.mem_append, List.singleton_append,
        List.mem_cons] at member
      rcases member with here | rfl | there
      · exact .inr ⟨group, List.mem_cons_self, here⟩
      · exact .inl rfl
      · refine (ih there).imp_right fun ⟨other, found, inside⟩ => ?_
        exact ⟨other, List.mem_cons_of_mem _ found, inside⟩

/-- A condition is read group by group. -/
theorem parse_intercalate {groups : List (List String)} (nonempty : groups ≠ [])
    (filled : ∀ group ∈ groups, group ≠ [])
    (marked : ∀ group ∈ groups, ∀ word ∈ group, Text.IsMarked word) (c : Context) :
    Condition.parse (" AND ".intercalate (groups.map (" ".intercalate ·))) c =
      comparisons c groups := by
  have areWords : ∀ word ∈ ["AND"].intercalate groups, Text.IsWord word := by
    intro word member
    rcases mem_intercalate_and member with rfl | ⟨group, here, there⟩
    · exact ⟨by decide, List.all_iff_forall_prop.mp rfl⟩
    · exact (marked group here word there).isWord
  have isFilled : ["AND"].intercalate groups ≠ [] := by
    obtain ⟨group, rest, rfl⟩ := List.exists_cons_of_ne_nil nonempty
    have here := filled group List.mem_cons_self
    cases rest <;> simp [here]
  rw [Text.intercalate_and filled, Condition.parse,
    Text.isBlankText_intercalate isFilled areWords, Text.words_intercalate areWords,
    groups_intercalate nonempty fun group here word member =>
      (marked group here word member).equalFold_and]
  simp

end Condition

/-! ## Placeholders in a context -/

section Placeholder

variable {c : Context} {n : Nat}

theorem Context.path_nameToken {name : String}
    (bound : Keyed.lookup (Placeholders.nameToken n) c.names = some name) :
    c.path (Placeholders.nameToken n) = .ok [name] := by
  have absent : '.' ∉ (Placeholders.nameToken n).toList := fun member =>
    (Placeholders.isTokenChar_nameToken member).isPlain.2 (by decide)
  have first : (Placeholders.nameToken n).toList.head? = some '#' := by
    rw [Placeholders.toList_nameToken, List.head?_cons]
  rw [Context.path, Text.split_of_notMem absent]
  simp only [Context.steps, Context.step, first, bound]
  rfl

theorem Context.value_valueToken {value : AttributeValue}
    (bound : Keyed.lookup (Placeholders.valueToken n) c.values = some value) :
    c.value (Placeholders.valueToken n) = .ok value := by
  rw [Context.value, bound]

end Placeholder

/-! ## The condition of a document -/

/-- A comparison is the one that a field of a document asks for. -/
structure Comparison.Reads (field : String × Value) (t : Comparison) : Prop where
  path : t.path = [field.1]
  symbol : t.comparator.symbol = (Resolved.ofValue field.2).symbol
  value : (Resolved.ofValue field.2).operand.encode = .ok t.value

/-- The symbol of a field is that of a comparison, and a marked word. -/
theorem Resolved.comparator_of_symbol (r : Resolved) :
    (∃ comparator, Comparator.ofSymbol? r.symbol = some comparator ∧
      comparator.symbol = r.symbol) ∧ Text.IsMarked r.symbol := by
  obtain ⟨operator?, operand⟩ := r
  have marked : ∀ operator : Operator, Text.IsMarked operator.symbol := by
    intro operator
    cases operator <;> exact ⟨List.all_iff_forall_prop.mp rfl, _, _, rfl, by decide⟩
  have read : ∀ operator : Operator, ∃ comparator,
      Comparator.ofSymbol? operator.symbol = some comparator ∧
        comparator.symbol = operator.symbol := by
    intro operator
    cases operator <;> exact ⟨_, rfl, rfl⟩
  cases operator? with
  | none => exact ⟨read .eq, marked .eq⟩
  | some operator => exact ⟨read operator, marked operator⟩

/-- The name, the value and the text between them of a term. -/
def Document.joint (field : String × Value) : Joint :=
  let r := Resolved.ofValue field.2
  ⟨field.1, r.operand, " " ++ r.symbol ++ " "⟩

namespace Condition

/-- A term is read as the comparison that its field asks for. -/
theorem comparison_of_written {c : Context} {field : String × Value} {fragment : String}
    (written : Clause.Written c (Document.joint field) fragment) :
    ∃ group t, fragment = " ".intercalate group ∧ group ≠ [] ∧
      (∀ word ∈ group, Text.IsMarked word) ∧ comparison c group = .ok t ∧ t.Reads field := by
  obtain ⟨n, value, encoded, text, name, bound⟩ := written
  obtain ⟨⟨comparator, read, symbol⟩, marked⟩ :=
    Resolved.comparator_of_symbol (Resolved.ofValue field.2)
  refine ⟨[Placeholders.nameToken n, (Resolved.ofValue field.2).symbol, Placeholders.valueToken n],
    ⟨[field.1], comparator, value⟩, ?_, by simp, ?_, ?_, ⟨rfl, symbol, encoded⟩⟩
  · rw [text]
    simp [Document.joint, String.append_assoc]
  · intro word member
    simp only [List.mem_cons, List.not_mem_nil, or_false] at member
    rcases member with rfl | rfl | rfl
    · exact Placeholders.isMarked_nameToken n
    · exact marked
    · exact Placeholders.isMarked_valueToken n
  · simp only [comparison, read, Context.path_nameToken name, Context.value_valueToken bound]
    rfl

theorem comparisons_of_written {c : Context} {d : Document} {fragments : List String}
    (written : List.Forall₂ (Clause.Written c) (d.map Document.joint) fragments) :
    ∃ groups terms, fragments = groups.map (" ".intercalate ·) ∧ (∀ group ∈ groups, group ≠ []) ∧
      (∀ group ∈ groups, ∀ word ∈ group, Text.IsMarked word) ∧
      comparisons c groups = .ok terms ∧ List.Forall₂ Comparison.Reads d terms := by
  induction d generalizing fragments with
  | nil =>
    cases written
    exact ⟨[], [], rfl, by simp, by simp, rfl, .nil⟩
  | cons field rest ih =>
    cases written with
    | cons first others =>
      obtain ⟨group, t, text, filled, marked, read, reads⟩ := comparison_of_written first
      obtain ⟨groups, terms, texts, filledRest, markedRest, readRest, readsRest⟩ := ih others
      refine ⟨group :: groups, t :: terms, by simp [text, texts], ?_, ?_, ?_, .cons reads readsRest⟩
      · simpa using ⟨filled, filledRest⟩
      · simpa using ⟨marked, markedRest⟩
      · simp only [comparisons, read, readRest]
        rfl

/-- The condition of a document has one comparison for each field, in order. -/
theorem parse_of_written {c : Context} {d : Document} {fragments : List String} (nonempty : d ≠ [])
    (written : List.Forall₂ (Clause.Written c) (d.map Document.joint) fragments) :
    ∃ terms, Condition.parse (" AND ".intercalate fragments) c = .ok terms ∧
      List.Forall₂ Comparison.Reads d terms := by
  obtain ⟨groups, terms, texts, filled, marked, read, reads⟩ := comparisons_of_written written
  have present : groups ≠ [] := by
    rintro rfl
    cases read
    cases reads
    exact nonempty rfl
  refine ⟨terms, ?_, reads⟩
  rw [texts, parse_intercalate present filled marked, read]

end Condition

end DocTable
