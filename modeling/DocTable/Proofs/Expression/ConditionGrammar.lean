import DocTable.Proofs.Expression.WrittenCondition

/-!
# The grammar of conditions

A condition is a text whose words are groups of three with conjunctions between them: a path whose
placeholders are bound, the symbol of a comparison, and a placeholder that is bound to a value.  The reader of
conditions accepts exactly these texts and the blank ones (`Condition.accepts_exactly_grammar`).

The grammar is said without the reader: the words of a text by `Text.Spaced`, the groups by
`Condition.Separated`, a group that can be compared by `Condition.IsComparison`, and the comparison that it
spells by `Condition.Spells`.  Each part of the reader is the function that goes with one of these relations
(`Condition.groups_eq_iff`, `Condition.comparison_eq_ok_iff`, `Condition.comparisons_eq_ok_iff`).
-/

namespace DocTable

set_option autoImplicit false

theorem Comparator.ofSymbol?_eq_some_iff {symbol : String} {comparator : Comparator} :
    Comparator.ofSymbol? symbol = some comparator ↔ symbol = comparator.symbol := by
  constructor
  · intro found
    have same := List.find?_some found
    exact (of_decide_eq_true same).symm
  · rintro rfl
    cases comparator <;> rfl

namespace Condition

variable {c : Context} {text word : String} {words group : List String} {found groups : List (List String)}

/-! ## Conjunctions -/

/-- The word `AND`, each of its letters in either case. -/
def IsAnd (word : String) : Prop :=
  ∃ a ∈ ['A', 'a'], ∃ n ∈ ['N', 'n'], ∃ d ∈ ['D', 'd'], word.toList = [a, n, d]

theorem toNat_foldChar_of_capital {c : Char} (capital : 'A' ≤ c ∧ c ≤ 'Z') :
    (Text.foldChar c).toNat = c.toNat + 32 := by
  have most : c.toNat ≤ 90 := capital.2
  have valid : (c.toNat + 32).isValidChar := .inl (by omega)
  rw [Text.foldChar, if_pos capital, Char.ofNat, dif_pos valid]
  rfl

/-- A letter of the conjunction is equal up to case to itself and to its capital only: it is none of the letters
that have a third partner. -/
theorem foldChar_eq_iff {c lower capital : Char} (pair : (lower, capital) ∈ [('a', 'A'), ('n', 'N'), ('d', 'D')]) :
    Text.foldChar c = lower ↔ c ∈ [capital, lower] := by
  have letters : capital.toNat + 32 = lower.toNat ∧ 65 ≤ capital.toNat ∧ capital.toNat ≤ 90 ∧
      lower ≠ 's' ∧ lower ≠ 'k' ∧ lower ≠ 'ſ' ∧ lower ≠ '\u212A' := by
    simp only [List.mem_cons, List.not_mem_nil, or_false, Prod.mk.injEq] at pair
    rcases pair with ⟨rfl, rfl⟩ | ⟨rfl, rfl⟩ | ⟨rfl, rfl⟩ <;> simp
  obtain ⟨apart, least, most, plain⟩ := letters
  rw [List.mem_cons, List.mem_singleton]
  by_cases isCapital : 'A' ≤ c ∧ c ≤ 'Z'
  · have atMost : c.toNat ≤ 90 := isCapital.2
    rw [← Char.toNat_inj, ← Char.toNat_inj, ← Char.toNat_inj, toNat_foldChar_of_capital isCapital]
    omega
  · have other : c ≠ capital := by
      rintro rfl
      exact isCapital ⟨least, most⟩
    rw [Text.foldChar, if_neg isCapital]
    grind

theorem equalFold_and_iff : Text.equalFold word "AND" = true ↔ IsAnd word := by
  have letters : Text.equalFold word "AND" = true ↔ word.toList.map Text.foldChar = ['a', 'n', 'd'] :=
    beq_iff_eq
  rw [letters]
  constructor
  · intro same
    obtain ⟨a, rest, split, isA, same⟩ := List.map_eq_cons_iff.mp same
    obtain ⟨n, rest, rfl, isN, same⟩ := List.map_eq_cons_iff.mp same
    obtain ⟨d, rest, rfl, isD, same⟩ := List.map_eq_cons_iff.mp same
    cases List.map_eq_nil_iff.mp same
    exact ⟨a, (foldChar_eq_iff (by simp)).mp isA, n, (foldChar_eq_iff (by simp)).mp isN,
      d, (foldChar_eq_iff (by simp)).mp isD, split⟩
  · rintro ⟨a, isA, n, isN, d, isD, split⟩
    have foldA : Text.foldChar a = 'a' := (foldChar_eq_iff (by simp)).mpr isA
    have foldN : Text.foldChar n = 'n' := (foldChar_eq_iff (by simp)).mpr isN
    have foldD : Text.foldChar d = 'd' := (foldChar_eq_iff (by simp)).mpr isD
    rw [split, List.map_cons, List.map_cons, List.map_cons, List.map_nil, foldA, foldN, foldD]

/-! ## Groups -/

/-- Words are groups with conjunctions between them. -/
inductive Separated : List String → List (List String) → Prop where
  | last {group : List String} (plain : ∀ word ∈ group, ¬IsAnd word) : Separated group [group]
  | more {group rest : List String} {conjunction : String} {groups : List (List String)}
      (plain : ∀ word ∈ group, ¬IsAnd word) (isAnd : IsAnd conjunction) (others : Separated rest groups) :
      Separated (group ++ conjunction :: rest) (group :: groups)

/-- What is read of words after the start of a group makes up the group and the words. -/
theorem separated_groupsFrom (plain : ∀ word ∈ group, ¬IsAnd word) (words : List String) :
    Separated (group ++ words) (groupsFrom group words) := by
  induction words generalizing group with
  | nil =>
    rw [List.append_nil]
    exact .last plain
  | cons word rest ih =>
    rw [groupsFrom]
    split
    · rename_i conjunction
      exact .more plain (equalFold_and_iff.mp conjunction) (ih (List.forall_mem_nil _))
    · rename_i other
      have plainHere : ∀ inside ∈ group ++ [word], ¬IsAnd inside := by
        intro inside member
        rcases List.mem_append.mp member with here | there
        · exact plain inside here
        · cases List.mem_singleton.mp there
          exact fun isAnd => other (equalFold_and_iff.mpr isAnd)
      simpa using ih plainHere

theorem equalFold_of_not_isAnd (other : ¬IsAnd word) : Text.equalFold word "AND" = false :=
  Bool.eq_false_iff.mpr fun conjunction => other (equalFold_and_iff.mp conjunction)

/-- The groups of words are those that the words are made of with conjunctions between them. -/
theorem groups_eq_iff : Condition.groups words = found ↔ Separated words found := by
  constructor
  · rintro rfl
    exact separated_groupsFrom (List.forall_mem_nil _) words
  · intro separated
    induction separated with
    | @last group plain =>
      have read := groupsFrom_append (fun word member => equalFold_of_not_isAnd (plain word member)) [] []
      rwa [List.append_nil, List.nil_append] at read
    | @more group rest conjunction groups plain isAnd _ ih =>
      rw [Condition.groups, groupsFrom_append fun word member => equalFold_of_not_isAnd (plain word member),
        groupsFrom, if_pos (equalFold_and_iff.mpr isAnd), List.nil_append]
      exact congrArg (group :: ·) ih

/-! ## Comparisons -/

/-- A group that can be compared: a path whose placeholders are bound, the symbol of a comparison, and a
placeholder that is bound to a value. -/
def IsComparison (c : Context) (group : List String) : Prop :=
  ∃ left symbol right, group = [left, symbol, right] ∧
    (∀ step ∈ Text.split '.' left, step.toList.head? = some '#' →
      ∃ name, Keyed.lookup step c.names = some name) ∧
    symbol ∈ ["=", "<>", "<", "<=", ">", ">="] ∧ ∃ value, Keyed.lookup right c.values = some value

/-- A group spells a comparison: its parts stand for the path, the comparator and the value. -/
def Spells (c : Context) (group : List String) (t : Comparison) : Prop :=
  ∃ left right, group = [left, t.comparator.symbol, right] ∧
    List.Forall₂ c.Stands (Text.split '.' left) t.path ∧ Keyed.lookup right c.values = some t.value

theorem comparison_eq_ok_iff {t : Comparison} : comparison c group = .ok t ↔ Spells c group t := by
  constructor
  · intro read
    rw [comparison.eq_def] at read
    split at read
    · rename_i left symbol right
      split at read
      · cases read
      · rename_i comparator known
        obtain ⟨path, readPath, read⟩ := Outcome.ok_of_bind read
        obtain ⟨value, readValue, read⟩ := Outcome.ok_of_bind read
        cases read
        rw [Comparator.ofSymbol?_eq_some_iff.mp known]
        exact ⟨left, right, rfl, Context.path_eq_ok_iff.mp readPath, Context.value_eq_ok_iff.mp readValue⟩
    · cases read
  · rintro ⟨left, right, rfl, path, value⟩
    simp only [comparison, Comparator.ofSymbol?_eq_some_iff.mpr rfl, Context.path_eq_ok_iff.mpr path,
      Context.value_eq_ok_iff.mpr value]
    rfl

theorem comparisons_eq_ok_iff {terms : List Comparison} :
    comparisons c groups = .ok terms ↔ List.Forall₂ (Spells c) groups terms :=
  Outcome.each_eq_ok_iff (comparison c) (comparisons c) rfl (fun _ _ => rfl) fun _ _ => comparison_eq_ok_iff

/-- A group can be compared if it spells a comparison. -/
theorem isComparison_iff : IsComparison c group ↔ ∃ t, Spells c group t := by
  constructor
  · rintro ⟨left, symbol, right, rfl, steps, known, value, bound⟩
    obtain ⟨path, stands⟩ := Context.exists_stands_iff.mpr steps
    obtain ⟨comparator, rfl⟩ : ∃ comparator : Comparator, symbol = comparator.symbol := by
      simp only [List.mem_cons, List.not_mem_nil, or_false] at known
      rcases known with rfl | rfl | rfl | rfl | rfl | rfl
      exacts [⟨.eq, rfl⟩, ⟨.ne, rfl⟩, ⟨.lt, rfl⟩, ⟨.le, rfl⟩, ⟨.gt, rfl⟩, ⟨.ge, rfl⟩]
    exact ⟨⟨path, comparator, value⟩, left, right, rfl, stands, bound⟩
  · rintro ⟨t, left, right, rfl, stands, bound⟩
    refine ⟨left, _, right, rfl, Context.exists_stands_iff.mp ⟨_, stands⟩, ?_, _, bound⟩
    cases t.comparator <;> simp [Comparator.symbol]

/-! ## Conditions -/

theorem parse_eq_of_words (text : String) (c : Context) : parse text c =
    if Text.words text = [] then .ok [] else comparisons c (Condition.groups (Text.words text)) := by
  simp only [parse, Text.words_eq_nil_iff]

/-- No words at all are one group without words, and that spells nothing. -/
theorem not_spells_of_separated_nil {terms : List Comparison} (separated : Separated [] groups) :
    ¬List.Forall₂ (Spells c) groups terms := by
  rw [← groups_eq_iff.mpr separated]
  rintro (_ | ⟨⟨left, right, split, _⟩, _⟩)
  cases split

/-- A text is read as comparisons if it is blank and there are none, or if its groups spell them. -/
theorem parse_eq_ok_iff {terms : List Comparison} : parse text c = .ok terms ↔
    Text.words text = [] ∧ terms = [] ∨
      ∃ groups, Separated (Text.words text) groups ∧ List.Forall₂ (Spells c) groups terms := by
  rw [parse_eq_of_words]
  split
  · rename_i none
    constructor
    · intro read
      cases read
      exact .inl ⟨none, rfl⟩
    · rintro (⟨-, rfl⟩ | ⟨groups, separated, spells⟩)
      · rfl
      · rw [none] at separated
        exact absurd spells (not_spells_of_separated_nil separated)
  · rename_i some
    rw [comparisons_eq_ok_iff]
    constructor
    · intro spells
      exact .inr ⟨_, groups_eq_iff.mp rfl, spells⟩
    · rintro (⟨none, -⟩ | ⟨groups, separated, spells⟩)
      · exact absurd none some
      · rwa [groups_eq_iff.mpr separated]

/-- A text is read if it is blank or each of its groups can be compared. -/
theorem exists_parse_iff : (∃ terms, parse text c = .ok terms) ↔ Text.words text = [] ∨
    ∃ groups, Separated (Text.words text) groups ∧ ∀ group ∈ groups, IsComparison c group := by
  simp only [parse_eq_ok_iff, isComparison_iff, ← exists_forall₂_iff]
  constructor
  · rintro ⟨terms, ⟨none, -⟩ | ⟨groups, separated, spells⟩⟩
    · exact .inl none
    · exact .inr ⟨groups, separated, terms, spells⟩
  · rintro (none | ⟨groups, separated, terms, spells⟩)
    · exact ⟨[], .inl ⟨none, rfl⟩⟩
    · exact ⟨terms, .inr ⟨groups, separated, spells⟩⟩

/-- The same words, up to the case of conjunctions. -/
def SameWords : List String → List String → Prop :=
  List.Forall₂ fun word other => word = other ∨ IsAnd word ∧ IsAnd other

theorem groupsFrom_of_sameWords {others : List String} (same : SameWords words others) (group : List String) :
    groupsFrom group others = groupsFrom group words := by
  induction same generalizing group with
  | nil => rfl
  | cons here _ ih =>
    rcases here with rfl | ⟨left, right⟩
    · rw [groupsFrom, groupsFrom, ih, ih]
    · rw [groupsFrom, groupsFrom, if_pos (equalFold_and_iff.mpr left), if_pos (equalFold_and_iff.mpr right), ih]

theorem parse_of_sameWords {other : String} (same : SameWords (Text.words text) (Text.words other)) :
    parse other c = parse text c := by
  have empty : Text.words other = [] ↔ Text.words text = [] := by
    rw [← List.length_eq_zero_iff, ← List.length_eq_zero_iff, same.length_eq]
  rw [parse_eq_of_words, parse_eq_of_words, Condition.groups, groupsFrom_of_sameWords same, Condition.groups]
  simp only [empty]

/-- **The reader of conditions accepts exactly its grammar.**  A text is made of words with white space between
them.  It is read if there are none, or if they are groups of three with conjunctions between them, each a path
whose placeholders are bound, the symbol of a comparison, and a placeholder that is bound to a value.  What is
read has one comparison for each group, in order, that the group spells.  Nothing else of the text matters:
another text with the same words up to the case of the conjunctions is read the same. -/
theorem accepts_exactly_grammar (text : String) (c : Context) : ∃ words, Text.Spaced text.toList words ∧
    ((∃ terms, parse text c = .ok terms) ↔
      words = [] ∨ ∃ groups, Separated words groups ∧ ∀ group ∈ groups, IsComparison c group) ∧
    (∀ terms, parse text c = .ok terms ↔
      words = [] ∧ terms = [] ∨ ∃ groups, Separated words groups ∧ List.Forall₂ (Spells c) groups terms) ∧
    ∀ other others, Text.Spaced other.toList others → SameWords words others →
      parse other c = parse text c := by
  refine ⟨Text.words text, Text.words_eq_iff.mp rfl, exists_parse_iff, fun terms => parse_eq_ok_iff, ?_⟩
  intro other others spaced same
  rw [← Text.words_eq_iff.mpr spaced] at same
  exact parse_of_sameWords same

/-- White space and the case of a conjunction do not matter, but a conjunction needs a group on both sides. -/
example : (parse "\ta = :v  and #k.b <> :v " ⟨[("#k", "m")], [(":v", .bool true)]⟩).isOk = true ∧
    (parse "a = :v AND" ⟨[], [(":v", .bool true)]⟩).isOk = false := by
  decide +kernel

end Condition

end DocTable
