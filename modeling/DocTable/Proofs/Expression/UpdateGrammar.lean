import DocTable.Proofs.Expression.WrittenUpdate
import DocTable.Proofs.Text.Parts

/-!
# The grammar of updates

An update is a text whose words are clauses, each opened by a keyword (`UpdateText.Clauses`).  The words of a
clause are items with commas between them (`UpdateText.items`), and an item spells one action: its path and, if
it has one, the placeholder of its value (`UpdateText.Spells`).  The reader of updates accepts exactly the texts
that have a clause and whose items spell actions, and gives these actions in order
(`UpdateAction.parse_eq_ok_iff`).

An action is complete if it has the value that its kind calls for, bound to a placeholder that stands in the text
(`UpdateAction.Complete`).  All actions that are read are complete but for those of an item that gives no value:
an assignment with nothing after the sign (`UpdateText.LacksValue`, `UpdateAction.complete_iff_of_parse`).
-/

namespace DocTable

set_option autoImplicit false

namespace ActionKind

theorem ofWord?_eq_some_iff {word : String} {kind : ActionKind} :
    ofWord? word = some kind ↔ Text.upper word = kind.keyword := by
  constructor
  · intro found
    have same := List.find?_some found
    exact (of_decide_eq_true same).symm
  · intro same
    rw [ofWord?, same]
    cases kind <;> rfl

theorem ofWord?_eq_none_iff {word : String} :
    ofWord? word = none ↔ ∀ kind : ActionKind, Text.upper word ≠ kind.keyword := by
  rw [Option.eq_none_iff_forall_ne_some]
  simp only [Ne, ofWord?_eq_some_iff]

end ActionKind

namespace UpdateText

variable {c : Context} {kind : ActionKind} {text left right : String} {words : List String}
  {found : List (ActionKind × List String)} {a : UpdateAction}

/-! ## Clauses -/

/-- Words are clauses: each is a keyword, its letters in any case, and the words up to the next keyword, at least
one. -/
inductive Clauses : List String → List (ActionKind × List String) → Prop where
  | nil : Clauses [] []
  | clause {keyword : String} {kind : ActionKind} {words rest : List String}
      {others : List (ActionKind × List String)} (opens : Text.upper keyword = kind.keyword) (filled : words ≠ [])
      (plain : ∀ word ∈ words, ∀ kind : ActionKind, Text.upper word ≠ kind.keyword)
      (later : Clauses rest others) : Clauses (keyword :: (words ++ rest)) ((kind, words) :: others)

theorem Clauses.sections_eq (clauses : Clauses words found) : sections words = ([], found) := by
  induction clauses with
  | nil => rfl
  | clause opens _ plain _ ih =>
    rw [sections, sections_append fun word member => ActionKind.ofWord?_eq_none_iff.mpr (plain word member), ih]
    simp [ActionKind.ofWord?_eq_some_iff.mpr opens]

/-- The words before the first keyword are no keywords, and the others are clauses if none of them is empty. -/
theorem sections_spec (words : List String) (filled : ∀ clause ∈ (sections words).2, clause.2 ≠ []) :
    (∀ word ∈ (sections words).1, ∀ kind : ActionKind, Text.upper word ≠ kind.keyword) ∧
      ∃ rest, words = (sections words).1 ++ rest ∧ Clauses rest (sections words).2 := by
  induction words with
  | nil => exact ⟨List.forall_mem_nil _, [], rfl, .nil⟩
  | cons word words ih =>
    rw [sections] at filled ⊢
    cases known : ActionKind.ofWord? word with
    | none =>
      rw [known] at filled
      obtain ⟨plain, rest, split, clauses⟩ := ih filled
      refine ⟨List.forall_mem_cons.mpr ⟨ActionKind.ofWord?_eq_none_iff.mp known, plain⟩, rest, ?_, clauses⟩
      exact congrArg (word :: ·) split
    | some kind =>
      rw [known] at filled
      obtain ⟨here, later⟩ := List.forall_mem_cons.mp filled
      obtain ⟨plain, rest, split, clauses⟩ := ih later
      refine ⟨List.forall_mem_nil _, word :: words, rfl, ?_⟩
      have whole := Clauses.clause (ActionKind.ofWord?_eq_some_iff.mp known) here plain clauses
      rwa [← split] at whole

theorem clauses_iff : Clauses words found ↔
    sections words = ([], found) ∧ ∀ clause ∈ found, clause.2 ≠ [] := by
  constructor
  · intro clauses
    refine ⟨clauses.sections_eq, ?_⟩
    induction clauses with
    | nil => exact List.forall_mem_nil _
    | clause _ filled _ _ ih => exact List.forall_mem_cons.mpr ⟨filled, ih⟩
  · rintro ⟨split, filled⟩
    obtain ⟨-, rest, whole, clauses⟩ := sections_spec words (by rwa [split])
    rw [split] at whole clauses
    rwa [whole]

/-- The words of a clause adjoin each other. -/
theorem Clauses.infix_words (clauses : Clauses words found) :
    ∀ clause ∈ found, clause.2 <:+: words := by
  induction clauses with
  | nil => exact List.forall_mem_nil _
  | @clause keyword kind inside rest others _ _ _ _ ih =>
    refine List.forall_mem_cons.mpr ⟨⟨[keyword], rest, rfl⟩, fun clause member => ?_⟩
    have later : rest <:+ keyword :: (inside ++ rest) := (List.suffix_append _ _).trans (List.suffix_cons _ _)
    exact (ih clause member).trans later.isInfix

/-! ## Items -/

/-- Words, with single blanks between them, are texts with commas between them and perhaps blanks around them. -/
def Lists (words texts : List String) : Prop :=
  ∃ pieces, pieces ≠ [] ∧ (∀ piece ∈ pieces, ',' ∉ piece.toList) ∧
    ",".intercalate pieces = " ".intercalate words ∧ texts = pieces.map Text.trim

theorem lists_actionTexts (words : List String) : Lists words (actionTexts words) :=
  ⟨_, Text.split_ne_nil ',' _, fun _ member => Text.notMem_of_mem_split member, Text.intercalate_split ',' _, rfl⟩

/-- The items of clauses with their kinds: the texts between the commas of a clause. -/
def items (clauses : List (ActionKind × List String)) : List (ActionKind × String) :=
  clauses.flatMap fun clause => (actionTexts clause.2).map fun text => (clause.1, text)

/-- The texts of the path and of the value of an item.  An assignment has a sign between them, a sum and a
difference are two words, and a removal is the path alone. -/
def Parts (text left right : String) : ActionKind → Prop
  | .set => ∃ before after, '=' ∉ before.toList ∧ text = before ++ "=" ++ after ∧
      left = Text.trim before ∧ right = Text.trim after
  | .add | .delete => Text.Spaced text.toList [left, right]
  | .remove => left = text ∧ right = ""

theorem parts?_eq_some_iff : parts? kind text = some (left, right) ↔ Parts text left right kind := by
  have pair : parts? .add text = some (left, right) ↔ Text.Spaced text.toList [left, right] := by
    rw [← Text.words_eq_iff, parts?]
    constructor
    · intro found
      split at found
      · cases found
        assumption
      · cases found
    · intro found
      rw [found]
  cases kind with
  | set =>
    simp only [parts?, Parts, Option.map_eq_some_iff, Prod.exists, Text.cut?_eq_some_iff, Prod.mk.injEq, and_assoc,
      eq_comm (a := left), eq_comm (a := right)]
    rfl
  | add => exact pair
  | delete => exact pair
  | remove => simp [parts?, Parts, eq_comm]

/-- The value that a text stands for: none for the empty text, and else the value that is bound to it. -/
def Gives (c : Context) (token : String) (operand? : Option Operand) : Prop :=
  token = "" ∧ operand? = none ∨
    token ≠ "" ∧ ∃ value, Keyed.lookup token c.values = some value ∧ operand? = some ⟨token, value⟩

/-- An item spells an action: it is of its kind, and its parts stand for the path and the value. -/
def Spells (c : Context) (item : ActionKind × String) (a : UpdateAction) : Prop :=
  a.kind = item.1 ∧ ∃ left right, Parts item.2 left right item.1 ∧ isPathText left = true ∧
    List.Forall₂ c.Stands (Text.split '.' left) a.path ∧ Gives c right a.operand?

theorem Spells.path_ne_nil {item : ActionKind × String} (spells : Spells c item a) : a.path ≠ [] := by
  obtain ⟨-, left, right, -, -, path, -⟩ := spells
  exact Context.path_ne_nil (Context.path_eq_ok_iff.mpr path)

theorem operand_eq_ok_iff {token : String} {operand? : Option Operand} :
    operand c token = .ok operand? ↔ Gives c token operand? := by
  rw [operand, Gives]
  split
  · rename_i empty
    simp [empty, eq_comm]
  · rename_i filled
    constructor
    · intro read
      obtain ⟨value, bound, read⟩ := Outcome.ok_of_bind read
      cases read
      exact .inr ⟨filled, value, Context.value_eq_ok_iff.mp bound, rfl⟩
    · rintro (⟨empty, -⟩ | ⟨-, value, bound, rfl⟩)
      · exact absurd empty filled
      · rw [Context.value_eq_ok_iff.mpr bound]
        rfl

theorem action_eq_ok_iff : action c kind text = .ok a ↔ Spells c (kind, text) a := by
  constructor
  · intro read
    rw [action] at read
    split at read
    · cases read
    · rename_i left right parts
      split at read
      · rename_i isPath
        obtain ⟨path, readPath, read⟩ := Outcome.ok_of_bind read
        obtain ⟨operand?, readOperand, read⟩ := Outcome.ok_of_bind read
        cases read
        exact ⟨rfl, left, right, parts?_eq_some_iff.mp parts, isPath, Context.path_eq_ok_iff.mp readPath,
          operand_eq_ok_iff.mp readOperand⟩
      · cases read
  · rintro ⟨sameKind, left, right, parts, isPath, path, gives⟩
    obtain ⟨_, _, _⟩ := a
    cases sameKind
    simp only [action, parts?_eq_some_iff.mpr parts, if_pos isPath, Context.path_eq_ok_iff.mpr path,
      operand_eq_ok_iff.mpr gives]
    rfl

theorem actions_eq_ok_iff {texts : List String} {actions : List UpdateAction} :
    UpdateText.actions c kind texts = .ok actions ↔
      List.Forall₂ (Spells c) (texts.map fun text => (kind, text)) actions := by
  rw [List.forall₂_map_left_iff]
  exact Outcome.each_eq_ok_iff (action c kind) (UpdateText.actions c kind) rfl (fun _ _ => rfl)
    fun _ _ => action_eq_ok_iff

/-- Clauses are read if none is empty and their items spell the actions. -/
theorem clauses_eq_ok_iff {actions : List UpdateAction} : UpdateText.clauses c found = .ok actions ↔
    (∀ clause ∈ found, clause.2 ≠ []) ∧ List.Forall₂ (Spells c) (items found) actions := by
  induction found generalizing actions with
  | nil => simp [UpdateText.clauses, items, eq_comm]
  | cons clause rest ih =>
    rw [UpdateText.clauses, items, List.flatMap_cons, forall₂_append_left_iff, List.forall_mem_cons]
    split
    · rename_i empty
      simp [List.isEmpty_iff.mp empty]
    · rename_i filled
      rw [List.isEmpty_iff] at filled
      constructor
      · intro read
        obtain ⟨first, here, read⟩ := Outcome.ok_of_bind read
        obtain ⟨tail, there, read⟩ := Outcome.ok_of_bind read
        cases read
        obtain ⟨filledRest, spells⟩ := ih.mp there
        exact ⟨⟨filled, filledRest⟩, first, tail, rfl, actions_eq_ok_iff.mp here, spells⟩
      · rintro ⟨⟨-, filledRest⟩, first, tail, rfl, here, there⟩
        rw [actions_eq_ok_iff.mpr here, ih.mpr ⟨filledRest, there⟩]
        rfl

/-! ## Items without a value -/

/-- An assignment with nothing after its sign. -/
def LacksValue (item : ActionKind × String) : Prop :=
  item.1 = .set ∧ ∃ before after, '=' ∉ before.toList ∧ item.2 = before ++ "=" ++ after ∧
    ∀ c ∈ after.toList, Text.isBlank c = true

/-- An item has the text of a value unless it is a removal or lacks the value. -/
theorem Parts.right_eq_empty_iff {item : ActionKind × String} (parts : Parts item.2 left right item.1) :
    right = "" ↔ item.1 = .remove ∨ LacksValue item := by
  obtain ⟨kind, text⟩ := item
  have word : Text.Spaced text.toList [left, right] → right ≠ "" := by
    intro spaced
    have member : right ∈ Text.words text := by simp [Text.words_eq_iff.mpr spaced]
    exact (Text.isWord_of_mem_words member).ne_empty
  cases kind with
  | set =>
    obtain ⟨before, after, first, split, -, rfl⟩ := parts
    rw [Text.trim_eq_empty_iff]
    constructor
    · intro blank
      exact .inr ⟨rfl, before, after, first, split, blank⟩
    · rintro (isRemoval | ⟨-, before', after', first', split', blank⟩)
      · cases isRemoval
      · -- the first sign is at one place only
        have here := Text.cut?_eq_some_iff.mpr ⟨first, split⟩
        have there := Text.cut?_eq_some_iff.mpr ⟨first', split'⟩
        cases here.symm.trans there
        exact blank
  | add => simp [word parts, LacksValue]
  | delete => simp [word parts, LacksValue]
  | remove => simp [parts.2]

theorem Parts.infix_right (parts : Parts text left right kind) : right.toList <:+: text.toList := by
  have word : Text.Spaced text.toList [left, right] → right.toList <:+: text.toList := by
    intro spaced
    exact Text.infix_of_mem_words (by simp [Text.words_eq_iff.mpr spaced])
  cases kind with
  | set =>
    obtain ⟨before, after, -, rfl, -, rfl⟩ := parts
    rw [String.toList_append]
    exact (Text.infix_trim after).trans (List.suffix_append _ _).isInfix
  | add => exact word parts
  | delete => exact word parts
  | remove =>
    rw [parts.2]
    exact List.nil_infix

/-- An item stands in the words of its update. -/
theorem Clauses.infix_item {item : ActionKind × String} (clauses : Clauses words found)
    (member : item ∈ items found) : item.2.toList <:+: (" ".intercalate words).toList := by
  obtain ⟨clause, inside, member⟩ := List.mem_flatMap.mp member
  obtain ⟨text, listed, rfl⟩ := List.mem_map.mp member
  obtain ⟨piece, between, rfl⟩ := List.mem_map.mp listed
  have inClause : piece.toList <:+: (" ".intercalate clause.2).toList := Text.infix_of_mem_split between
  have inWords := Text.infix_intercalate_words " " (clauses.infix_words clause inside)
  exact (Text.infix_trim piece).trans (inClause.trans inWords)

end UpdateText

namespace UpdateAction

variable {text : String} {c : Context} {actions : List UpdateAction} {a : UpdateAction}

/-- A text is read as actions if its words are clauses, at least one, and their items spell the actions. -/
theorem parse_eq_ok_iff : UpdateAction.parse text c = .ok actions ↔
    ∃ clauses, UpdateText.Clauses (Text.words text) clauses ∧ clauses ≠ [] ∧
      List.Forall₂ (UpdateText.Spells c) (UpdateText.items clauses) actions := by
  constructor
  · intro read
    rw [UpdateAction.parse] at read
    split at read
    · cases read
    · cases read
    · rename_i clauses filled split
      obtain ⟨each, spells⟩ := UpdateText.clauses_eq_ok_iff.mp read
      exact ⟨clauses, UpdateText.clauses_iff.mpr ⟨split, each⟩, filled, spells⟩
  · rintro ⟨clauses, divided, filled, spells⟩
    obtain ⟨split, each⟩ := UpdateText.clauses_iff.mp divided
    obtain ⟨clause, rest, rfl⟩ := List.exists_cons_of_ne_nil filled
    simp only [UpdateAction.parse, split]
    exact UpdateText.clauses_eq_ok_iff.mpr ⟨each, spells⟩

/-- Each action of an update is spelt by an item. -/
theorem exists_spells_of_parse (read : UpdateAction.parse text c = .ok actions) :
    ∀ a ∈ actions, ∃ item, UpdateText.Spells c item a := by
  obtain ⟨clauses, -, -, spells⟩ := parse_eq_ok_iff.mp read
  exact exists_forall₂_iff.mp ⟨_, spells.flip⟩

/-! ## Complete actions -/

/-- An action of a text has the value that its kind calls for: a removal none, and any other action one that is
bound to a placeholder of the text. -/
def Complete (c : Context) (text : String) (a : UpdateAction) : Prop :=
  if a.kind = .remove then a.operand? = none
  else ∃ operand, a.operand? = some operand ∧ Keyed.lookup operand.token c.values = some operand.value ∧
    Text.Mentions text operand.token

/-- An action is complete unless its item gives no value. -/
theorem complete_iff_of_spells {item : ActionKind × String}
    (inside : item.2.toList <:+: (" ".intercalate (Text.words text)).toList)
    (spells : UpdateText.Spells c item a) : a.Complete c text ↔ ¬UpdateText.LacksValue item := by
  obtain ⟨sameKind, left, right, parts, -, -, gives⟩ := spells
  have lacking := parts.right_eq_empty_iff
  have mentioned : right.toList <:+: (" ".intercalate (Text.words text)).toList := parts.infix_right.trans inside
  rw [Complete, sameKind]
  split
  · rename_i removal
    have kept : ¬UpdateText.LacksValue item := fun lacks => by cases removal.symm.trans lacks.1
    rcases gives with ⟨-, none⟩ | ⟨filled, -⟩
    · simp [none, kept]
    · exact absurd (lacking.mpr (.inl removal)) filled
  · rename_i other
    rcases gives with ⟨empty, none⟩ | ⟨filled, value, bound, given⟩
    · have lacks := (lacking.mp empty).resolve_left other
      simp [none, lacks]
    · have kept : ¬UpdateText.LacksValue item := fun lacks => filled (lacking.mpr (.inr lacks))
      exact iff_of_true ⟨⟨right, value⟩, given, bound, Text.mentions_of_infix_words filled mentioned⟩ kept

/-- **Actions that are read are complete unless their items give no value.**  The words of an update are clauses,
and the items between the commas of its clauses spell the actions, one for each item and in order: each is of the
kind of its clause, and its path has the names that the steps of the item stand for, with every placeholder
resolved.  A removal has no value, and any other action has a value that is bound to a placeholder of the text,
unless it is an assignment with nothing after its sign. -/
theorem complete_iff_of_parse (read : UpdateAction.parse text c = .ok actions) :
    ∃ words clauses, Text.Spaced text.toList words ∧ UpdateText.Clauses words clauses ∧
      (∀ clause ∈ clauses, UpdateText.Lists clause.2 (UpdateText.actionTexts clause.2)) ∧
      List.Forall₂ (fun item a => UpdateText.Spells c item a ∧
        (a.Complete c text ↔ ¬UpdateText.LacksValue item)) (UpdateText.items clauses) actions ∧
      ((∀ a ∈ actions, a.Complete c text) ↔ ∀ item ∈ UpdateText.items clauses, ¬UpdateText.LacksValue item) := by
  obtain ⟨clauses, divided, -, spells⟩ := parse_eq_ok_iff.mp read
  have inside := (List.forall₂_and_left _ _).mpr ⟨fun item member => divided.infix_item member, spells⟩
  have each : List.Forall₂ (fun item a => UpdateText.Spells c item a ∧
      (a.Complete c text ↔ ¬UpdateText.LacksValue item)) (UpdateText.items clauses) actions :=
    inside.imp fun item a here => ⟨here.2, complete_iff_of_spells here.1 here.2⟩
  refine ⟨Text.words text, clauses, Text.words_eq_iff.mp rfl, divided,
    fun clause _ => UpdateText.lists_actionTexts clause.2, each, ?_⟩
  exact forall_mem_iff_of_forall₂ (each.imp fun _ _ here => here.2)

end UpdateAction

namespace Bindings

/-- What the placeholders of the updates below stand for. -/
def context : Context := ⟨[("#k0", "a"), ("#k2", "c")], [(":v0", .n "1"), (":v1", .s "x")]⟩

/-- The actions of an update with two clauses. -/
def actions : List UpdateAction :=
  [⟨.set, ["a"], some ⟨":v0", .n "1"⟩⟩, ⟨.set, ["b", "a"], some ⟨":v1", .s "x"⟩⟩, ⟨.remove, ["c"], none⟩]

end Bindings

theorem UpdateAction.complete_iff_of_parse_of_two_clauses :
    UpdateAction.parse "SET #k0=:v0 , b.#k0 = :v1\tremove #k2" Bindings.context = .ok Bindings.actions ∧
      ∃ clauses, UpdateText.Clauses (Text.words "SET #k0=:v0 , b.#k0 = :v1\tremove #k2") clauses ∧
        (UpdateText.items clauses).length = 3 ∧
        List.Forall₂ (UpdateText.Spells Bindings.context) (UpdateText.items clauses) Bindings.actions := by
  have read : UpdateAction.parse "SET #k0=:v0 , b.#k0 = :v1\tremove #k2" Bindings.context =
      .ok Bindings.actions := rfl
  obtain ⟨words, clauses, spaced, divided, -, each, -⟩ := UpdateAction.complete_iff_of_parse read
  rw [← Text.words_eq_iff.mpr spaced] at divided
  exact ⟨read, clauses, divided, each.length_eq, each.imp fun _ _ here => here.1⟩

/-- An assignment with nothing after its sign is read as an action without a value. -/
theorem UpdateAction.parse_gives_incomplete_assignment :
    UpdateAction.parse "SET #k0 =" Bindings.context = .ok [⟨.set, ["a"], none⟩] ∧
      ¬UpdateAction.Complete Bindings.context "SET #k0 =" ⟨.set, ["a"], none⟩ := by
  refine ⟨rfl, ?_⟩
  rw [UpdateAction.Complete, if_neg (by decide)]
  rintro ⟨_, given, _⟩
  cases given

end DocTable
