import DocTable.Expression.Update
import DocTable.Proofs.Expression.WrittenCondition

/-!
# Reading written updates

A written update has clauses of fragments with commas between them.  Its words are keywords and
marked words, so the reader finds the clauses again, and in each clause the fragments
(`UpdateAction.parse_intercalate`).

With placeholders that stand for the names and values of fields, the clauses of directives have one
action for each field, in order (`Directive.actions_of_clauses`).
-/

namespace DocTable

set_option autoImplicit false

/-! ## Clauses of words -/

/-- A text that can stand between the commas of a clause. -/
structure UpdateText.IsFragment (text : String) : Prop where
  ends : Text.HasEnds text
  absent : ',' ∉ text.toList
  words : ∃ words, words ≠ [] ∧ text = " ".intercalate words ∧ ∀ word ∈ words, Text.IsMarked word

namespace UpdateText

/-- The words of the fragments of a clause. -/
def fragmentWords (fragments : List String) : List String :=
  Text.words (", ".intercalate fragments)

/-- The fragments of a clause are written with single blanks between marked words. -/
theorem fragmentWords_spec {fragments : List String} (nonempty : fragments ≠ [])
    (areFragments : ∀ text ∈ fragments, IsFragment text) :
    fragmentWords fragments ≠ [] ∧
      ", ".intercalate fragments = " ".intercalate (fragmentWords fragments) ∧
      ∀ word ∈ fragmentWords fragments, Text.IsMarked word := by
  have written : ∃ words, words ≠ [] ∧ ", ".intercalate fragments = " ".intercalate words ∧
      ∀ word ∈ words, Text.IsMarked word := by
    induction fragments with
    | nil => exact absurd rfl nonempty
    | cons text rest ih =>
      obtain ⟨words, filled, spaced, marked⟩ := (areFragments text List.mem_cons_self).words
      cases rest with
      | nil => exact ⟨words, filled, by rw [String.intercalate_singleton, spaced], marked⟩
      | cons next rest =>
        obtain ⟨others, filledRest, spacedRest, markedRest⟩ :=
          ih (by simp) fun other member => areFragments other (List.mem_cons_of_mem _ member)
        -- the comma goes to the last word of the fragment before it
        obtain ⟨start, last, rfl⟩ : ∃ start last, words = start ++ [last] :=
          ⟨_, _, (List.dropLast_concat_getLast filled).symm⟩
        refine ⟨(start ++ [last ++ ","]) ++ others, by simp, ?_, ?_⟩
        · rw [String.intercalate_cons_cons, spacedRest, spaced,
            String.intercalate_append_of_ne_nil (by simp) filledRest, ← Text.intercalate_append_last]
          simp [String.append_assoc]
        · intro word member
          simp only [List.mem_append, List.mem_singleton] at member
          rcases member with (here | rfl) | there
          · exact marked word (by simp [here])
          · exact (marked last (by simp)).append (List.all_iff_forall_prop.mp rfl)
          · exact markedRest word there
  obtain ⟨words, filled, spaced, marked⟩ := written
  have read : fragmentWords fragments = words := by
    rw [fragmentWords, spaced, Text.words_intercalate fun word member => (marked word member).isWord]
  rw [read]
  exact ⟨filled, spaced, marked⟩

theorem actionTexts_fragmentWords {fragments : List String} (nonempty : fragments ≠ [])
    (areFragments : ∀ text ∈ fragments, IsFragment text) :
    actionTexts (fragmentWords fragments) = fragments := by
  rw [actionTexts, ← (fragmentWords_spec nonempty areFragments).2.1,
    Text.trim_split_intercalate nonempty (fun text member => (areFragments text member).ends)
      (fun text member => (areFragments text member).absent)]

theorem sections_append {words : List String}
    (plain : ∀ word ∈ words, ActionKind.ofWord? word = none) (rest : List String) :
    sections (words ++ rest) = (words ++ (sections rest).1, (sections rest).2) := by
  induction words with
  | nil => rfl
  | cons word words ih =>
    have tail := ih fun other member => plain other (List.mem_cons_of_mem _ member)
    rw [List.cons_append, sections, tail]
    simp [plain word List.mem_cons_self]

/-- The text of a clause. -/
def clauseText (written : ActionKind × List String) : String :=
  written.1.keyword ++ " " ++ ", ".intercalate written.2

/-- Reads the fragments of clauses in order. -/
def readFragments (c : Context) :
    List (ActionKind × List String) → Except ExpressionError (List UpdateAction)
  | [] => .ok []
  | (kind, fragments) :: rest => do
    let first ← actions c kind fragments
    let tail ← readFragments c rest
    return first ++ tail

/-- A clause that can be written: it has fragments, and they can stand in a clause. -/
structure IsClause (written : ActionKind × List String) : Prop where
  nonempty : written.2 ≠ []
  fragments : ∀ text ∈ written.2, IsFragment text

theorem ofWord?_keyword (kind : ActionKind) : ActionKind.ofWord? kind.keyword = some kind := by
  cases kind <;> rfl

theorem sections_of_clauses {written : List (ActionKind × List String)}
    (areClauses : ∀ w ∈ written, IsClause w) :
    sections (written.flatMap fun w => w.1.keyword :: fragmentWords w.2) =
      ([], written.map fun w => (w.1, fragmentWords w.2)) := by
  induction written with
  | nil => rfl
  | cons w rest ih =>
    have isClause := areClauses w List.mem_cons_self
    have tail := ih fun other member => areClauses other (List.mem_cons_of_mem _ member)
    have plain : ∀ word ∈ fragmentWords w.2, ActionKind.ofWord? word = none := fun word member =>
      ((fragmentWords_spec isClause.nonempty isClause.fragments).2.2 word member).ofWord?_eq_none
    rw [List.flatMap_cons, List.cons_append, sections, sections_append plain, tail]
    simp [ofWord?_keyword]

theorem clauses_of_fragmentWords {written : List (ActionKind × List String)}
    (areClauses : ∀ w ∈ written, IsClause w) (c : Context) :
    clauses c (written.map fun w => (w.1, fragmentWords w.2)) = readFragments c written := by
  induction written with
  | nil => rfl
  | cons w rest ih =>
    have isClause := areClauses w List.mem_cons_self
    have tail := ih fun other member => areClauses other (List.mem_cons_of_mem _ member)
    have filled := (fragmentWords_spec isClause.nonempty isClause.fragments).1
    rw [List.map_cons, clauses, if_neg (by simpa using filled), tail,
      actionTexts_fragmentWords isClause.nonempty isClause.fragments]
    rfl

end UpdateText

/-- An update is read clause by clause and fragment by fragment. -/
theorem UpdateAction.parse_intercalate {written : List (ActionKind × List String)}
    (nonempty : written ≠ []) (areClauses : ∀ w ∈ written, UpdateText.IsClause w) (c : Context) :
    UpdateAction.parse (" ".intercalate (written.map UpdateText.clauseText)) c =
      UpdateText.readFragments c written := by
  have texts : written.map UpdateText.clauseText = (written.map fun w =>
      w.1.keyword :: UpdateText.fragmentWords w.2).map (" ".intercalate ·) := by
    rw [List.map_map]
    refine List.map_congr_left fun w member => ?_
    obtain ⟨filled, spaced, _⟩ := UpdateText.fragmentWords_spec (areClauses w member).nonempty
      (areClauses w member).fragments
    rw [UpdateText.clauseText, spaced, Function.comp_apply, String.intercalate_cons_of_ne_nil filled]
  have areWords : ∀ word ∈ written.flatMap fun w => w.1.keyword :: UpdateText.fragmentWords w.2,
      Text.IsWord word := by
    intro word member
    obtain ⟨w, here, there⟩ := List.mem_flatMap.mp member
    rcases List.mem_cons.mp there with rfl | inside
    · cases w.1 <;> exact ⟨by decide, List.all_iff_forall_prop.mp rfl⟩
    · exact ((UpdateText.fragmentWords_spec (areClauses w here).nonempty
        (areClauses w here).fragments).2.2 word inside).isWord
  have filled : ∀ group ∈ written.map fun w => w.1.keyword :: UpdateText.fragmentWords w.2,
      group ≠ [] := by
    intro group member
    obtain ⟨w, _, rfl⟩ := List.mem_map.mp member
    exact List.cons_ne_nil _ _
  rw [texts, Text.intercalate_flatten filled, ← List.flatMap_def, UpdateAction.parse,
    Text.words_intercalate areWords, UpdateText.sections_of_clauses areClauses,
    ← UpdateText.clauses_of_fragmentWords areClauses]
  obtain ⟨w, rest, rfl⟩ := List.exists_cons_of_ne_nil nonempty
  rfl

/-! ## Fragments of fields -/

namespace UpdateText

variable {c : Context} {n : Nat}

theorem isPathText_nameToken (n : Nat) : isPathText (Placeholders.nameToken n) = true := by
  have blanks : ∀ x ∈ (Placeholders.nameToken n).toList, ¬(x = ' ' ∨ x = '\t') := by
    intro x member special
    have plain := (Placeholders.isTokenChar_nameToken member).isPlain.2
    rcases special with rfl | rfl <;> exact plain (by decide)
  have filled : Placeholders.nameToken n ≠ "" := (Placeholders.isMarked_nameToken n).isWord.ne_empty
  simp only [isPathText, Bool.and_eq_true, bne_iff_ne, Bool.not_eq_true', List.any_eq_false,
    Bool.or_eq_true, beq_iff_eq]
  exact ⟨filled, blanks⟩

theorem operand_valueToken {value : AttributeValue}
    (bound : Keyed.lookup (Placeholders.valueToken n) c.values = some value) :
    operand c (Placeholders.valueToken n) = .ok (some ⟨Placeholders.valueToken n, value⟩) := by
  have filled := (Placeholders.isMarked_valueToken n).isWord.ne_empty
  rw [operand, if_neg filled, Context.value_valueToken bound]
  rfl

/-- A fragment whose parts are the placeholders of a number is read as an action on the name. -/
theorem action_of_parts {kind : ActionKind} {text name right : String} {operand? : Option Operand}
    (parts : parts? kind text = some (Placeholders.nameToken n, right))
    (bound : Keyed.lookup (Placeholders.nameToken n) c.names = some name)
    (given : operand c right = .ok operand?) :
    action c kind text = .ok ⟨kind, [name], operand?⟩ := by
  simp only [action, parts, isPathText_nameToken, Context.path_nameToken bound, given]
  rfl

theorem comma_notMem_tokens (n : Nat) :
    ',' ∉ (Placeholders.nameToken n).toList ∧ ',' ∉ (Placeholders.valueToken n).toList :=
  ⟨fun member => (Placeholders.isTokenChar_nameToken member).isPlain.2 (by decide),
    fun member => (Placeholders.isTokenChar_valueToken member).isPlain.2 (by decide)⟩

theorem hasEnds_joined (n : Nat) (glue : String) :
    Text.HasEnds (Placeholders.nameToken n ++ glue ++ Placeholders.valueToken n) :=
  (Placeholders.isMarked_nameToken n).isWord.hasEnds.append
    (Placeholders.isMarked_valueToken n).isWord.hasEnds glue

theorem parts?_set (n : Nat) :
    parts? .set (Placeholders.nameToken n ++ " = " ++ Placeholders.valueToken n) =
      some (Placeholders.nameToken n, Placeholders.valueToken n) := by
  have absent : '=' ∉ (Placeholders.nameToken n ++ " ").toList := by
    have token : '=' ∉ (Placeholders.nameToken n).toList := fun member =>
      (Placeholders.isTokenChar_nameToken member).isPlain.2 (by decide)
    simpa using token
  have regrouped : Placeholders.nameToken n ++ " = " ++ Placeholders.valueToken n =
      Placeholders.nameToken n ++ " " ++ String.singleton '=' ++
        (" " ++ Placeholders.valueToken n) := by
    apply String.toList_inj.mp
    simp
  have left := @Text.trim_append (Placeholders.nameToken n) "" " "
    (Placeholders.isMarked_nameToken n).isWord.hasEnds (by simp) (List.all_iff_forall_prop.mp rfl)
  have right := @Text.trim_append (Placeholders.valueToken n) " " ""
    (Placeholders.isMarked_valueToken n).isWord.hasEnds (List.all_iff_forall_prop.mp rfl) (by simp)
  rw [String.empty_append] at left
  rw [String.append_empty] at right
  rw [parts?, regrouped, Text.cut?_append absent, Option.map_some]
  change some (Text.trim _, Text.trim _) = _
  rw [left, right]

theorem parts?_add (n : Nat) :
    parts? .add (Placeholders.nameToken n ++ " " ++ Placeholders.valueToken n) =
      some (Placeholders.nameToken n, Placeholders.valueToken n) := by
  have areWords : ∀ word ∈ [Placeholders.nameToken n, Placeholders.valueToken n],
      Text.IsWord word := by
    simpa using ⟨(Placeholders.isMarked_nameToken n).isWord, (Placeholders.isMarked_valueToken n).isWord⟩
  have read := Text.words_intercalate areWords
  rw [String.intercalate_cons_cons, String.intercalate_singleton] at read
  rw [parts?, read]

/-- A text between name and value with which fragments of a kind are read back. -/
structure IsGlue (kind : ActionKind) (glue : String) : Prop where
  parts : ∀ n, parts? kind (Placeholders.nameToken n ++ glue ++ Placeholders.valueToken n) =
    some (Placeholders.nameToken n, Placeholders.valueToken n)
  fragment : ∀ n, IsFragment (Placeholders.nameToken n ++ glue ++ Placeholders.valueToken n)

theorem isGlue_set : IsGlue .set " = " := by
  refine ⟨parts?_set, fun n => ⟨hasEnds_joined n _, ?_, ?_⟩⟩
  · simpa using comma_notMem_tokens n
  · refine ⟨[Placeholders.nameToken n, "=", Placeholders.valueToken n], by simp, ?_, ?_⟩
    · apply String.toList_inj.mp
      simp
    · have equals : Text.IsMarked "=" := ⟨List.all_iff_forall_prop.mp rfl, _, _, rfl, by decide⟩
      simpa using ⟨Placeholders.isMarked_nameToken n, equals, Placeholders.isMarked_valueToken n⟩

theorem isGlue_add : IsGlue .add " " := by
  refine ⟨parts?_add, fun n => ⟨hasEnds_joined n _, ?_, ?_⟩⟩
  · simpa using comma_notMem_tokens n
  · refine ⟨[Placeholders.nameToken n, Placeholders.valueToken n], by simp, by simp, ?_⟩
    simpa using ⟨Placeholders.isMarked_nameToken n, Placeholders.isMarked_valueToken n⟩

theorem isFragment_nameToken (n : Nat) : IsFragment (Placeholders.nameToken n) :=
  ⟨(Placeholders.isMarked_nameToken n).isWord.hasEnds, (comma_notMem_tokens n).1,
    [Placeholders.nameToken n], by simp, by simp, by simpa using Placeholders.isMarked_nameToken n⟩

end UpdateText

/-! ## The clauses of directives -/

/-- What a directive's actions do. -/
def DirectiveKind.actionKind : DirectiveKind → ActionKind
  | .set => .set
  | .inc => .add
  | .unset => .remove

/-- Whether an action has the value of a field: none if the field is removed. -/
def UpdateAction.HasOperand (a : UpdateAction) : DirectiveKind → Value → Prop
  | .unset, _ => a.operand? = none
  | _, value => ∃ operand, a.operand? = some operand ∧
    (Resolved.ofValue value).operand.encode = .ok operand.value

/-- An action carries out a field of a directive. -/
structure UpdateAction.CarriesOut (field : DirectiveKind × String × Value) (a : UpdateAction) :
    Prop where
  kind : a.kind = field.1.actionKind
  path : a.path = [field.2.1]
  operand : a.HasOperand field.1 field.2.2

namespace Directive

open UpdateText

/-- The fields of a directive with its kind. -/
def entries (d : Directive) : List (DirectiveKind × String × Value) :=
  d.fields.map fun field => (d.kind, field)

/-- A fragment is read as the action that carries out a field. -/
def FragmentReads (c : Context) (field : DirectiveKind × String × Value) (fragment : String) : Prop :=
  IsFragment fragment ∧ ∃ a, UpdateText.action c field.1.actionKind fragment = .ok a ∧
    a.CarriesOut field

theorem fragmentReads_of_written {c : Context} {kind : DirectiveKind} {glue : String}
    (isGlue : IsGlue kind.actionKind glue) (kept : kind ≠ .unset) {field : String × Value}
    {fragment : String}
    (written : Clause.Written c ⟨field.1, (Resolved.ofValue field.2).operand, glue⟩ fragment) :
    FragmentReads c (kind, field) fragment := by
  obtain ⟨n, value, encoded, rfl, name, bound⟩ := written
  refine ⟨isGlue.fragment n, _, action_of_parts (isGlue.parts n) name (operand_valueToken bound),
    rfl, rfl, ?_⟩
  cases kind with
  | set => exact ⟨_, rfl, encoded⟩
  | inc => exact ⟨_, rfl, encoded⟩
  | unset => exact absurd rfl kept

theorem fragmentReads_of_writtenName {c : Context} {field : String × Value} {fragment : String}
    (written : Clause.WrittenName c field.1 fragment) :
    FragmentReads c (.unset, field) fragment := by
  obtain ⟨n, rfl, name⟩ := written
  exact ⟨isFragment_nameToken n, _, action_of_parts rfl name rfl, rfl, rfl, rfl⟩

/-- What writing the clause of a directive does: its fragments are read as actions that carry out the
fields, wherever the placeholders stand for what they stand for after it. -/
theorem fragments_of_clause {p : Placeholders} {d : Directive} {after : Clause} (sound : p.Sound)
    (made : d.clause p = (after, none)) :
    after.placeholders.Sound ∧ p.context.Within after.placeholders.context ∧
      ∀ c, after.placeholders.context.Within c →
        List.Forall₂ (FragmentReads c) d.entries after.fragments := by
  obtain ⟨kind, fields⟩ := d
  -- a set and an increment differ in the text between name and value only
  have joined : ∀ {glue : String}, IsGlue kind.actionKind glue → kind ≠ .unset →
      (Clause.start p).fields glue fields = (after, none) →
      after.placeholders.Sound ∧ p.context.Within after.placeholders.context ∧
        ∀ c, after.placeholders.context.Within c →
          List.Forall₂ (FragmentReads c) (entries ⟨kind, fields⟩) after.fragments := by
    intro glue isGlue kept made
    rw [Clause.fields_eq_joinAll] at made
    obtain ⟨soundAfter, within, fragments, added, written⟩ :=
      @Clause.written_of_joinAll _ (Clause.start p) after sound made
    refine ⟨soundAfter, within, fun c later => ?_⟩
    rw [added, entries, List.forall₂_map_left_iff]
    rw [List.forall₂_map_left_iff] at written
    exact written.imp fun field fragment here =>
      fragmentReads_of_written isGlue kept (here.mono later)
  cases kind with
  | set => exact joined isGlue_set (by decide) made
  | inc => exact joined isGlue_add (by decide) made
  | unset =>
    cases made
    obtain ⟨soundAfter, within, fragments, added, written⟩ :=
      @Clause.written_of_names (fields.map Prod.fst) (Clause.start p) sound
    refine ⟨soundAfter, within, fun c later => ?_⟩
    rw [added, entries, List.forall₂_map_left_iff]
    rw [List.forall₂_map_left_iff] at written
    refine written.imp fun field fragment here => fragmentReads_of_writtenName ?_
    obtain ⟨n, text, name⟩ := here
    exact ⟨n, text, later.names name⟩

theorem actions_of_fragments {c : Context} {kind : DirectiveKind}
    {fields : List (String × Value)} {fragments : List String}
    (read : List.Forall₂ (FragmentReads c) (entries ⟨kind, fields⟩) fragments) :
    (∀ text ∈ fragments, IsFragment text) ∧
      ∃ found, UpdateText.actions c kind.actionKind fragments = .ok found ∧
        List.Forall₂ UpdateAction.CarriesOut (entries ⟨kind, fields⟩) found := by
  induction fields generalizing fragments with
  | nil =>
    cases read
    exact ⟨by simp, [], rfl, .nil⟩
  | cons field rest ih =>
    cases read with
    | cons first others =>
      obtain ⟨isFragment, a, readFirst, carries⟩ := first
      obtain ⟨areFragments, found, readRest, carriesRest⟩ := ih others
      refine ⟨by simpa using ⟨isFragment, areFragments⟩, a :: found, ?_, .cons carries carriesRest⟩
      simp only [UpdateText.actions, readFirst, readRest]
      rfl

/-- What writing the clauses of directives does: they are read as one action for each field. -/
theorem actions_of_clauses {directives : List Directive} {p after : Placeholders}
    {texts : List String} (sound : p.Sound) (made : clauses p directives = (after, .ok texts)) :
    after.Sound ∧ p.context.Within after.context ∧ ∀ c, after.context.Within c →
      ∃ written found, texts = written.map clauseText ∧ (∀ w ∈ written, IsClause w) ∧
        readFragments c written = .ok found ∧
        List.Forall₂ UpdateAction.CarriesOut (directives.flatMap entries) found := by
  induction directives generalizing p after texts with
  | nil =>
    cases made
    exact ⟨sound, .refl _, fun c _ => ⟨[], [], rfl, by simp, rfl, .nil⟩⟩
  | cons d rest ih =>
    rw [clauses] at made
    split at made
    · cases made
    · rename_i clause written
      obtain ⟨soundClause, within, read⟩ := fragments_of_clause sound written
      split at made
      · cases made
      · rename_i last others madeRest
        obtain ⟨soundAfter, withinRest, readRest⟩ := ih soundClause madeRest
        split at made
        · rename_i empty
          cases made
          refine ⟨soundAfter, within.trans withinRest, fun c later => ?_⟩
          obtain ⟨written, found, textsRest, areClauses, readWritten, carries⟩ := readRest c later
          have fragments := read c (withinRest.trans later)
          have without : d.entries = [] := by
            rw [List.isEmpty_iff.mp empty] at fragments
            exact List.forall₂_nil_right_iff.mp fragments
          refine ⟨written, found, textsRest, areClauses, readWritten, ?_⟩
          rw [List.flatMap_cons, without, List.nil_append]
          exact carries
        · rename_i filled
          cases made
          refine ⟨soundAfter, within.trans withinRest, fun c later => ?_⟩
          obtain ⟨written, found, textsRest, areClauses, readWritten, carries⟩ := readRest c later
          obtain ⟨areFragments, first, readFirst, carriesFirst⟩ :=
            actions_of_fragments (read c (withinRest.trans later))
          refine ⟨(d.kind.actionKind, clause.fragments) :: written, first ++ found, ?_, ?_, ?_, ?_⟩
          · rw [textsRest, List.map_cons, clauseText]
            cases d.kind <;> rfl
          · intro w member
            rcases List.mem_cons.mp member with rfl | there
            · exact ⟨by simpa using filled, areFragments⟩
            · exact areClauses w there
          · simp only [readFragments, readFirst, readWritten]
            rfl
          · rw [List.flatMap_cons]
            exact List.rel_append carriesFirst carries

end Directive

end DocTable
