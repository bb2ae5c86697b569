import DocTable.Text.Blank
import Mathlib.Data.Bool.AllAny

/-!
# Reading words back

The words of a text are those that it has with blanks around them, of whatever kind and number
(`words_eq_iff`), and its pieces between separators are what joining them gives the text
(`intercalate_split`).

What writing words with single blanks or commas between them leaves for the readers of texts: the
words of the text are those that were written (`words_intercalate`), the pieces between the commas are
the texts that were listed (`trim_split_intercalate`), and blanks around a text are trimmed away
(`trim_append`).
-/

namespace DocTable.Text

set_option autoImplicit false

/-- A word: characters of which none is blank, and at least one. -/
structure IsWord (text : String) : Prop where
  ne_empty : text ≠ ""
  plain : ∀ c ∈ text.toList, isBlank c = false

/-! ## Words -/

theorem wordsFrom_append {cs : List Char} (plain : ∀ c ∈ cs, isBlank c = false)
    (word rest : List Char) : wordsFrom word (cs ++ rest) = wordsFrom (cs.reverse ++ word) rest := by
  induction cs generalizing word with
  | nil => rfl
  | cons c cs ih =>
    have notBlank : ¬isBlank c = true := by simp [plain c List.mem_cons_self]
    rw [List.cons_append, wordsFrom, if_neg notBlank,
      ih fun d member => plain d (List.mem_cons_of_mem _ member)]
    simp

theorem IsWord.toList_ne_nil {word : String} (isWord : IsWord word) : word.toList ≠ [] := by
  intro empty
  exact isWord.ne_empty (String.toList_eq_nil_iff.mp empty)

/-- Characters are made of words with blanks between them, and perhaps before and after them. -/
inductive Spaced : List Char → List String → Prop where
  | blank {cs : List Char} (blank : ∀ c ∈ cs, isBlank c = true) : Spaced cs []
  | word {before after : List Char} {word : String} {words : List String}
      (blank : ∀ c ∈ before, isBlank c = true) (isWord : IsWord word)
      (ends : ∀ c ∈ after.head?, isBlank c = true) (rest : Spaced after words) :
      Spaced (before ++ (word.toList ++ after)) (word :: words)

theorem Spaced.cons_blank {c : Char} {cs : List Char} {words : List String} (blank : isBlank c = true)
    (spaced : Spaced cs words) : Spaced (c :: cs) words := by
  cases spaced with
  | blank all => exact .blank (List.forall_mem_cons.mpr ⟨blank, all⟩)
  | @word before _ _ _ all isWord ends rest =>
    have blanks : ∀ d ∈ c :: before, isBlank d = true := List.forall_mem_cons.mpr ⟨blank, all⟩
    exact .word blanks isWord ends rest

theorem wordsFrom_of_blank {before : List Char} (blank : ∀ c ∈ before, isBlank c = true)
    (rest : List Char) : wordsFrom [] (before ++ rest) = wordsFrom [] rest := by
  induction before with
  | nil => rfl
  | cons c before ih =>
    obtain ⟨here, later⟩ := List.forall_mem_cons.mp blank
    rw [List.cons_append, wordsFrom, if_pos here]
    exact ih later

theorem Spaced.wordsFrom_eq {cs : List Char} {words : List String} (spaced : Spaced cs words) :
    wordsFrom [] cs = words := by
  induction spaced with
  | @blank cs all =>
    have read := wordsFrom_of_blank all []
    rwa [List.append_nil] at read
  | @word before after word words all isWord ends rest ih =>
    have filled : word.toList.reverse.isEmpty = false := by simpa using isWord.ne_empty
    rw [wordsFrom_of_blank all, wordsFrom_append isWord.plain, List.append_nil]
    cases after with
    | nil =>
      cases ih
      rw [wordsFrom, filled]
      simp [wordsFrom]
    | cons c after =>
      have blank : isBlank c = true := ends c rfl
      rw [wordsFrom, if_pos blank] at ih
      rw [wordsFrom, if_pos blank, filled]
      simpa using ih

/-- A word at the start. -/
theorem Spaced.cons_word {after : List Char} {word : String} {words : List String} (isWord : IsWord word)
    (ends : ∀ c ∈ after.head?, isBlank c = true) (rest : Spaced after words) :
    Spaced (word.toList ++ after) (word :: words) :=
  .word (List.forall_mem_nil _) isWord ends rest

/-- What is read of characters after the start of a word makes up the word and the characters. -/
theorem spaced_wordsFrom {word : List Char} (plain : ∀ c ∈ word, isBlank c = false) (cs : List Char) :
    Spaced (word.reverse ++ cs) (wordsFrom word cs) := by
  have whole : ∀ {word : List Char}, word ≠ [] → (∀ c ∈ word, isBlank c = false) →
      IsWord (String.ofList word.reverse) := fun filled plain =>
    ⟨by simpa using filled, by simpa using plain⟩
  induction cs generalizing word with
  | nil =>
    rw [wordsFrom]
    cases word with
    | nil => exact .blank (List.forall_mem_nil _)
    | cons c word =>
      have ends : ∀ x ∈ ([] : List Char).head?, isBlank x = true := by simp
      simpa using Spaced.cons_word (whole (List.cons_ne_nil c word) plain) ends (.blank (List.forall_mem_nil _))
  | cons c cs ih =>
    rw [wordsFrom]
    split
    · rename_i blank
      have rest : Spaced (c :: cs) (wordsFrom [] cs) := (ih (List.forall_mem_nil _)).cons_blank blank
      cases word with
      | nil => exact rest
      | cons d word =>
        have ends : ∀ x ∈ (c :: cs).head?, isBlank x = true := fun x first => Option.some.inj first ▸ blank
        simpa using Spaced.cons_word (whole (List.cons_ne_nil d word) plain) ends rest
    · rename_i notBlank
      have longer : ∀ d ∈ c :: word, isBlank d = false :=
        List.forall_mem_cons.mpr ⟨Bool.eq_false_iff.mpr notBlank, plain⟩
      simpa using ih longer

/-- The words of a text are those that it is made of with blanks between them. -/
theorem words_eq_iff {text : String} {words : List String} :
    Text.words text = words ↔ Spaced text.toList words := by
  constructor
  · rintro rfl
    exact spaced_wordsFrom (List.forall_mem_nil _) text.toList
  · exact Spaced.wordsFrom_eq

theorem isWord_of_mem_words {text word : String} (member : word ∈ Text.words text) : IsWord word := by
  have inSpaced : ∀ {cs : List Char} {words : List String}, Spaced cs words → word ∈ words → IsWord word := by
    intro cs words spaced member
    induction spaced with
    | blank => cases member
    | word _ isWord _ _ ih =>
      rcases List.mem_cons.mp member with rfl | there
      · exact isWord
      · exact ih there
  exact inSpaced (words_eq_iff.mp rfl) member

theorem words_eq_nil_iff {text : String} : Text.words text = [] ↔ isBlankText text = true := by
  rw [words_eq_iff, isBlankText, List.all_eq_true]
  refine ⟨fun spaced => ?_, .blank⟩
  generalize text.toList = cs at spaced
  cases spaced with
  | blank blank => exact blank

/-- Words with single blanks between them are read back. -/
theorem words_intercalate {words : List String} (areWords : ∀ word ∈ words, IsWord word) :
    Text.words (" ".intercalate words) = words := by
  induction words with
  | nil => rfl
  | cons word rest ih =>
    have isWord := areWords word List.mem_cons_self
    have reversed : word.toList.reverse.isEmpty = false := by
      simpa using isWord.ne_empty
    cases rest with
    | nil =>
      rw [Text.words, String.intercalate_singleton]
      have read := wordsFrom_append isWord.plain [] []
      rw [List.append_nil, List.append_nil] at read
      rw [read, wordsFrom, reversed]
      simp
    | cons next rest =>
      have tail := ih fun other member => areWords other (List.mem_cons_of_mem _ member)
      rw [Text.words] at tail ⊢
      rw [String.intercalate_cons_cons, String.toList_append, String.toList_append, List.append_assoc,
        wordsFrom_append isWord.plain, List.append_nil]
      change wordsFrom word.toList.reverse (' ' :: (" ".intercalate (next :: rest)).toList) = _
      rw [wordsFrom, if_pos (by decide), reversed, tail]
      simp

/-! ## Trimming -/

/-- A text that neither starts nor ends with a blank. -/
structure HasEnds (text : String) : Prop where
  first : ∃ c rest, text.toList = c :: rest ∧ isBlank c = false
  last : ∃ start c, text.toList = start ++ [c] ∧ isBlank c = false

theorem IsWord.hasEnds {word : String} (isWord : IsWord word) : HasEnds word := by
  refine ⟨?_, ?_⟩
  · obtain ⟨c, rest, split⟩ := List.exists_cons_of_ne_nil isWord.toList_ne_nil
    exact ⟨c, rest, split, isWord.plain c (by simp [split])⟩
  · have split := (List.dropLast_concat_getLast isWord.toList_ne_nil).symm
    exact ⟨_, _, split, isWord.plain _ (List.getLast_mem _)⟩

theorem HasEnds.append {a b : String} (endsA : HasEnds a) (endsB : HasEnds b) (between : String) :
    HasEnds (a ++ between ++ b) := by
  obtain ⟨c, rest, splitA, plainC⟩ := endsA.first
  obtain ⟨start, d, splitB, plainD⟩ := endsB.last
  refine ⟨⟨c, rest ++ between.toList ++ b.toList, ?_, plainC⟩,
    ⟨a.toList ++ between.toList ++ start, d, ?_, plainD⟩⟩
  · simp [splitA]
  · simp [splitB]

/-- Blanks around a text are trimmed away. -/
theorem trim_append {text before after : String} (ends : HasEnds text)
    (blankBefore : ∀ c ∈ before.toList, isBlank c = true)
    (blankAfter : ∀ c ∈ after.toList, isBlank c = true) : trim (before ++ text ++ after) = text := by
  obtain ⟨c, rest, splitFirst, plainFirst⟩ := ends.first
  obtain ⟨start, d, splitLast, plainLast⟩ := ends.last
  have dropped : (text.toList ++ after.toList).dropWhile isBlank = text.toList ++ after.toList := by
    rw [splitFirst, List.cons_append, List.dropWhile_cons_of_neg (by simp [plainFirst])]
  have droppedBack : text.toList.reverse.dropWhile isBlank = text.toList.reverse := by
    rw [splitLast, List.reverse_append, List.reverse_singleton, List.singleton_append,
      List.dropWhile_cons_of_neg (by simp [plainLast])]
  rw [trim, trimChars, String.toList_append, String.toList_append, List.append_assoc,
    List.dropWhile_append_of_pos blankBefore, dropped, List.reverse_append,
    List.dropWhile_append_of_pos fun x member => blankAfter x (List.mem_reverse.mp member),
    droppedBack, List.reverse_reverse, String.ofList_toList]

theorem trim_of_hasEnds {text : String} (ends : HasEnds text) : trim text = text := by
  simpa using @trim_append text "" "" ends (by simp) (by simp)

/-! ## Splitting -/

theorem splitChars_ne_nil (separator : Char) (cs : List Char) : splitChars separator cs ≠ [] := by
  cases cs with
  | nil => exact List.cons_ne_nil _ _
  | cons c rest =>
    rw [splitChars]
    split
    · exact List.cons_ne_nil _ _
    · split <;> exact List.cons_ne_nil _ _

theorem split_ne_nil (separator : Char) (text : String) : split separator text ≠ [] := by
  rw [split, Ne, List.map_eq_nil_iff]
  exact splitChars_ne_nil separator _

/-- Pieces of characters between separators have no separator, and joined by it they are the characters. -/
theorem splitChars_spec (separator : Char) (cs : List Char) :
    (∀ piece ∈ splitChars separator cs, separator ∉ piece) ∧
      [separator].intercalate (splitChars separator cs) = cs := by
  induction cs with
  | nil => simp [splitChars]
  | cons c rest ih =>
    obtain ⟨absent, joined⟩ := ih
    obtain ⟨piece, pieces, found⟩ := List.exists_cons_of_ne_nil (splitChars_ne_nil separator rest)
    rw [found] at absent joined
    rw [splitChars]
    split
    · rename_i same
      subst same
      rw [found]
      refine ⟨List.forall_mem_cons.mpr ⟨List.not_mem_nil, absent⟩, ?_⟩
      rw [List.intercalate_cons_cons, joined]
      rfl
    · rename_i distinct
      rw [found]
      obtain ⟨here, later⟩ := List.forall_mem_cons.mp absent
      refine ⟨List.forall_mem_cons.mpr ⟨?_, later⟩, ?_⟩
      · rw [List.mem_cons, not_or]
        exact ⟨Ne.symm distinct, here⟩
      · cases pieces with
        | nil => simpa using joined
        | cons next more =>
          rw [List.intercalate_cons_cons] at joined ⊢
          rw [← joined]
          rfl

theorem notMem_of_mem_split {separator : Char} {text piece : String} (member : piece ∈ split separator text) :
    separator ∉ piece.toList := by
  obtain ⟨chars, found, rfl⟩ := List.mem_map.mp member
  rw [String.toList_ofList]
  exact (splitChars_spec separator _).1 chars found

/-- The pieces of a text joined by the separator are the text. -/
theorem intercalate_split (separator : Char) (text : String) :
    (String.singleton separator).intercalate (split separator text) = text := by
  apply String.toList_inj.mp
  rw [String.toList_intercalate, String.toList_singleton, split, List.map_map]
  have same : String.toList ∘ String.ofList = id := funext fun _ => String.toList_ofList
  rw [same, List.map_id]
  exact (splitChars_spec separator text.toList).2

theorem splitChars_of_notMem {separator : Char} {cs : List Char} (absent : separator ∉ cs) :
    splitChars separator cs = [cs] := by
  induction cs with
  | nil => rfl
  | cons c cs ih =>
    have distinct : c ≠ separator := fun same => absent (same ▸ List.mem_cons_self)
    rw [splitChars, if_neg distinct, ih fun member => absent (List.mem_cons_of_mem _ member)]

theorem splitChars_append {separator : Char} {cs : List Char} (absent : separator ∉ cs)
    (rest : List Char) :
    splitChars separator (cs ++ separator :: rest) = cs :: splitChars separator rest := by
  induction cs with
  | nil => rw [List.nil_append, splitChars, if_pos rfl]
  | cons c cs ih =>
    have distinct : c ≠ separator := fun same => absent (same ▸ List.mem_cons_self)
    rw [List.cons_append, splitChars, if_neg distinct,
      ih fun member => absent (List.mem_cons_of_mem _ member)]

theorem split_of_notMem {separator : Char} {text : String} (absent : separator ∉ text.toList) :
    split separator text = [text] := by
  rw [split, splitChars_of_notMem absent, List.map_singleton, String.ofList_toList]

theorem cut?_append {separator : Char} {before : String} (absent : separator ∉ before.toList)
    (after : String) :
    cut? separator (before ++ String.singleton separator ++ after) = some (before, after) := by
  have others : ∀ c ∈ before.toList, (c != separator) = true := by
    intro c member
    simp only [bne_iff_ne]
    exact fun same => absent (same ▸ member)
  have whole : (before ++ String.singleton separator ++ after).toList =
      before.toList ++ separator :: after.toList := by
    simp
  rw [cut?, whole, List.takeWhile_append_of_pos others, List.dropWhile_append_of_pos others]
  simp

/-- Cutting at the commas of a list leaves a blank in front of every text but the first. -/
theorem split_intercalate {first : String} {rest : List String}
    (absent : ∀ text ∈ first :: rest, ',' ∉ text.toList) :
    split ',' (", ".intercalate (first :: rest)) = first :: rest.map (" " ++ ·) := by
  induction rest generalizing first with
  | nil =>
    rw [String.intercalate_singleton, split_of_notMem (absent first List.mem_cons_self)]
    rfl
  | cons next rest ih =>
    have tail := @ih (" " ++ next) fun text member => by
      rcases List.mem_cons.mp member with here | there
      · subst here
        simpa using absent next (by simp)
      · exact absent text (by simp [there])
    rw [String.intercalate_cons_append, split, String.toList_append] at tail
    rw [String.intercalate_cons_cons, split, String.toList_append, String.toList_append,
      List.append_assoc]
    change List.map String.ofList (splitChars ','
      (first.toList ++ ',' :: ' ' :: (", ".intercalate (next :: rest)).toList)) = _
    rw [splitChars_append (absent first List.mem_cons_self), List.map_cons, String.ofList_toList]
    exact congrArg (first :: ·) tail

/-- Texts that are listed with commas are read back. -/
theorem trim_split_intercalate {texts : List String} (nonempty : texts ≠ [])
    (ends : ∀ text ∈ texts, HasEnds text) (absent : ∀ text ∈ texts, ',' ∉ text.toList) :
    (split ',' (", ".intercalate texts)).map trim = texts := by
  cases texts with
  | nil => exact absurd rfl nonempty
  | cons first rest =>
    rw [split_intercalate absent, List.map_cons, List.map_map,
      trim_of_hasEnds (ends first List.mem_cons_self)]
    refine congrArg (first :: ·) ((List.map_congr_left fun text member => ?_).trans (List.map_id rest))
    have trimmed := @trim_append text " " "" (ends text (List.mem_cons_of_mem _ member))
      (List.all_iff_forall_prop.mp rfl) (by simp)
    simpa using trimmed

/-! ## Texts of words -/

/-- Texts of words one after the other are the text of all the words. -/
theorem intercalate_flatten {groups : List (List String)} (filled : ∀ group ∈ groups, group ≠ []) :
    " ".intercalate (groups.map (" ".intercalate ·)) = " ".intercalate groups.flatten := by
  induction groups with
  | nil => rfl
  | cons group rest ih =>
    have tail := ih fun other member => filled other (List.mem_cons_of_mem _ member)
    have here := filled group List.mem_cons_self
    cases rest with
    | nil => simp
    | cons next rest =>
      have there : (next :: rest).flatten ≠ [] := by
        have := filled next (by simp)
        simp [this]
      change _ = " ".intercalate (group ++ (next :: rest).flatten)
      rw [List.map_cons, String.intercalate_cons_of_ne_nil (by simp), tail,
        String.intercalate_append_of_ne_nil here there]

/-- Texts of words with a conjunction between them. -/
theorem intercalate_and {groups : List (List String)} (filled : ∀ group ∈ groups, group ≠ []) :
    " AND ".intercalate (groups.map (" ".intercalate ·)) =
      " ".intercalate (["AND"].intercalate groups) := by
  induction groups with
  | nil => rfl
  | cons group rest ih =>
    have tail := ih fun other member => filled other (List.mem_cons_of_mem _ member)
    have here := filled group List.mem_cons_self
    cases rest with
    | nil => simp
    | cons next rest =>
      have there : ["AND"].intercalate (next :: rest) ≠ [] := by
        have := filled next (by simp)
        cases rest <;> simp [this]
      rw [List.map_cons, String.intercalate_cons_of_ne_nil (by simp), tail,
        List.intercalate_cons_cons, String.intercalate_append_of_ne_nil (by simp [here]) there,
        String.intercalate_append_of_ne_nil here (by simp), String.intercalate_singleton]
      simp [String.append_assoc]

theorem intercalate_append_last (between : String) (start : List String) (last tail : String) :
    between.intercalate (start ++ [last]) ++ tail = between.intercalate (start ++ [last ++ tail]) := by
  cases start with
  | nil => simp
  | cons first rest =>
    rw [String.intercalate_append_of_ne_nil (by simp) (by simp),
      String.intercalate_append_of_ne_nil (by simp) (by simp), String.intercalate_singleton,
      String.intercalate_singleton, String.append_assoc]

theorem isBlankText_intercalate {words : List String} (nonempty : words ≠ [])
    (areWords : ∀ word ∈ words, IsWord word) (between : String) :
    isBlankText (between.intercalate words) = false := by
  cases words with
  | nil => exact absurd rfl nonempty
  | cons word rest =>
    obtain ⟨c, cs, split, plain⟩ := (areWords word List.mem_cons_self).hasEnds.first
    rw [isBlankText, List.all_eq_false]
    refine ⟨c, ?_, by simp [plain]⟩
    cases rest <;> simp [split]

end DocTable.Text
