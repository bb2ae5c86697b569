import DocTable.Proofs.Text.Words
import Mathlib.Data.List.TakeWhile

/-!
# Parts of a text

The readers of expressions take a text apart into its words, its pieces between separators, the two sides of the
first separator, and each of these without the blanks around it.  All of them stand in the text as they are.

The words of a text with single blanks between them are the text up to white space.  What stands there is mentioned
in the text (`Text.Mentions`): it stands in the text itself if it is a word.
-/

namespace DocTable.Text

set_option autoImplicit false

/-! ## Trimmed and cut texts -/

theorem infix_trim (text : String) : (trim text).toList <:+: text.toList := by
  rw [trim, String.toList_ofList, trimChars]
  have back := (@List.dropWhile_suffix _ (text.toList.dropWhile isBlank).reverse isBlank).reverse
  rw [List.reverse_reverse] at back
  exact back.isInfix.trans (List.dropWhile_suffix isBlank).isInfix

/-- A text is trimmed away if it has nothing but blanks. -/
theorem trim_eq_empty_iff {text : String} : trim text = "" ↔ ∀ c ∈ text.toList, isBlank c = true := by
  rw [trim, String.ofList_eq_empty_iff, trimChars, List.reverse_eq_nil_iff, List.dropWhile_eq_nil_iff]
  simp only [List.mem_reverse]
  constructor
  · intro left c member
    rw [← @List.takeWhile_append_dropWhile _ isBlank text.toList, List.mem_append] at member
    rcases member with taken | dropped
    · exact List.mem_takeWhile_imp taken
    · exact left c dropped
  · intro blank c member
    exact blank c ((List.dropWhile_suffix _).mem member)

theorem cut?_eq_some_iff {separator : Char} {text before after : String} :
    cut? separator text = some (before, after) ↔
      separator ∉ before.toList ∧ text = before ++ String.singleton separator ++ after := by
  constructor
  · intro found
    rw [cut?] at found
    split at found
    · cases found
    · rename_i c rest left
      cases found
      have first : c = separator := by
        have stopped := List.head?_dropWhile_not (· != separator) text.toList
        simpa [left] using stopped
      refine ⟨?_, ?_⟩
      · intro member
        rw [String.toList_ofList] at member
        have other := List.mem_takeWhile_imp member
        exact absurd rfl (bne_iff_ne.mp other)
      · apply String.toList_inj.mp
        have whole := @List.takeWhile_append_dropWhile _ (· != separator) text.toList
        rw [left, first] at whole
        simpa using whole.symm
  · rintro ⟨absent, rfl⟩
    exact cut?_append absent after

/-! ## Words and pieces -/

theorem infix_of_mem_words {text word : String} (member : word ∈ words text) : word.toList <:+: text.toList := by
  have spaced : Spaced text.toList (words text) := words_eq_iff.mp rfl
  generalize text.toList = cs at spaced ⊢
  generalize words text = ws at spaced member
  induction spaced with
  | blank => cases member
  | @word before after first others _ _ _ _ ih =>
    rcases List.mem_cons.mp member with rfl | there
    · exact List.infix_append' _ _ _
    · exact (ih there).trans ((List.suffix_append _ _).trans (List.suffix_append _ _)).isInfix

/-- A text in a list is part of the list with something between its texts. -/
theorem infix_intercalate {texts : List String} {text : String} (between : String) (member : text ∈ texts) :
    text.toList <:+: (between.intercalate texts).toList := by
  induction texts with
  | nil => cases member
  | cons first rest ih =>
    cases rest with
    | nil =>
      cases List.mem_singleton.mp member
      exact String.intercalate_singleton ▸ List.infix_refl _
    | cons next rest =>
      rw [String.intercalate_cons_cons, String.toList_append]
      rcases List.mem_cons.mp member with rfl | there
      · rw [String.toList_append, List.append_assoc]
        exact (List.prefix_append _ _).isInfix
      · exact (ih there).trans (List.suffix_append _ _).isInfix

theorem infix_of_mem_split {separator : Char} {text piece : String} (member : piece ∈ split separator text) :
    piece.toList <:+: text.toList := by
  have inside := infix_intercalate (String.singleton separator) member
  rwa [intercalate_split] at inside

/-- Adjoining words make up a part of the text with single blanks between the words. -/
theorem infix_intercalate_words {part words : List String} (between : String) (inside : part <:+: words) :
    (between.intercalate part).toList <:+: (between.intercalate words).toList := by
  obtain ⟨before, after, rfl⟩ := inside
  by_cases empty : part = []
  · subst empty
    exact List.nil_infix
  have start : (between.intercalate part).toList <:+: (between.intercalate (before ++ part)).toList := by
    cases before with
    | nil => exact List.infix_refl _
    | cons first before =>
      rw [String.intercalate_append_of_ne_nil (List.cons_ne_nil _ _) empty, String.toList_append]
      exact (List.suffix_append _ _).isInfix
  cases after with
  | nil => rwa [List.append_nil]
  | cons last after =>
    rw [String.intercalate_append_of_ne_nil (by simp [empty]) (List.cons_ne_nil _ _), String.append_assoc,
      String.toList_append]
    exact start.trans (List.prefix_append _ _).isInfix

theorem infix_of_notMem {α : Type} {separator : α} {part before after : List α}
    (inside : part <:+: before ++ separator :: after) (absent : separator ∉ part) :
    part <:+: before ∨ part <:+: after := by
  have starts : ∀ {start : List α}, start <+: separator :: after → separator ∉ start → start = [] := by
    intro start isPrefix absent
    cases start with
    | nil => rfl
    | cons c start =>
      cases (List.cons_prefix_cons.mp isPrefix).1
      exact absurd List.mem_cons_self absent
  rcases List.infix_append_iff.mp inside with left | right | ⟨l, r, rfl, isSuffix, isPrefix⟩
  · exact .inl left
  · rcases List.infix_cons_iff.mp right with isPrefix | right
    · rw [starts isPrefix absent]
      exact .inl List.nil_infix
    · exact .inr right
  · rw [starts isPrefix fun member => absent (List.mem_append_right _ member), List.append_nil]
    exact .inl isSuffix.isInfix

/-- A part without blanks of words with single blanks between them is part of a word. -/
theorem exists_infix_word {part : List Char} {words : List String} (nonempty : part ≠ [])
    (inside : part <:+: (" ".intercalate words).toList) (absent : ' ' ∉ part) :
    ∃ word ∈ words, part <:+: word.toList := by
  induction words with
  | nil => exact absurd (List.infix_nil.mp inside) nonempty
  | cons first rest ih =>
    cases rest with
    | nil =>
      rw [String.intercalate_singleton] at inside
      exact ⟨first, List.mem_singleton_self _, inside⟩
    | cons next rest =>
      rw [String.intercalate_cons_cons, String.append_assoc, String.toList_append, String.toList_append] at inside
      rcases infix_of_notMem inside absent with here | there
      · exact ⟨first, List.mem_cons_self, here⟩
      · obtain ⟨word, member, found⟩ := ih there
        exact ⟨word, List.mem_cons_of_mem _ member, found⟩

/-- A text mentions another one: it stands in the text up to white space, and as it is if it is a word. -/
structure Mentions (text token : String) : Prop where
  ne_empty : token ≠ ""
  inWords : token.toList <:+: (" ".intercalate (words text)).toList
  inText : IsWord token → token.toList <:+: text.toList

/-- A word that stands in the words of a text, with single blanks between them, stands in one of them. -/
theorem mentions_of_infix_words {text token : String} (nonempty : token ≠ "")
    (inside : token.toList <:+: (" ".intercalate (words text)).toList) : Mentions text token := by
  refine ⟨nonempty, inside, fun isWord => ?_⟩
  have absent : ' ' ∉ token.toList := fun member => absurd (isWord.plain ' ' member) (by decide)
  obtain ⟨word, member, found⟩ := exists_infix_word isWord.toList_ne_nil inside absent
  exact found.trans (infix_of_mem_words member)

end DocTable.Text
