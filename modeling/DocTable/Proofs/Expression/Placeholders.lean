import DocTable.Expression.Context
import DocTable.Expression.Placeholders
import DocTable.Proofs.Keyed
import DocTable.Proofs.Outcome
import DocTable.Proofs.Text.Words

/-!
# Placeholders and what they stand for

A number has one placeholder for a name and one for a value, both words that start with a mark
(`Text.IsMarked`), so they are neither conjunctions nor keywords of an expression.  The path of a text has
the names that its steps stand for (`Context.path_eq_ok_iff`).

Numbers that were not given out yet are free (`Placeholders.Sound`), so giving one out changes no
placeholder that is bound already: what placeholders stand for only grows (`Context.Within`).

The terms of a condition and the fields of a directive are added by one step, `Clause.joined`.
`Clause.joinAll` repeats it, and its specification `Clause.written_of_joinAll` says what the
fragments are and what their placeholders stand for.
-/

namespace DocTable

set_option autoImplicit false

/-! ## Marked words -/

namespace Text

/-- The characters that start a placeholder or a comparison. -/
def marks : List Char := ['#', ':', '=', '<', '>']

/-- A word that starts with a mark. -/
structure IsMarked (word : String) : Prop where
  plain : ∀ c ∈ word.toList, isBlank c = false
  marked : ∃ c rest, word.toList = c :: rest ∧ c ∈ marks

namespace IsMarked

variable {word : String}

theorem isWord (isMarked : IsMarked word) : IsWord word := by
  obtain ⟨c, rest, split, _⟩ := isMarked.marked
  refine ⟨?_, isMarked.plain⟩
  rintro rfl
  cases split

/-- A marked word is no conjunction. -/
theorem equalFold_and (isMarked : IsMarked word) : equalFold word "AND" = false := by
  obtain ⟨c, rest, split, mark⟩ := isMarked.marked
  have first : ∀ c ∈ marks, (foldChar c == 'a') = false :=
    List.all_iff_forall_prop.mp rfl
  rw [equalFold, split]
  change (foldChar c == 'a' && _) = false
  rw [first c mark, Bool.false_and]

/-- A marked word opens no clause of an update. -/
theorem ofWord?_eq_none (isMarked : IsMarked word) : ActionKind.ofWord? word = none := by
  obtain ⟨c, rest, split, mark⟩ := isMarked.marked
  have first : ∀ kind : ActionKind, ∀ c ∈ marks,
      kind.keyword.toList.head? ≠ some (upperChar c) := by
    intro kind
    cases kind <;> exact List.all_iff_forall_prop.mp rfl
  rw [ActionKind.ofWord?, List.find?_eq_none]
  intro kind _
  rw [decide_eq_true_eq]
  intro same
  apply first kind c mark
  rw [same, upper, String.toList_ofList, split, List.map_cons, List.head?_cons]

theorem append (isMarked : IsMarked word) {tail : String}
    (plain : ∀ c ∈ tail.toList, isBlank c = false) : IsMarked (word ++ tail) := by
  obtain ⟨c, rest, split, mark⟩ := isMarked.marked
  refine ⟨fun d member => ?_, c, rest ++ tail.toList, by simp [split], mark⟩
  rcases List.mem_append.mp (String.toList_append ▸ member) with here | there
  · exact isMarked.plain d here
  · exact plain d there

end IsMarked

end Text

/-! ## Placeholders of a number -/

namespace Placeholders

theorem toList_nameToken (n : Nat) : (nameToken n).toList = '#' :: 'k' :: Nat.toDigits 10 n := by
  simp [nameToken]

theorem toList_valueToken (n : Nat) : (valueToken n).toList = ':' :: 'v' :: Nat.toDigits 10 n := by
  simp [valueToken]

theorem digits_injective {m n : Nat} (same : Nat.toDigits 10 m = Nat.toDigits 10 n) : m = n := by
  have read := congrArg (fun digits => Nat.ofDigitChars 10 digits 0) same
  simpa using read

theorem nameToken_injective {m n : Nat} (same : nameToken m = nameToken n) : m = n := by
  have lists := congrArg String.toList same
  rw [toList_nameToken, toList_nameToken] at lists
  exact digits_injective (List.cons.inj (List.cons.inj lists).2).2

theorem valueToken_injective {m n : Nat} (same : valueToken m = valueToken n) : m = n := by
  have lists := congrArg String.toList same
  rw [toList_valueToken, toList_valueToken] at lists
  exact digits_injective (List.cons.inj (List.cons.inj lists).2).2

/-- The characters of placeholders. -/
def IsTokenChar (c : Char) : Prop := c ∈ ['#', ':', 'k', 'v'] ∨ c.isDigit = true

theorem isTokenChar_of_mem {mark letter c : Char} {n : Nat} (isMark : IsTokenChar mark)
    (isLetter : IsTokenChar letter) (member : c ∈ mark :: letter :: Nat.toDigits 10 n) :
    IsTokenChar c := by
  rcases List.mem_cons.mp member with rfl | member
  · exact isMark
  · rcases List.mem_cons.mp member with rfl | member
    · exact isLetter
    · exact .inr (Nat.isDigit_of_mem_toDigits (by decide) (by decide) member)

theorem isTokenChar_nameToken {n : Nat} {c : Char} (member : c ∈ (nameToken n).toList) :
    IsTokenChar c :=
  isTokenChar_of_mem (.inl (by decide)) (.inl (by decide)) (toList_nameToken n ▸ member)

theorem isTokenChar_valueToken {n : Nat} {c : Char} (member : c ∈ (valueToken n).toList) :
    IsTokenChar c :=
  isTokenChar_of_mem (.inl (by decide)) (.inl (by decide)) (toList_valueToken n ▸ member)

/-- No character of a placeholder has a meaning for the readers of expressions. -/
theorem IsTokenChar.isPlain {c : Char} (isToken : IsTokenChar c) :
    Text.isBlank c = false ∧ c ∉ [',', '.', '=', ' ', '\t'] := by
  rcases isToken with special | digit
  · have plain : ∀ c ∈ ['#', ':', 'k', 'v'],
        Text.isBlank c = false ∧ c ∉ [',', '.', '=', ' ', '\t'] :=
      List.all_iff_forall_prop.mp rfl
    exact plain c special
  · obtain ⟨low, high⟩ := Char.isDigit_iff_toNat.mp digit
    have bounds : 48 ≤ c.toNat ∧ c.toNat ≤ 57 := ⟨low, high⟩
    refine ⟨?_, fun member => ?_⟩
    · simp only [Text.isBlank, Bool.or_eq_false_iff, Bool.and_eq_false_iff, decide_eq_false_iff_not,
        beq_eq_false_iff_ne]
      omega
    · simp only [List.mem_cons, List.not_mem_nil, or_false] at member
      rcases member with rfl | rfl | rfl | rfl | rfl <;> exact absurd digit (by decide)

theorem isMarked_nameToken (n : Nat) : Text.IsMarked (nameToken n) :=
  ⟨fun _ member => (isTokenChar_nameToken member).isPlain.1,
    _, _, toList_nameToken n, by decide⟩

theorem isMarked_valueToken (n : Nat) : Text.IsMarked (valueToken n) :=
  ⟨fun _ member => (isTokenChar_valueToken member).isPlain.1,
    _, _, toList_valueToken n, by decide⟩

end Placeholders

/-! ## What placeholders stand for -/

namespace Context

/-- A step of a path stands for a name: a placeholder for the name that is bound to it, any other step for
itself. -/
def Stands (c : Context) (token name : String) : Prop :=
  if token.toList.head? = some '#' then Keyed.lookup token c.names = some name else name = token

variable {c : Context} {text token name : String} {tokens : List String} {path : Path} {value : AttributeValue}

theorem step_eq_ok_iff : c.step token = .ok name ↔ c.Stands token name := by
  rw [step, Stands]
  split
  · cases Keyed.lookup token c.names <;> simp
  · simp [eq_comm]

theorem steps_eq_ok_iff : c.steps tokens = .ok path ↔ List.Forall₂ c.Stands tokens path :=
  Outcome.each_eq_ok_iff c.step c.steps rfl (fun _ _ => rfl) fun _ _ => step_eq_ok_iff

/-- The path of a text has the names that its steps stand for. -/
theorem path_eq_ok_iff : c.path text = .ok path ↔ List.Forall₂ c.Stands (Text.split '.' text) path :=
  steps_eq_ok_iff

theorem path_ne_nil (read : c.path text = .ok path) : path ≠ [] := by
  rintro rfl
  exact Text.split_ne_nil '.' text (List.forall₂_nil_right_iff.mp (path_eq_ok_iff.mp read))

/-- Steps stand for names if each placeholder among them is bound. -/
theorem exists_stands_iff : (∃ path, List.Forall₂ c.Stands tokens path) ↔
    ∀ token ∈ tokens, token.toList.head? = some '#' → ∃ name, Keyed.lookup token c.names = some name := by
  rw [exists_forall₂_iff]
  refine forall₂_congr fun token _ => ?_
  by_cases marked : token.toList.head? = some '#' <;> simp [Stands, marked]

theorem value_eq_ok_iff : c.value token = .ok value ↔ Keyed.lookup token c.values = some value := by
  rw [Context.value]
  cases Keyed.lookup token c.values <;> simp

end Context

/-- What one context says is what another says too. -/
structure Context.Within (c d : Context) : Prop where
  names : ∀ {token name : String}, Keyed.lookup token c.names = some name →
    Keyed.lookup token d.names = some name
  values : ∀ {token : String} {value : AttributeValue}, Keyed.lookup token c.values = some value →
    Keyed.lookup token d.values = some value

theorem Context.Within.refl (c : Context) : c.Within c := ⟨id, id⟩

theorem Context.Within.trans {c d e : Context} (first : c.Within d) (second : d.Within e) :
    c.Within e :=
  ⟨second.names ∘ first.names, second.values ∘ first.values⟩

namespace Placeholders

/-- What placeholders stand for. -/
def context (p : Placeholders) : Context := ⟨p.names, p.values⟩

/-- Placeholders are kept in order, and the numbers from the counter on are free. -/
structure Sound (p : Placeholders) : Prop where
  names : Keyed.Ascending p.names
  values : Keyed.Ascending p.values
  freeName : ∀ n, p.counter ≤ n → Keyed.lookup (nameToken n) p.names = none
  freeValue : ∀ n, p.counter ≤ n → Keyed.lookup (valueToken n) p.values = none

theorem Sound.empty : empty.Sound :=
  ⟨List.Pairwise.nil, List.Pairwise.nil, fun _ _ => rfl, fun _ _ => rfl⟩

theorem Sound.bindName {p : Placeholders} (sound : p.Sound) (name : String) :
    (p.bindName name).Sound := by
  refine ⟨sound.names.insert _ _, sound.values, fun n free => ?_, fun n free => ?_⟩
  · have bound : p.counter + 1 ≤ n := free
    have distinct : nameToken p.counter ≠ nameToken n := by
      intro same
      have := nameToken_injective same
      omega
    rw [Placeholders.bindName, Keyed.lookup_insert_of_ne _ _ distinct]
    exact sound.freeName n (by omega)
  · have bound : p.counter + 1 ≤ n := free
    exact sound.freeValue n (by omega)

theorem Sound.within_bindName {p : Placeholders} (sound : p.Sound) (name : String) :
    p.context.Within (p.bindName name).context := by
  refine ⟨fun {token _} found => ?_, id⟩
  have distinct : nameToken p.counter ≠ token := by
    rintro rfl
    have free : Keyed.lookup (nameToken p.counter) p.names = none := sound.freeName _ (Nat.le_refl _)
    rw [context, free] at found
    cases found
  rw [context, Placeholders.bindName, Keyed.lookup_insert_of_ne _ _ distinct]
  exact found

theorem Sound.bindValue {p : Placeholders} (sound : p.Sound) {n : Nat} (given : n < p.counter)
    (value : AttributeValue) : (p.bindValue n value).Sound := by
  refine ⟨sound.names, sound.values.insert _ _, sound.freeName, fun m free => ?_⟩
  have bound : p.counter ≤ m := free
  have distinct : valueToken n ≠ valueToken m := by
    intro same
    have := valueToken_injective same
    omega
  rw [Placeholders.bindValue, Keyed.lookup_insert_of_ne _ _ distinct]
  exact sound.freeValue m bound

theorem within_bindValue {p : Placeholders} {n : Nat}
    (free : Keyed.lookup (valueToken n) p.values = none) (value : AttributeValue) :
    p.context.Within (p.bindValue n value).context := by
  refine ⟨id, fun {token _} found => ?_⟩
  have distinct : valueToken n ≠ token := by
    rintro rfl
    rw [context, free] at found
    cases found
  rw [context, Placeholders.bindValue, Keyed.lookup_insert_of_ne _ _ distinct]
  exact found

end Placeholders

/-! ## Fragments -/

/-- A name with a value and the text between them, as they are put into an expression. -/
structure Joint where
  field : String
  operand : Value
  glue : String

namespace Clause

/-- A fragment is written with the placeholders of a number, which stand for a name and the form of a
value. -/
def Written (context : Context) (joint : Joint) (fragment : String) : Prop :=
  ∃ n value, joint.operand.encode = .ok value ∧
    fragment = Placeholders.nameToken n ++ joint.glue ++ Placeholders.valueToken n ∧
    Keyed.lookup (Placeholders.nameToken n) context.names = some joint.field ∧
    Keyed.lookup (Placeholders.valueToken n) context.values = some value

theorem Written.mono {c d : Context} (within : c.Within d) {joint : Joint} {fragment : String}
    (written : Written c joint fragment) : Written d joint fragment := by
  obtain ⟨n, value, encoded, text, name, bound⟩ := written
  exact ⟨n, value, encoded, text, within.names name, within.values bound⟩

/-- Adds names and values in order, up to the first that has no fragment. -/
def joinAll (c : Clause) : List Joint → Clause × Option FieldError
  | [] => (c, none)
  | joint :: rest => match c.joined joint.field joint.operand joint.glue with
    | (c, some e) => (c, some e)
    | (c, none) => c.joinAll rest

theorem terms_eq_joinAll (c : Clause) (terms : List (String × Resolved)) :
    c.terms terms =
      c.joinAll (terms.map fun term => ⟨term.1, term.2.operand, " " ++ term.2.symbol ++ " "⟩) := by
  induction terms generalizing c with
  | nil => rfl
  | cons term rest ih =>
    obtain ⟨field, r⟩ := term
    simp only [terms, term, List.map_cons, joinAll]
    split <;> simp_all

theorem fields_eq_joinAll (c : Clause) (glue : String) (d : Document) :
    c.fields glue d =
      c.joinAll (d.map fun field => ⟨field.1, (Resolved.ofValue field.2).operand, glue⟩) := by
  induction d generalizing c with
  | nil => rfl
  | cons field rest ih =>
    obtain ⟨name, value⟩ := field
    simp only [fields, List.map_cons, joinAll]
    split <;> simp_all

/-- What adding one name and its value does. -/
theorem written_of_joined {c after : Clause} {joint : Joint} (sound : c.placeholders.Sound)
    (joined : c.joined joint.field joint.operand joint.glue = (after, none)) :
    after.placeholders.Sound ∧ c.placeholders.context.Within after.placeholders.context ∧
      ∃ fragment, after.fragments = c.fragments ++ [fragment] ∧
        Written after.placeholders.context joint fragment := by
  rw [Clause.joined] at joined
  split at joined
  · cases joined
  · rename_i value encoded
    cases joined
    have soundName := sound.bindName joint.field
    have free : Keyed.lookup (Placeholders.valueToken c.placeholders.counter)
        (c.placeholders.bindName joint.field).values = none :=
      sound.freeValue _ (Nat.le_refl _)
    refine ⟨soundName.bindValue (Nat.lt_succ_self _) value,
      (sound.within_bindName _).trans (Placeholders.within_bindValue free value), _, rfl,
      c.placeholders.counter, value, encoded, rfl, ?_, ?_⟩
    · exact Keyed.lookup_insert_self _ _ _
    · exact Keyed.lookup_insert_self _ _ _

/-- What adding names and values does: every one has a fragment with placeholders of its own. -/
theorem written_of_joinAll {joints : List Joint} {c after : Clause} (sound : c.placeholders.Sound)
    (joined : c.joinAll joints = (after, none)) :
    after.placeholders.Sound ∧ c.placeholders.context.Within after.placeholders.context ∧
      ∃ fragments, after.fragments = c.fragments ++ fragments ∧
        List.Forall₂ (Written after.placeholders.context) joints fragments := by
  induction joints generalizing c with
  | nil =>
    cases joined
    exact ⟨sound, .refl _, [], by simp, .nil⟩
  | cons joint rest ih =>
    rw [joinAll] at joined
    split at joined
    · cases joined
    · rename_i next step
      obtain ⟨soundNext, within, fragment, added, written⟩ := written_of_joined sound step
      obtain ⟨soundAfter, withinAfter, fragments, addedRest, writtenRest⟩ := ih soundNext joined
      refine ⟨soundAfter, within.trans withinAfter, fragment :: fragments, ?_,
        .cons (written.mono withinAfter) writtenRest⟩
      rw [addedRest, added, List.append_assoc, List.singleton_append]

/-- A fragment that is a bare name. -/
def WrittenName (context : Context) (field fragment : String) : Prop :=
  ∃ n, fragment = Placeholders.nameToken n ∧
    Keyed.lookup (Placeholders.nameToken n) context.names = some field

/-- What adding bare names does. -/
theorem written_of_names {fields : List String} {c : Clause} (sound : c.placeholders.Sound) :
    let after := fields.foldl Clause.name c
    after.placeholders.Sound ∧ c.placeholders.context.Within after.placeholders.context ∧
      ∃ fragments, after.fragments = c.fragments ++ fragments ∧
        List.Forall₂ (WrittenName after.placeholders.context) fields fragments := by
  induction fields generalizing c with
  | nil => exact ⟨sound, .refl _, [], by simp, .nil⟩
  | cons field rest ih =>
    have soundNext : (c.name field).placeholders.Sound := sound.bindName field
    have within : c.placeholders.context.Within (c.name field).placeholders.context :=
      sound.within_bindName field
    obtain ⟨soundAfter, withinAfter, fragments, added, written⟩ := ih soundNext
    refine ⟨soundAfter, within.trans withinAfter,
      Placeholders.nameToken c.placeholders.counter :: fragments, ?_,
      .cons ⟨_, rfl, withinAfter.names (Keyed.lookup_insert_self _ _ _)⟩ written⟩
    rw [List.foldl_cons, added, Clause.name, List.append_assoc, List.singleton_append]

end Clause

end DocTable
