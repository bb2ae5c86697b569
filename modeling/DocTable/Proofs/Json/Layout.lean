import DocTable.Json.Reader
import DocTable.Proofs.Text.Octets
import Mathlib.Data.List.Basic

/-!
# The printed form determines the value

Two JSON values that are printed in the same way, each member and item on its own line, are the same value,
up to octets of strings that belong to no character: every one of these is printed as the same escape
(`Json.Alike`).  What makes this true is that every part of a text tells where it ends: an escape by its
letter, a string by its quote, an array or object by its closing line, and a number by the comma or the line
break that has to follow.  So the statement carried through the value is about a printed value with more text
behind it (`indented_append_alike`): the value and the rest are both determined.

Numbers are in the way, since they are kept as any text.  `Json.Laid` asks that the texts of numbers are
such that a comma or a line break ends them, and that they do not start like another value.

A string that is a text is printed like no other string, so a value whose strings are all texts
(`Json.isText`) is alike to itself only (`Json.Alike.eq`).
-/

namespace DocTable

set_option autoImplicit false

/-! ## Characters inside a string -/

namespace Text

theorem hexValue?_hexDigit : ∀ n < 16, hexValue? (hexDigit n) = some n := by decide

end Text

namespace Json

open Reader

/-- The character that an escape or a plain character stands for, and what follows it; nothing at the
end of the string. -/
def unescape? : List Char → Option (Char × List Char)
  | [] => none
  | '\\' :: 'u' :: rest => (hexUnit? rest).map fun unit => (Char.ofNat unit, rest.drop 4)
  | '\\' :: c :: rest => (simpleEscape? c).map fun meant => (meant, rest)
  | c :: rest => if c = '\x22' then none else some (c, rest)

theorem hexUnit?_hexNat {n : Nat} (small : n < 65536) (rest : List Char) :
    hexUnit? ((Text.hexNat 4 n).toList ++ rest) = some n := by
  have digit (k : Nat) : Text.hexValue? (Text.hexDigit (k % 16)) = some (k % 16) :=
    Text.hexValue?_hexDigit _ (Nat.mod_lt _ (by decide))
  have digits : (Text.hexNat 4 n).toList = [Text.hexDigit (n / 4096 % 16), Text.hexDigit (n / 256 % 16),
      Text.hexDigit (n / 16 % 16), Text.hexDigit (n % 16)] := by
    rw [Text.hexNat, String.toList_ofList]
    simp [List.range_succ]
  rw [digits, hexUnit?]
  simp [digit]
  omega

theorem length_hexNat (width n : Nat) : (Text.hexNat width n).toList.length = width := by
  rw [Text.hexNat, String.toList_ofList]
  simp

/-- How a character may be written: as an escape of a letter, as one of its number, or as itself. -/
inductive WrittenAs (c : Char) : List Char → Prop
  | letter {letter : Char} : simpleEscape? letter = some c → WrittenAs c ['\\', letter]
  | number : c.toNat < 65536 → c ≠ Text.replacement → WrittenAs c ('\\' :: 'u' :: (Text.hexNat 4 c.toNat).toList)
  | itself : c ≠ '\x22' → c ≠ '\\' → WrittenAs c [c]

theorem writtenAs_escapeChar (c : Char) : WrittenAs c (escapeChar c).toList := by
  have named {n : Nat} (same : c.toNat = n) : c = Char.ofNat n := by
    rw [← same, Char.ofNat_toNat]
  unfold escapeChar
  dsimp only
  split
  · rename_i same
    exact .letter (by rw [same]; rfl)
  rename_i notQuote
  split
  · rename_i same
    exact .letter (by rw [same]; rfl)
  rename_i notBackslash
  -- The five control characters that have a letter.
  iterate 5
    split
    · rename_i same
      exact .letter (by rw [named same]; rfl)
  split
  · rename_i special
    have small : c.toNat < 65536 ∧ c ≠ Text.replacement := by
      rcases special with less | rfl | rfl | rfl | same | same
      · exact ⟨by omega, fun replaced => absurd (replaced ▸ less) (by decide)⟩
      iterate 3 decide
      all_goals exact ⟨by omega, fun replaced => absurd (replaced ▸ same) (by decide)⟩
    rw [String.toList_append]
    exact .number small.1 small.2
  · rw [String.toList_singleton]
    exact .itself notQuote notBackslash

/-- Reading a character in a string undoes writing it. -/
theorem unescape?_escapeChar (c : Char) (rest : List Char) :
    unescape? ((escapeChar c).toList ++ rest) = some (c, rest) := by
  have written := writtenAs_escapeChar c
  generalize (escapeChar c).toList = cs at written ⊢
  cases written with
  | @letter letter meant =>
    have other : letter ≠ 'u' := by rintro rfl; cases meant
    rw [List.cons_append, List.cons_append, List.nil_append, unescape?, meant, Option.map_some]
    exact other
  | number small _ =>
    rw [List.cons_append, List.cons_append, unescape?, hexUnit?_hexNat small, Option.map_some,
      Char.ofNat_toNat, List.drop_left' (length_hexNat 4 c.toNat)]
  | itself notQuote notBackslash =>
    rw [List.singleton_append]
    simp [unescape?, notQuote, notBackslash]

/-- The character or the octet without one that a part of a string stands for, and what follows it. -/
def unmark? : List Char → Option (Option Char × List Char)
  | '\\' :: 'u' :: 'f' :: 'f' :: 'f' :: 'd' :: rest => some (none, rest)
  | cs => (unescape? cs).map fun (c, rest) => (some c, rest)

theorem unmark?_escapeMark (mark : Option Char) (rest : List Char) :
    unmark? ((escapeMark mark).toList ++ rest) = some (mark, rest) := by
  cases mark with
  | none => rfl
  | some c =>
    have read := unescape?_escapeChar c rest
    have written := writtenAs_escapeChar c
    rw [escapeMark]
    generalize (escapeChar c).toList = cs at written read ⊢
    rw [unmark?.eq_def]
    split
    · rename_i escaped
      exfalso
      cases written with
      | letter meant =>
        cases escaped
        cases meant
      | number small other =>
        have digits := hexUnit?_hexNat small rest
        simp only [List.cons_append, List.cons.injEq, true_and] at escaped
        rw [escaped] at digits
        have same : 0xFFFD = c.toNat := Option.some.inj digits
        exact other (Char.toNat_inj.mp same.symm)
      | itself _ notBackslash => exact notBackslash (List.cons_eq_cons.mp escaped).1
    · rw [read, Option.map_some]

/-- The marks of a string up to its closing quote, and what follows it, are determined. -/
theorem escaped_append_inj {marks others : List (Option Char)} {rest more : List Char}
    (same : marks.flatMap (fun m => (escapeMark m).toList) ++ '\x22' :: rest =
      others.flatMap (fun m => (escapeMark m).toList) ++ '\x22' :: more) : marks = others ∧ rest = more := by
  induction marks generalizing others with
  | nil =>
    cases others with
    | nil => exact ⟨rfl, List.tail_eq_of_cons_eq same⟩
    | cons d others =>
      have read := congrArg unmark? same
      rw [List.flatMap_cons, List.append_assoc, unmark?_escapeMark] at read
      cases read
  | cons m marks ih =>
    have read := congrArg unmark? same
    rw [List.flatMap_cons, List.append_assoc, unmark?_escapeMark] at read
    cases others with
    | nil => cases read
    | cons d others =>
      rw [List.flatMap_cons, List.append_assoc, unmark?_escapeMark] at read
      obtain ⟨rfl, rest⟩ := Prod.mk.inj (Option.some.inj read)
      obtain ⟨rfl, rfl⟩ := ih rest
      exact ⟨rfl, rfl⟩

/-- The characters of a string with some marks between quotes. -/
def quotedMarks (marks : List (Option Char)) : List Char :=
  '\x22' :: (marks.flatMap (fun m => (escapeMark m).toList) ++ ['\x22'])

theorem toList_quote (text : String) : (quote text).toList = quotedMarks (text.toList.map some) := by
  rw [quote, String.toList_append, String.toList_append, String.toList_join, List.flatMap_map, quotedMarks,
    List.flatMap_map]
  rfl

theorem toList_quoteRaw (raw : Text.Raw) : (quoteRaw raw).toList = quotedMarks raw.marks := by
  rw [quoteRaw, String.toList_append, String.toList_append, String.toList_join, List.flatMap_map]
  rfl

theorem quotedMarks_append_inj {marks others : List (Option Char)} {rest more : List Char}
    (same : quotedMarks marks ++ rest = quotedMarks others ++ more) : marks = others ∧ rest = more := by
  rw [quotedMarks, quotedMarks, List.cons_append, List.cons_append, List.append_assoc, List.append_assoc] at same
  exact escaped_append_inj (List.tail_eq_of_cons_eq same)

theorem quote_append_inj {text other : String} {rest more : List Char}
    (same : (quote text).toList ++ rest = (quote other).toList ++ more) :
    text = other ∧ rest = more := by
  rw [toList_quote, toList_quote] at same
  obtain ⟨chars, rest⟩ := quotedMarks_append_inj same
  exact ⟨String.toList_inj.mp (List.map_injective_iff.mpr (fun _ _ => Option.some.inj) chars), rest⟩

/-- No text is printed like octets that are no text. -/
theorem quote_append_ne {text : String} {raw : Text.Raw} {rest more : List Char} :
    (quote text).toList ++ rest ≠ (quoteRaw raw).toList ++ more := by
  intro same
  rw [toList_quote, toList_quoteRaw] at same
  exact raw.marks_ne text (quotedMarks_append_inj same).1.symm

/-! ## Laid-out values -/

/-- Which kind of value starts with a character. -/
def kindOf : Char → Nat
  | 'n' => 0
  | 't' | 'f' => 1
  | '\x22' => 2
  | '[' => 3
  | '\x7b' => 4
  | _ => 5

/-- The kind of a value. -/
def kind : Json → Nat
  | .null => 0
  | .bool _ => 1
  | .string _ | .raw _ => 2
  | .array _ => 3
  | .object _ => 4
  | .number _ => 5

/-- A text that a comma or a line break ends, and that does not start like a word, a string, an array
or an object. -/
def IsLaidNumber (text : String) : Prop :=
  (∃ c ∈ text.toList.head?, kindOf c = 5) ∧ ∀ c ∈ text.toList, c ≠ ',' ∧ c ≠ '\n'

mutual
/-- Every number in a value is written so that it ends where its text does. -/
def Laid : Json → Prop
  | .number text => IsLaidNumber text
  | .array items => AllLaid items
  | .object members => AllMembersLaid members
  | _ => True

/-- Every number in listed values ends where its text does. -/
def AllLaid : List Json → Prop
  | [] => True
  | v :: rest => v.Laid ∧ AllLaid rest

/-- Every number in named values ends where its text does. -/
def AllMembersLaid : List (String × Json) → Prop
  | [] => True
  | (_, v) :: rest => v.Laid ∧ AllMembersLaid rest
end

theorem allLaid_iff {items : List Json} : AllLaid items ↔ ∀ v ∈ items, v.Laid := by
  induction items with
  | nil => simp [AllLaid]
  | cons v rest ih => simp [AllLaid, ih]

theorem allMembersLaid_iff {members : List (String × Json)} :
    AllMembersLaid members ↔ ∀ m ∈ members, m.2.Laid := by
  induction members with
  | nil => simp [AllMembersLaid]
  | cons m rest ih => simp [AllMembersLaid, ih]

mutual
/-- Whether every string in a value is a text. -/
def isText : Json → Bool
  | .raw _ => false
  | .array items => allTexts items
  | .object members => allMembersTexts members
  | _ => true

/-- Whether every string in listed values is a text. -/
def allTexts : List Json → Bool
  | [] => true
  | v :: rest => v.isText && allTexts rest

/-- Whether every string in named values is a text. -/
def allMembersTexts : List (String × Json) → Bool
  | [] => true
  | (_, v) :: rest => v.isText && allMembersTexts rest
end

mutual
/-- Two values differ at most in octets of strings that belong to no character. -/
def Alike : Json → Json → Prop
  | .raw a, .raw b => a.marks = b.marks
  | .array items, .array others => AllAlike items others
  | .object members, .object others => AllMembersAlike members others
  | j, k => j = k

/-- Listed values are alike one by one. -/
def AllAlike : List Json → List Json → Prop
  | [], [] => True
  | v :: rest, w :: others => v.Alike w ∧ AllAlike rest others
  | _, _ => False

/-- Named values are alike one by one. -/
def AllMembersAlike : List (String × Json) → List (String × Json) → Prop
  | [], [] => True
  | (name, v) :: rest, (other, w) :: others => name = other ∧ v.Alike w ∧ AllMembersAlike rest others
  | _, _ => False
end

mutual
/-- A value is alike to no other if its strings are texts. -/
theorem Alike.eq : ∀ {j k : Json}, j.Alike k → j.isText = true → j = k
  | .null, k, alike, _ | .bool _, k, alike, _ | .number _, k, alike, _ | .string _, k, alike, _ => by
    cases k <;> exact alike
  | .raw _, _, _, text => by cases text
  | .array items, k, alike, texts => by
    cases k with
    | array others => exact congrArg _ (AllAlike.eq alike texts)
    | _ => exact alike
  | .object members, k, alike, texts => by
    cases k with
    | object others => exact congrArg _ (AllMembersAlike.eq alike texts)
    | _ => exact alike
termination_by structural j => j

theorem AllAlike.eq : ∀ {items others : List Json}, AllAlike items others → allTexts items = true →
    items = others
  | [], [], _, _ => rfl
  | _ :: _, _ :: _, ⟨alike, each⟩, texts => by
    obtain ⟨text, texts⟩ := Bool.and_eq_true_iff.mp texts
    rw [alike.eq text, AllAlike.eq each texts]
termination_by structural items => items

theorem AllMembersAlike.eq : ∀ {members others : List (String × Json)}, AllMembersAlike members others →
    allMembersTexts members = true → members = others
  | [], [], _, _ => rfl
  | (_, _) :: _, (_, _) :: _, ⟨name, alike, each⟩, texts => by
    obtain ⟨text, texts⟩ := Bool.and_eq_true_iff.mp texts
    rw [name, alike.eq text, AllMembersAlike.eq each texts]
termination_by structural members => members
end

theorem laid_strings (texts : List String) : (Json.strings texts).Laid :=
  allLaid_iff.mpr (List.forall_mem_map.mpr fun _ _ => trivial)

/-- Text that may follow a laid-out value: none, or a comma or a line break first. -/
def Follows (rest : List Char) : Prop := ∀ c ∈ rest.head?, c = ',' ∨ c = '\n'

/-- What stands behind an item of an array: the items after it and the end of the array. -/
def moreItems (depth : Nat) : List Json → List Char
  | [] => (newline depth).toList ++ [']']
  | v :: rest =>
    ',' :: ((newline (depth + 1)).toList ++ ((v.indented (depth + 1)).toList ++ moreItems depth rest))

/-- What stands behind a member of an object: the members after it and the end of the object. -/
def moreMembers (depth : Nat) : List (String × Json) → List Char
  | [] => (newline depth).toList ++ ['\x7d']
  | m :: rest =>
    ',' :: ((newline (depth + 1)).toList ++ ((quote m.1).toList ++ (':' :: ' ' ::
      ((m.2.indented (depth + 1)).toList ++ moreMembers depth rest))))

theorem toList_intercalate_cons (first : String) (rest : List String) :
    (",".intercalate (first :: rest)).toList =
      first.toList ++ rest.flatMap fun text => ',' :: text.toList := by
  rw [String.toList_intercalate]
  induction rest generalizing first with
  | nil => simp [List.intercalate]
  | cons second rest ih =>
    have ih := ih second
    rw [List.intercalate] at ih ⊢
    rw [List.map_cons, List.map_cons, List.intersperse_cons_cons, List.flatten_cons, List.flatten_cons,
      ← List.map_cons, ih]
    rfl

theorem indentedItems_eq_map (depth : Nat) (items : List Json) :
    indentedItems depth items = items.map fun v => newline depth ++ v.indented depth := by
  induction items with
  | nil => rfl
  | cons v rest ih => rw [indentedItems, ih, List.map_cons]

theorem indentedMembers_eq_map (depth : Nat) (members : List (String × Json)) :
    indentedMembers depth members =
      members.map fun m => newline depth ++ quote m.1 ++ ": " ++ m.2.indented depth := by
  induction members with
  | nil => rfl
  | cons m rest ih => rw [indentedMembers, ih, List.map_cons]

theorem flatMap_items (depth : Nat) (rest : List Json) :
    (rest.flatMap fun v => ',' :: (newline (depth + 1) ++ v.indented (depth + 1)).toList) ++
      ((newline depth).toList ++ [']']) = moreItems depth rest := by
  induction rest with
  | nil => rfl
  | cons v rest ih => simp [moreItems, ← ih, String.toList_append]

theorem flatMap_members (depth : Nat) (rest : List (String × Json)) :
    (rest.flatMap fun m => ',' ::
        (newline (depth + 1) ++ quote m.1 ++ ": " ++ m.2.indented (depth + 1)).toList) ++
      ((newline depth).toList ++ ['\x7d']) = moreMembers depth rest := by
  induction rest with
  | nil => rfl
  | cons m rest ih => simp [moreMembers, ← ih, String.toList_append]

theorem toList_indented_array (depth : Nat) (v : Json) (rest : List Json) :
    ((Json.array (v :: rest)).indented depth).toList =
      '[' :: ((newline (depth + 1)).toList ++ ((v.indented (depth + 1)).toList ++
        moreItems depth rest)) := by
  rw [indented, indentedItems_eq_map, List.map_cons, ← flatMap_items,
    String.toList_append, String.toList_append, String.toList_append, toList_intercalate_cons,
    List.flatMap_map]
  simp

theorem toList_indented_object (depth : Nat) (m : String × Json) (rest : List (String × Json)) :
    ((Json.object (m :: rest)).indented depth).toList =
      '\x7b' :: ((newline (depth + 1)).toList ++ ((quote m.1).toList ++ (':' :: ' ' ::
        ((m.2.indented (depth + 1)).toList ++ moreMembers depth rest)))) := by
  rw [indented, indentedMembers_eq_map, List.map_cons, ← flatMap_members,
    String.toList_append, String.toList_append, String.toList_append, toList_intercalate_cons,
    List.flatMap_map]
  simp

/-- The first character of a laid-out value tells its kind. -/
theorem kindOf_head_indented (depth : Nat) {j : Json} (laid : j.Laid) :
    ∃ c rest, (j.indented depth).toList = c :: rest ∧ kindOf c = j.kind := by
  cases j with
  | null => exact ⟨'n', ['u', 'l', 'l'], by simp [indented], rfl⟩
  | bool b =>
    cases b with
    | true => exact ⟨'t', ['r', 'u', 'e'], by simp [indented], rfl⟩
    | false => exact ⟨'f', ['a', 'l', 's', 'e'], by simp [indented], rfl⟩
  | number text =>
    obtain ⟨⟨c, head, other⟩, -⟩ := laid
    obtain ⟨rest, chars⟩ := List.head?_eq_some_iff.mp head
    exact ⟨c, rest, chars, other⟩
  | string text => exact ⟨_, _, toList_quote text, rfl⟩
  | raw octets => exact ⟨_, _, toList_quoteRaw octets, rfl⟩
  | array items =>
    cases items with
    | nil => exact ⟨'[', [']'], by simp [indented], rfl⟩
    | cons v rest => exact ⟨_, _, toList_indented_array depth v rest, rfl⟩
  | object members =>
    cases members with
    | nil => exact ⟨'\x7b', ['\x7d'], by simp [indented], rfl⟩
    | cons m rest => exact ⟨_, _, toList_indented_object depth m rest, rfl⟩

/-- The text of a number ends where a comma or a line break follows. -/
theorem number_append_inj {cs ds rest more : List Char} (plain : ∀ c ∈ cs, c ≠ ',' ∧ c ≠ '\n')
    (other : ∀ c ∈ ds, c ≠ ',' ∧ c ≠ '\n') (follows : Follows rest) (followsMore : Follows more)
    (same : cs ++ rest = ds ++ more) : cs = ds ∧ rest = more := by
  induction cs generalizing ds with
  | nil =>
    cases ds with
    | nil => exact ⟨rfl, same⟩
    | cons d ds =>
      have last := follows d (by rw [show rest = d :: (ds ++ more) from same]; rfl)
      have inside := other d List.mem_cons_self
      exact absurd last (not_or.mpr inside)
  | cons c cs ih =>
    cases ds with
    | nil =>
      have last := followsMore c (by rw [← show c :: (cs ++ rest) = more from same]; rfl)
      exact absurd last (not_or.mpr (plain c List.mem_cons_self))
    | cons d ds =>
      rw [List.cons_append, List.cons_append] at same
      obtain ⟨rfl, tails⟩ := List.cons_eq_cons.mp same
      obtain ⟨rfl, rfl⟩ := ih (fun c member => plain c (List.mem_cons_of_mem _ member))
        (fun c member => other c (List.mem_cons_of_mem _ member)) tails
      exact ⟨rfl, rfl⟩

theorem newline_eq_cons (depth : Nat) :
    (newline depth).toList = '\n' :: List.replicate (2 * depth) ' ' := by
  simp [newline]

theorem follows_moreItems (depth : Nat) (items : List Json) (rest : List Char) :
    Follows (moreItems depth items ++ rest) := by
  cases items with
  | nil => rw [moreItems, newline_eq_cons]; rintro c ⟨⟩; exact .inr rfl
  | cons v items => rintro c ⟨⟩; exact .inl rfl

theorem follows_moreMembers (depth : Nat) (members : List (String × Json)) (rest : List Char) :
    Follows (moreMembers depth members ++ rest) := by
  cases members with
  | nil => rw [moreMembers, newline_eq_cons]; rintro c ⟨⟩; exact .inr rfl
  | cons m members => rintro c ⟨⟩; exact .inl rfl

theorem kind_eq_of_append {depth : Nat} {j k : Json} {rest more : List Char} (laid : j.Laid)
    (laidK : k.Laid) (same : (j.indented depth).toList ++ rest = (k.indented depth).toList ++ more) :
    j.kind = k.kind := by
  obtain ⟨c, cs, chars, kind⟩ := kindOf_head_indented depth laid
  obtain ⟨d, ds, others, kindK⟩ := kindOf_head_indented depth laidK
  rw [chars, others] at same
  rw [← kind, ← kindK, (List.cons_eq_cons.mp same).1]

mutual
/-- **A laid-out value and what follows it are determined by their text**, up to octets that belong to no
character. -/
theorem indented_append_alike : ∀ {j k : Json} {depth : Nat} {rest more : List Char}, j.Laid → k.Laid →
    Follows rest → Follows more →
    (j.indented depth).toList ++ rest = (k.indented depth).toList ++ more → j.Alike k ∧ rest = more
  | .null, k, depth, rest, more, laid, laidK, _, _, same => by
    have kinds := kind_eq_of_append laid laidK same
    cases k with
    | null => exact ⟨rfl, List.append_cancel_left same⟩
    | _ => cases kinds
  | .bool b, k, depth, rest, more, laid, laidK, _, _, same => by
    have kinds := kind_eq_of_append laid laidK same
    cases k with
    | bool c =>
      have equal : b = c := by
        cases b <;> cases c <;> first | rfl | simp [indented] at same
      subst equal
      exact ⟨rfl, List.append_cancel_left same⟩
    | _ => cases kinds
  | .number text, k, depth, rest, more, laid, laidK, follows, followsMore, same => by
    have kinds := kind_eq_of_append laid laidK same
    cases k with
    | number other =>
      rw [indented, indented] at same
      obtain ⟨chars, rest⟩ := number_append_inj laid.2 laidK.2 follows followsMore same
      exact ⟨congrArg _ (String.toList_inj.mp chars), rest⟩
    | _ => cases kinds
  | .string text, k, depth, rest, more, laid, laidK, _, _, same => by
    have kinds := kind_eq_of_append laid laidK same
    cases k with
    | string other =>
      rw [indented, indented] at same
      obtain ⟨rfl, rest⟩ := quote_append_inj same
      exact ⟨rfl, rest⟩
    | raw octets => exact absurd same quote_append_ne
    | _ => cases kinds
  | .raw octets, k, depth, rest, more, laid, laidK, _, _, same => by
    have kinds := kind_eq_of_append laid laidK same
    cases k with
    | raw others =>
      rw [indented, indented, toList_quoteRaw, toList_quoteRaw] at same
      exact quotedMarks_append_inj same
    | string text => exact absurd same.symm quote_append_ne
    | _ => cases kinds
  | .array items, k, depth, rest, more, laid, laidK, _, _, same => by
    have kinds := kind_eq_of_append laid laidK same
    cases k with
    | array others =>
      exact array_append_alike laid laidK same
    | _ => cases kinds
  | .object members, k, depth, rest, more, laid, laidK, _, _, same => by
    have kinds := kind_eq_of_append laid laidK same
    cases k with
    | object others =>
      exact object_append_alike laid laidK same
    | _ => cases kinds
termination_by structural j => j

theorem array_append_alike : ∀ {items others : List Json} {depth : Nat} {rest more : List Char},
    AllLaid items → AllLaid others →
    ((array items).indented depth).toList ++ rest = ((array others).indented depth).toList ++ more →
    AllAlike items others ∧ rest = more
  | [], [], _, _, _, _, _, same => ⟨trivial, List.append_cancel_left same⟩
  | [], w :: others, depth, rest, more, _, _, same => by
    rw [toList_indented_array, newline_eq_cons] at same
    simp [indented] at same
  | v :: items, [], depth, rest, more, _, _, same => by
    rw [toList_indented_array, newline_eq_cons] at same
    simp [indented] at same
  | v :: items, w :: others, depth, rest, more, ⟨laid, laidItems⟩, ⟨laidW, laidOthers⟩, same => by
    simp only [toList_indented_array, List.cons_append, List.append_assoc, List.cons.injEq, true_and,
      List.append_cancel_left_eq] at same
    obtain ⟨alike, tails⟩ := indented_append_alike laid laidW (follows_moreItems depth items rest)
      (follows_moreItems depth others more) same
    obtain ⟨each, ends⟩ := moreItems_append_alike laidItems laidOthers tails
    exact ⟨⟨alike, each⟩, ends⟩
termination_by structural items => items

theorem moreItems_append_alike : ∀ {items others : List Json} {depth : Nat} {rest more : List Char},
    AllLaid items → AllLaid others →
    moreItems depth items ++ rest = moreItems depth others ++ more → AllAlike items others ∧ rest = more
  | [], [], _, _, _, _, _, same => ⟨trivial, List.append_cancel_left same⟩
  | [], w :: others, depth, rest, more, _, _, same => by
    rw [moreItems, newline_eq_cons] at same
    cases same
  | v :: items, [], depth, rest, more, _, _, same => by
    rw [moreItems, moreItems, newline_eq_cons depth] at same
    cases same
  | v :: items, w :: others, depth, rest, more, ⟨laid, laidItems⟩, ⟨laidW, laidOthers⟩, same => by
    simp only [moreItems, List.cons_append, List.append_assoc, List.cons.injEq, true_and,
      List.append_cancel_left_eq] at same
    obtain ⟨alike, tails⟩ := indented_append_alike laid laidW (follows_moreItems depth items rest)
      (follows_moreItems depth others more) same
    obtain ⟨each, ends⟩ := moreItems_append_alike laidItems laidOthers tails
    exact ⟨⟨alike, each⟩, ends⟩
termination_by structural items => items

theorem object_append_alike : ∀ {members others : List (String × Json)} {depth : Nat}
    {rest more : List Char}, AllMembersLaid members → AllMembersLaid others →
    ((object members).indented depth).toList ++ rest = ((object others).indented depth).toList ++ more →
    AllMembersAlike members others ∧ rest = more
  | [], [], _, _, _, _, _, same => ⟨trivial, List.append_cancel_left same⟩
  | [], w :: others, depth, rest, more, _, _, same => by
    rw [toList_indented_object, newline_eq_cons] at same
    simp [indented] at same
  | m :: members, [], depth, rest, more, _, _, same => by
    rw [toList_indented_object, newline_eq_cons] at same
    simp [indented] at same
  | (name, v) :: members, (other, w) :: others, depth, rest, more, ⟨laid, laidMembers⟩,
    ⟨laidW, laidOthers⟩, same => by
    simp only [toList_indented_object, List.cons_append, List.append_assoc, List.cons.injEq, true_and,
      List.append_cancel_left_eq] at same
    obtain ⟨rfl, values⟩ := quote_append_inj same
    obtain ⟨alike, tails⟩ := indented_append_alike laid laidW (follows_moreMembers depth members rest)
      (follows_moreMembers depth others more) (List.tail_eq_of_cons_eq (List.tail_eq_of_cons_eq values))
    obtain ⟨each, ends⟩ := moreMembers_append_alike laidMembers laidOthers tails
    exact ⟨⟨rfl, alike, each⟩, ends⟩
termination_by structural members => members

theorem moreMembers_append_alike : ∀ {members others : List (String × Json)} {depth : Nat}
    {rest more : List Char}, AllMembersLaid members → AllMembersLaid others →
    moreMembers depth members ++ rest = moreMembers depth others ++ more →
    AllMembersAlike members others ∧ rest = more
  | [], [], _, _, _, _, _, same => ⟨trivial, List.append_cancel_left same⟩
  | [], w :: others, depth, rest, more, _, _, same => by
    rw [moreMembers, newline_eq_cons] at same
    cases same
  | m :: members, [], depth, rest, more, _, _, same => by
    rw [moreMembers, moreMembers, newline_eq_cons depth] at same
    cases same
  | (name, v) :: members, (other, w) :: others, depth, rest, more, ⟨laid, laidMembers⟩,
    ⟨laidW, laidOthers⟩, same => by
    simp only [moreMembers, List.cons_append, List.append_assoc, List.cons.injEq, true_and,
      List.append_cancel_left_eq] at same
    obtain ⟨rfl, values⟩ := quote_append_inj same
    obtain ⟨alike, tails⟩ := indented_append_alike laid laidW (follows_moreMembers depth members rest)
      (follows_moreMembers depth others more) (List.tail_eq_of_cons_eq (List.tail_eq_of_cons_eq values))
    obtain ⟨each, ends⟩ := moreMembers_append_alike laidMembers laidOthers tails
    exact ⟨⟨rfl, alike, each⟩, ends⟩
termination_by structural members => members
end

end Json

end DocTable
