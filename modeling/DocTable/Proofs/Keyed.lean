import DocTable.Fields
import Mathlib.Data.List.Forall2
import Mathlib.Data.List.Sort

/-!
# Keyed entries as finite maps

The entries of a keyed list are in strictly ascending key order as long as the list is made by
`insert` and `erase` from the empty one (`Ascending.insert`, `Ascending.erase`).  Such a list has
one entry for a key, so an entry is what looking up its key finds (`lookup_of_mem`), a key that was
taken away is not found again (`lookup_erase_self`), and two such lists that find the same are equal
(`Ascending.ext`).

Looking up after inserting needs no order (`lookup_insert`), and neither does looking up after
inserting many entries, whether they give a key one value (`lookup_insertAll_of_mem`) or repeat what
another list says (`lookup_insertAll_of_agree`).  A relation between the values of two lists with the
same keys (`Matches`) is kept by changing both lists alike.
-/

namespace DocTable.Keyed

set_option autoImplicit false

variable {κ α : Type} [DecidableEq κ]

/-! ## Entries and what is found -/

theorem mem_of_lookup {key : κ} {value : α} {entries : List (κ × α)}
    (found : lookup key entries = some value) : (key, value) ∈ entries := by
  induction entries with
  | nil => simp [lookup] at found
  | cons entry rest ih =>
    obtain ⟨k, v⟩ := entry
    rw [lookup] at found
    split at found
    · rename_i same
      cases found
      simp [same]
    · exact List.mem_cons_of_mem _ (ih found)

theorem lookup_eq_none {key : κ} {entries : List (κ × α)}
    (missing : ∀ entry ∈ entries, entry.1 ≠ key) : lookup key entries = none := by
  cases found : lookup key entries with
  | none => rfl
  | some value => exact absurd rfl (missing _ (mem_of_lookup found))

theorem lookup_mapValues {β : Type} (f : α → β) (key : κ) (entries : List (κ × α)) :
    lookup key (mapValues f entries) = (lookup key entries).map f := by
  induction entries with
  | nil => rfl
  | cons entry rest ih =>
    rw [mapValues, List.map_cons, lookup, lookup]
    split
    · rfl
    · exact ih

theorem contains_iff {key : κ} {entries : List (κ × α)} :
    contains key entries = true ↔ ∃ value, lookup key entries = some value := by
  rw [contains, Option.isSome_iff_exists]

theorem contains_iff_mem_keys {key : κ} {entries : List (κ × α)} :
    contains key entries = true ↔ key ∈ keys entries := by
  induction entries with
  | nil => simp [contains, lookup, keys]
  | cons entry rest ih =>
    obtain ⟨k, v⟩ := entry
    by_cases here : k = key
    · simp [contains, lookup, keys, here]
    · simpa [contains, lookup, keys, here, Ne.symm here] using ih

/-- An entry is the one that its key finds if no other entry has the key. -/
theorem lookup_of_mem_of_nodup {key : κ} {value : α} {entries : List (κ × α)} (distinct : (keys entries).Nodup)
    (member : (key, value) ∈ entries) : lookup key entries = some value := by
  induction entries with
  | nil => cases member
  | cons entry rest ih =>
    obtain ⟨k, v⟩ := entry
    obtain ⟨fresh, distinctRest⟩ := List.nodup_cons.mp distinct
    rw [lookup]
    rcases List.mem_cons.mp member with here | there
    · cases here
      rw [if_pos rfl]
    · have other : k ≠ key := by
        rintro rfl
        exact fresh (List.mem_map.mpr ⟨_, there, rfl⟩)
      rw [if_neg other, ih distinctRest there]

theorem lookup_append (key : κ) (first second : List (κ × α)) :
    lookup key (first ++ second) = (lookup key first).or (lookup key second) := by
  induction first with
  | nil => rfl
  | cons entry rest ih =>
    obtain ⟨k, v⟩ := entry
    rw [List.cons_append, lookup, lookup]
    split
    · rfl
    · exact ih

theorem contains_eq_false_iff {key : κ} {entries : List (κ × α)} :
    contains key entries = false ↔ lookup key entries = none := by
  rw [contains, Option.isSome_eq_false_iff, Option.isNone_iff_eq_none]

theorem lookup_filter_of_not {key : κ} {entries : List (κ × α)} {keep : κ → Bool}
    (dropped : keep key = false) : lookup key (entries.filter fun entry => keep entry.1) = none := by
  refine lookup_eq_none fun entry member same => ?_
  have kept := (List.mem_filter.mp member).2
  rw [same, dropped] at kept
  cases kept

theorem lookup_filter {key : κ} {entries : List (κ × α)} {keep : κ → Bool}
    (kept : keep key = true) :
    lookup key (entries.filter fun entry => keep entry.1) = lookup key entries := by
  induction entries with
  | nil => rfl
  | cons entry rest ih =>
    obtain ⟨k, v⟩ := entry
    by_cases same : k = key
    · subst same
      simp [kept, lookup]
    · rw [List.filter_cons]
      split
      · simp [lookup, same, ih]
      · simp [lookup, same, ih]

/-! ## Inserting -/

section Insert

variable [LT κ] [DecidableLT κ]

theorem lookup_insert (key other : κ) (value : α) (entries : List (κ × α)) :
    lookup other (insert key value entries) =
      if key = other then some value else lookup other entries := by
  split
  · rename_i same
    subst same
    exact lookup_insert_self key value entries
  · rename_i distinct
    exact lookup_insert_of_ne value entries distinct

theorem mem_insert {key : κ} {value : α} {entry : κ × α} {entries : List (κ × α)}
    (member : entry ∈ insert key value entries) : entry = (key, value) ∨ entry ∈ entries := by
  induction entries with
  | nil => simpa [insert] using member
  | cons first rest ih =>
    obtain ⟨k, v⟩ := first
    rw [insert] at member
    split at member
    · simpa using member
    · split at member
      · rcases List.mem_cons.mp member with here | there
        · exact .inl here
        · exact .inr (List.mem_cons_of_mem _ there)
      · rcases List.mem_cons.mp member with here | there
        · exact .inr (here ▸ List.mem_cons_self)
        · exact (ih there).imp_right (List.mem_cons_of_mem _)

theorem mapValues_insert {β : Type} (f : α → β) (key : κ) (value : α) (entries : List (κ × α)) :
    mapValues f (insert key value entries) = insert key (f value) (mapValues f entries) := by
  induction entries with
  | nil => rfl
  | cons entry rest ih =>
    obtain ⟨k, v⟩ := entry
    rw [insert, mapValues, mapValues, List.map_cons, insert]
    split
    · rfl
    · split
      · rfl
      · exact congrArg _ ih

theorem mem_insertAll {entry : κ × α} {base entries : List (κ × α)}
    (member : entry ∈ insertAll base entries) : entry ∈ base ∨ entry ∈ entries := by
  induction entries generalizing base with
  | nil => exact .inl member
  | cons first rest ih =>
    rcases ih member with below | later
    · rcases mem_insert below with rfl | there
      · exact .inr List.mem_cons_self
      · exact .inl there
    · exact .inr (List.mem_cons_of_mem _ later)

/-- Entries that repeat what another list says about their keys make `insertAll` say the same about
a key as that list, if the list below them does. -/
theorem lookup_insertAll_of_agree {key : κ} {base entries other : List (κ × α)}
    (below : lookup key base = lookup key other)
    (agree : ∀ entry ∈ entries, lookup entry.1 other = some entry.2) :
    lookup key (insertAll base entries) = lookup key other := by
  induction entries generalizing base with
  | nil => exact below
  | cons entry rest ih =>
    obtain ⟨k, v⟩ := entry
    rw [insertAll]
    refine ih ?_ fun entry member => agree entry (List.mem_cons_of_mem _ member)
    rw [lookup_insert]
    split
    · rename_i same
      subst same
      exact (agree (k, v) List.mem_cons_self).symm
    · exact below

/-- Of entries that give a key one value, `insertAll` gives the key that value, whatever is below. -/
theorem lookup_insertAll_of_mem {key : κ} {value : α} {base entries : List (κ × α)}
    (member : (key, value) ∈ entries)
    (only : ∀ entry ∈ entries, entry.1 = key → entry.2 = value) :
    lookup key (insertAll base entries) = some value := by
  have stays : ∀ (rest base : List (κ × α)), lookup key base = some value →
      (∀ entry ∈ rest, entry.1 = key → entry.2 = value) →
      lookup key (insertAll base rest) = some value := by
    intro rest
    induction rest with
    | nil => exact fun _ found _ => found
    | cons entry rest ih =>
      intro base found only
      rw [insertAll]
      refine ih _ ?_ fun entry member => only entry (List.mem_cons_of_mem _ member)
      rw [lookup_insert]
      split
      · rename_i same
        rw [only entry List.mem_cons_self same]
      · exact found
  induction entries generalizing base with
  | nil => cases member
  | cons entry rest ih =>
    rw [insertAll]
    rcases List.mem_cons.mp member with here | there
    · subst here
      exact stays rest _ (lookup_insert_self key value base) fun entry member =>
        only entry (List.mem_cons_of_mem _ member)
    · exact ih there fun entry member => only entry (List.mem_cons_of_mem _ member)

/-- The second value of a key replaces the first one. -/
theorem insert_insert [Std.Irrefl (α := κ) (· < ·)] (key : κ) (value other : α)
    (entries : List (κ × α)) : insert key other (insert key value entries) = insert key other entries := by
  induction entries with
  | nil => exact (if_neg (Std.Irrefl.irrefl key)).trans (if_pos rfl)
  | cons entry rest ih =>
    obtain ⟨k, v⟩ := entry
    rw [insert]
    split
    · rename_i less
      rw [insert, if_neg (Std.Irrefl.irrefl key), if_pos rfl, insert, if_pos less]
    · rename_i notLess
      split
      · rename_i same
        rw [insert, if_neg (Std.Irrefl.irrefl key), if_pos rfl, insert, if_neg notLess, if_pos same]
      · rename_i distinct
        rw [insert, if_neg notLess, if_neg distinct, ih, insert, if_neg notLess, if_neg distinct]

end Insert

/-- Entries with different keys find in key order what they find as they stand. -/
theorem lookup_ofList_of_nodup [LT κ] [DecidableLT κ] {entries : List (κ × α)}
    (distinct : (keys entries).Nodup) (key : κ) :
    lookup key (ofList entries) = lookup key entries := by
  have single : ∀ entry ∈ entries, lookup entry.1 entries = some entry.2 :=
    fun _ => lookup_of_mem_of_nodup distinct
  cases found : lookup key entries with
  | none =>
    have below : lookup key ([] : List (κ × α)) = lookup key entries := found.symm
    exact (lookup_insertAll_of_agree below single).trans found
  | some value =>
    refine lookup_insertAll_of_mem (mem_of_lookup found) fun entry member same => ?_
    have here := single entry member
    rw [same, found] at here
    exact (Option.some.inj here).symm

/-! ## Ascending order -/

theorem erase_sublist (key : κ) (entries : List (κ × α)) : (erase key entries).Sublist entries := by
  induction entries with
  | nil => exact .slnil
  | cons entry rest ih =>
    obtain ⟨k, v⟩ := entry
    rw [erase]
    split
    · exact List.sublist_cons_self _ _
    · exact ih.cons_cons _

/-- Taking away the value of a key that has none changes nothing. -/
theorem erase_of_lookup {key : κ} {entries : List (κ × α)} (missing : lookup key entries = none) :
    erase key entries = entries := by
  induction entries with
  | nil => rfl
  | cons entry rest ih =>
    obtain ⟨k, v⟩ := entry
    rw [lookup] at missing
    split at missing
    · cases missing
    · rename_i distinct
      rw [erase, if_neg distinct, ih missing]

section Ascending

variable [LT κ]

/-- Entries in strictly ascending order of their keys. -/
def Ascending (entries : List (κ × α)) : Prop := entries.Pairwise fun a b => a.1 < b.1

instance [DecidableLT κ] (entries : List (κ × α)) : Decidable (Ascending entries) :=
  inferInstanceAs (Decidable (entries.Pairwise fun a b => a.1 < b.1))

omit [DecidableEq κ] in
theorem ascending_mapValues {β : Type} {f : α → β} {entries : List (κ × α)} :
    Ascending (mapValues f entries) ↔ Ascending entries := List.pairwise_map

theorem Ascending.erase {entries : List (κ × α)} (ascending : Ascending entries) (key : κ) :
    Ascending (erase key entries) :=
  List.Pairwise.sublist (erase_sublist key entries) ascending

theorem Ascending.insert [DecidableLT κ] [Trans (α := κ) (· < ·) (· < ·) (· < ·)]
    [Std.Trichotomous (α := κ) (· < ·)] {entries : List (κ × α)} (ascending : Ascending entries)
    (key : κ) (value : α) : Ascending (insert key value entries) := by
  induction entries with
  | nil => exact List.pairwise_singleton _ _
  | cons entry rest ih =>
    obtain ⟨k, v⟩ := entry
    obtain ⟨above, ascendingRest⟩ := List.pairwise_cons.mp ascending
    rw [Keyed.insert]
    split
    · rename_i less
      refine List.pairwise_cons.mpr ⟨fun other member => ?_, ascending⟩
      rcases List.mem_cons.mp member with here | there
      · exact here ▸ less
      · exact Trans.trans less (above other there)
    · rename_i notLess
      split
      · rename_i same
        subst same
        exact List.pairwise_cons.mpr ⟨above, ascendingRest⟩
      · rename_i distinct
        have greater : k < key := by
          refine Decidable.byContradiction fun notGreater => distinct ?_
          exact Std.Trichotomous.trichotomous key k notLess notGreater
        refine List.pairwise_cons.mpr ⟨fun other member => ?_, ih ascendingRest⟩
        rcases mem_insert member with here | there
        · exact here ▸ greater
        · exact above other there

theorem Ascending.insertAll [DecidableLT κ] [Trans (α := κ) (· < ·) (· < ·) (· < ·)]
    [Std.Trichotomous (α := κ) (· < ·)] {base : List (κ × α)} (ascending : Ascending base)
    (entries : List (κ × α)) : Ascending (insertAll base entries) := by
  induction entries generalizing base with
  | nil => exact ascending
  | cons entry rest ih => exact ih (ascending.insert _ _)

theorem ascending_ofList [DecidableLT κ] [Trans (α := κ) (· < ·) (· < ·) (· < ·)]
    [Std.Trichotomous (α := κ) (· < ·)] (entries : List (κ × α)) : Ascending (ofList entries) :=
  Ascending.insertAll List.Pairwise.nil entries

variable [Std.Irrefl (α := κ) (· < ·)]

/-- A key behind all others is inserted at the end. -/
theorem insert_of_above [DecidableLT κ] [Std.Asymm (α := κ) (· < ·)] {key : κ} {entries : List (κ × α)}
    (above : ∀ entry ∈ entries, entry.1 < key) (value : α) :
    insert key value entries = entries ++ [(key, value)] := by
  induction entries with
  | nil => rfl
  | cons entry rest ih =>
    obtain ⟨k, v⟩ := entry
    have less : k < key := above _ List.mem_cons_self
    have distinct : key ≠ k := by
      rintro rfl
      exact Std.Irrefl.irrefl key less
    rw [insert, if_neg (Std.Asymm.asymm _ _ less), if_neg distinct,
      ih fun entry member => above entry (List.mem_cons_of_mem _ member), List.cons_append]

/-- Ascending entries behind all others are inserted as they are. -/
theorem insertAll_of_ascending [DecidableLT κ] [Std.Asymm (α := κ) (· < ·)]
    {base entries : List (κ × α)} (ascending : Ascending (base ++ entries)) :
    insertAll base entries = base ++ entries := by
  induction entries generalizing base with
  | nil => simp [insertAll]
  | cons entry rest ih =>
    obtain ⟨k, v⟩ := entry
    have above : ∀ other ∈ base, other.1 < k := fun other member =>
      (List.pairwise_append.mp ascending).2.2 other member _ List.mem_cons_self
    rw [insertAll, insert_of_above above, ih]
    · simp
    · simpa using ascending

theorem ofList_of_ascending [DecidableLT κ] [Std.Asymm (α := κ) (· < ·)] {entries : List (κ × α)}
    (ascending : Ascending entries) : ofList entries = entries :=
  @insertAll_of_ascending κ α _ _ _ _ _ [] entries ascending

/-- An entry of ascending entries is the one that its key finds. -/
theorem lookup_of_mem {key : κ} {value : α} {entries : List (κ × α)}
    (ascending : Ascending entries) (member : (key, value) ∈ entries) :
    lookup key entries = some value := by
  induction entries with
  | nil => cases member
  | cons entry rest ih =>
    obtain ⟨k, v⟩ := entry
    obtain ⟨above, ascendingRest⟩ := List.pairwise_cons.mp ascending
    rcases List.mem_cons.mp member with here | there
    · cases here
      simp [lookup]
    · have distinct : k ≠ key := by
        intro same
        subst same
        exact Std.Irrefl.irrefl k (above _ there)
      rw [lookup, if_neg distinct]
      exact ih ascendingRest there

/-- What ascending entries say, `insertAll` says after inserting them, whatever is below. -/
theorem lookup_insertAll_of_lookup [DecidableLT κ] {key : κ} {value : α} {entries : List (κ × α)}
    (ascending : Ascending entries) (found : lookup key entries = some value)
    (base : List (κ × α)) : lookup key (insertAll base entries) = some value := by
  refine lookup_insertAll_of_mem (mem_of_lookup found) fun entry member same => ?_
  have here : lookup entry.1 entries = some entry.2 := lookup_of_mem ascending member
  rw [same, found] at here
  exact (Option.some.inj here).symm

/-- Ascending entries that are inserted say what their keys stand for, and the entries below say it of all
other keys. -/
theorem lookup_insertAll [DecidableLT κ] {entries : List (κ × α)} (ascending : Ascending entries) (key : κ)
    (base : List (κ × α)) :
    lookup key (insertAll base entries) = (lookup key entries).or (lookup key base) := by
  induction entries generalizing base with
  | nil => rfl
  | cons entry rest ih =>
    obtain ⟨k, v⟩ := entry
    obtain ⟨above, ascendingRest⟩ := List.pairwise_cons.mp ascending
    rw [insertAll, ih ascendingRest, lookup_insert, lookup]
    split
    · rename_i same
      subst same
      have missing : lookup k rest = none := lookup_eq_none fun other member same => by
        have less := above other member
        rw [same] at less
        exact Std.Irrefl.irrefl k less
      rw [missing]
      rfl
    · rfl

/-- Giving a key the value that it has changes nothing. -/
theorem Ascending.insert_of_lookup [DecidableLT κ] [Std.Asymm (α := κ) (· < ·)] {entries : List (κ × α)}
    (ascending : Ascending entries) {key : κ} {value : α} (found : lookup key entries = some value) :
    Keyed.insert key value entries = entries := by
  induction entries with
  | nil => cases found
  | cons entry rest ih =>
    obtain ⟨k, v⟩ := entry
    obtain ⟨above, ascendingRest⟩ := List.pairwise_cons.mp ascending
    rw [lookup] at found
    rw [Keyed.insert]
    split at found
    · rename_i same
      subst same
      cases found
      rw [if_neg (Std.Irrefl.irrefl k), if_pos rfl]
    · rename_i distinct
      have less : k < key := above _ (mem_of_lookup found)
      rw [if_neg (Std.Asymm.asymm _ _ less), if_neg (Ne.symm distinct), ih ascendingRest found]

theorem lookup_erase_self {entries : List (κ × α)} (ascending : Ascending entries) (key : κ) :
    lookup key (erase key entries) = none := by
  induction entries with
  | nil => rfl
  | cons entry rest ih =>
    obtain ⟨k, v⟩ := entry
    obtain ⟨above, ascendingRest⟩ := List.pairwise_cons.mp ascending
    rw [erase]
    split
    · rename_i same
      subst same
      refine lookup_eq_none fun other member same => ?_
      have less := above other member
      rw [same] at less
      exact Std.Irrefl.irrefl k less
    · rename_i distinct
      rw [lookup, if_neg distinct]
      exact ih ascendingRest

theorem lookup_erase {entries : List (κ × α)} (ascending : Ascending entries) (key other : κ) :
    lookup other (erase key entries) = if key = other then none else lookup other entries := by
  split
  · rename_i same
    subst same
    exact lookup_erase_self ascending key
  · rename_i distinct
    exact lookup_erase_of_ne entries distinct

end Ascending

/-- Ascending entries are determined by what their keys find. -/
theorem Ascending.ext {α : Type} {entries others : Fields α} (ascending : Ascending entries)
    (ascendingOthers : Ascending others) (same : ∀ key, lookup key entries = lookup key others) :
    entries = others := by
  have irreflexive : Std.Irrefl fun first second : String × α => first.1 < second.1 :=
    ⟨fun entry => Std.Irrefl.irrefl entry.1⟩
  have antisymmetric : Std.Antisymm fun first second : String × α => first.1 < second.1 :=
    ⟨fun first second less greater => absurd greater (Std.Asymm.asymm first.1 second.1 less)⟩
  refine List.Pairwise.eq_of_mem_iff ascending ascendingOthers fun entry => ⟨fun member => ?_, fun member => ?_⟩
  · exact mem_of_lookup ((same entry.1).symm.trans (lookup_of_mem ascending member))
  · exact mem_of_lookup ((same entry.1).trans (lookup_of_mem ascendingOthers member))

/-! ## Entries that correspond -/

/-- Entries with the same keys in the same order, and values that are related. -/
def Matches {κ α β : Type} (related : α → β → Prop) : List (κ × α) → List (κ × β) → Prop :=
  List.Forall₂ fun a b => a.1 = b.1 ∧ related a.2 b.2

namespace Matches

variable {κ α β : Type} {related : α → β → Prop} {first : List (κ × α)} {second : List (κ × β)}

theorem imp {other : α → β → Prop} (weaker : ∀ a b, related a b → other a b)
    (matching : Matches related first second) : Matches other first second :=
  List.Forall₂.imp (fun _ _ same => ⟨same.1, weaker _ _ same.2⟩) matching

theorem keys_eq (matching : Matches related first second) : keys first = keys second := by
  induction matching with
  | nil => rfl
  | cons same _ ih => exact congrArg₂ List.cons same.1 ih

theorem ascending [LT κ] (matching : Matches related first second) (ascending : Ascending second) :
    Ascending first := by
  have inOrder : (keys second).Pairwise (· < ·) := List.pairwise_map.mpr ascending
  rw [← matching.keys_eq] at inOrder
  exact List.pairwise_map.mp inOrder

variable [DecidableEq κ]

/-- A key has related values in both, or none in either. -/
theorem lookup (matching : Matches related first second) (key : κ) :
    (Keyed.lookup key first = none ∧ Keyed.lookup key second = none) ∨
      ∃ a b, Keyed.lookup key first = some a ∧ Keyed.lookup key second = some b ∧ related a b := by
  induction matching with
  | nil => exact .inl ⟨rfl, rfl⟩
  | @cons x y _ _ same _ ih =>
    obtain ⟨k, a⟩ := x
    obtain ⟨l, b⟩ := y
    obtain ⟨keys, values⟩ := same
    have sameKey : k = l := keys
    subst sameKey
    rw [Keyed.lookup, Keyed.lookup]
    split
    · exact .inr ⟨a, b, rfl, rfl, values⟩
    · exact ih

theorem erase (matching : Matches related first second) (key : κ) :
    Matches related (Keyed.erase key first) (Keyed.erase key second) := by
  induction matching with
  | nil => exact .nil
  | @cons x y _ _ same rest ih =>
    obtain ⟨k, a⟩ := x
    obtain ⟨l, b⟩ := y
    obtain ⟨keys, values⟩ := same
    have sameKey : k = l := keys
    subst sameKey
    rw [Keyed.erase, Keyed.erase]
    split
    · exact rest
    · exact .cons ⟨rfl, values⟩ ih

theorem insert [LT κ] [DecidableLT κ] (matching : Matches related first second) (key : κ) {a : α} {b : β}
    (values : related a b) : Matches related (Keyed.insert key a first) (Keyed.insert key b second) := by
  induction matching with
  | nil => exact .cons ⟨rfl, values⟩ .nil
  | @cons x y _ _ same rest ih =>
    obtain ⟨k, c⟩ := x
    obtain ⟨l, d⟩ := y
    obtain ⟨keys, others⟩ := same
    have sameKey : k = l := keys
    subst sameKey
    rw [Keyed.insert, Keyed.insert]
    split
    · exact .cons ⟨rfl, values⟩ (.cons ⟨rfl, others⟩ rest)
    · split
      · exact .cons ⟨rfl, values⟩ rest
      · exact .cons ⟨rfl, others⟩ ih

theorem insertAll [LT κ] [DecidableLT κ] (matching : Matches related first second) {base : List (κ × α)}
    {other : List (κ × β)} (below : Matches related base other) :
    Matches related (Keyed.insertAll base first) (Keyed.insertAll other second) := by
  induction matching generalizing base other with
  | nil => exact below
  | @cons x y _ _ same _ ih =>
    obtain ⟨k, a⟩ := x
    obtain ⟨l, b⟩ := y
    obtain ⟨keys, values⟩ := same
    have sameKey : k = l := keys
    subst sameKey
    exact ih (below.insert k values)

theorem ofList [LT κ] [DecidableLT κ] (matching : Matches related first second) :
    Matches related (Keyed.ofList first) (Keyed.ofList second) :=
  matching.insertAll .nil

end Matches

end DocTable.Keyed
