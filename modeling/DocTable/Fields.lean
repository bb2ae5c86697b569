/-!
# Keyed entries in key order

A finite map is a list of entries in strictly ascending key order.  `insert` is a single pass that
replaces the entry of an equal key, so looking up after inserting needs no hypothesis on the list;
sortedness is what makes two equal maps equal lists.  Texts are ordered by their code points, which
is also the order of their octets.
-/

namespace DocTable

set_option autoImplicit false

/-- Named fields, in ascending order of their names. -/
abbrev Fields (α : Type) := List (String × α)

namespace Keyed

variable {κ α β : Type}

/-- The value at a key. -/
def lookup [DecidableEq κ] (key : κ) : List (κ × α) → Option α
  | [] => none
  | (k, v) :: rest => if k = key then some v else lookup key rest

/-- Whether a key has a value. -/
def contains [DecidableEq κ] (key : κ) (entries : List (κ × α)) : Bool :=
  (lookup key entries).isSome

/-- Gives a key a value, in place of the one it may have. -/
def insert [DecidableEq κ] [LT κ] [DecidableLT κ] (key : κ) (value : α) :
    List (κ × α) → List (κ × α)
  | [] => [(key, value)]
  | (k, v) :: rest =>
    if key < k then (key, value) :: (k, v) :: rest
    else if key = k then (key, value) :: rest
    else (k, v) :: insert key value rest

/-- Takes a key's value away. -/
def erase [DecidableEq κ] (key : κ) : List (κ × α) → List (κ × α)
  | [] => []
  | (k, v) :: rest => if k = key then rest else (k, v) :: erase key rest

/-- Inserts entries in order on top of others, so the last value of a key stays. -/
def insertAll [DecidableEq κ] [LT κ] [DecidableLT κ] (base : List (κ × α)) :
    List (κ × α) → List (κ × α)
  | [] => base
  | (k, v) :: rest => insertAll (insert k v base) rest

/-- Entries in key order; the last value of a repeated key stays. -/
def ofList [DecidableEq κ] [LT κ] [DecidableLT κ] (entries : List (κ × α)) : List (κ × α) :=
  insertAll [] entries

/-- Applies a function to every value. -/
def mapValues (f : α → β) (entries : List (κ × α)) : List (κ × β) :=
  entries.map fun entry => (entry.1, f entry.2)

/-- The keys in order. -/
def keys (entries : List (κ × α)) : List κ := entries.map Prod.fst

/-! ## Looking up after a change -/

variable [DecidableEq κ]

theorem lookup_insert_self [LT κ] [DecidableLT κ] (key : κ) (value : α) (entries : List (κ × α)) :
    lookup key (insert key value entries) = some value := by
  induction entries with
  | nil => simp [insert, lookup]
  | cons entry rest ih =>
    obtain ⟨k, v⟩ := entry
    rw [insert]
    split
    · simp [lookup]
    · split
      · simp [lookup]
      · rename_i hne
        simp [lookup, Ne.symm hne, ih]

theorem lookup_insert_of_ne [LT κ] [DecidableLT κ] {key other : κ} (value : α)
    (entries : List (κ × α)) (distinct : key ≠ other) :
    lookup other (insert key value entries) = lookup other entries := by
  induction entries with
  | nil => simp [insert, lookup, distinct]
  | cons entry rest ih =>
    obtain ⟨k, v⟩ := entry
    rw [insert]
    split
    · simp [lookup, distinct]
    · split
      · rename_i same
        subst same
        simp [lookup, distinct]
      · by_cases here : k = other <;> simp [lookup, here, ih]

theorem lookup_erase_of_ne {key other : κ} (entries : List (κ × α)) (distinct : key ≠ other) :
    lookup other (erase key entries) = lookup other entries := by
  induction entries with
  | nil => rfl
  | cons entry rest ih =>
    obtain ⟨k, v⟩ := entry
    rw [erase]
    split
    · rename_i same
      subst same
      simp [lookup, distinct]
    · by_cases here : k = other <;> simp [lookup, here, ih]

end Keyed

end DocTable
