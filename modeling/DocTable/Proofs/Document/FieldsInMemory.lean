import DocTable.Document.Update
import DocTable.Fields
import DocTable.Proofs.Keyed
import Mathlib.Data.List.Basic

/-!
# Regrouping fields in place

A document in memory is a slice: a run of cells of some array, with room behind it for further
cells.  A caller may hold several slices of one array, so a cell behind the end of one of them can
be part of another, and appending in place would overwrite it.

`regroup` is the loop that collects the directives of a document in such a memory.  It reads the
document cell by cell from the memory as it is at that moment, keeps for each kind the position of
its directive, copies the fields of a first occurrence, and appends those of a repeated one in place
where its slice has room.

Two facts carry the result.  A slice that the loop appends to has no room or lies in an array that
the loop made (`Slice.Own`), so no array that was there before changes; and no two of these slices
can reach one cell (`Slice.Apart`), so appending to one leaves the others.  Together with the
positions they are the invariant `Regrouping.Sound`; `Regrouping.step_spec` keeps it, and
`regroup_spec` says of whole runs that they find what `Directive.collect` finds and that all arrays
stay as they were.
-/

namespace DocTable

set_option autoImplicit false

/-- Entries with different keys are a map once they are sorted by their keys. -/
theorem Keyed.ofList_eq_mergeSort {α : Type} {entries : Fields α}
    (distinct : (Keyed.keys entries).Nodup) :
    Keyed.ofList entries = entries.mergeSort fun a b => a.1 ≤ b.1 := by
  have sorted := List.mergeSort_perm entries fun a b => decide (a.1 ≤ b.1)
  have distinctSorted : (Keyed.keys (entries.mergeSort fun a b => a.1 ≤ b.1)).Nodup :=
    (sorted.map Prod.fst).nodup_iff.mpr distinct
  have inOrder : (entries.mergeSort fun a b => a.1 ≤ b.1).Pairwise fun a b => decide (a.1 ≤ b.1) :=
    List.pairwise_mergeSort
      (fun a b c below above => by
        simpa using String.le_trans (by simpa using below) (by simpa using above))
      (fun a b => by simpa using String.le_total a.1 b.1) entries
  have ascending : Keyed.Ascending (entries.mergeSort fun a b => a.1 ≤ b.1) :=
    (inOrder.and (List.pairwise_map.mp distinctSorted)).imp fun {a b} below => by
      obtain ⟨below, different⟩ := below
      exact Std.lt_of_le_of_ne (by simpa using below) different
  refine (Keyed.ascending_ofList _).ext ascending fun key => ?_
  rw [Keyed.lookup_ofList_of_nodup distinct]
  cases found : Keyed.lookup key entries with
  | some value =>
    exact (Keyed.lookup_of_mem_of_nodup distinctSorted
      (sorted.mem_iff.mpr (Keyed.mem_of_lookup found))).symm
  | none =>
    refine (Keyed.lookup_eq_none fun entry member same => ?_).symm
    subst same
    have here := Keyed.lookup_of_mem_of_nodup distinct (sorted.mem_iff.mp member)
    rw [found] at here
    cases here

namespace InPlace

/-! ## Slices of arrays -/

/-- A run of cells of an array: where it starts, its cells, and how far it may grow in place. -/
structure Slice where
  array : Nat
  start : Nat
  length : Nat
  capacity : Nat
  deriving DecidableEq, Repr

/-- What a cell holds: a document, a map with its entries in the order in which they are met, null,
or another value. -/
inductive Held where
  | fields (slice : Slice)
  | entries (items : List (String × Held))
  | null
  | other (value : Value)

/-- A named value in memory. -/
abbrev Cell := String × Held

/-- The arrays by their address. -/
abbrev Memory := List (List Cell)

namespace Memory

/-- The cells of an array. -/
def cells (m : Memory) (array : Nat) : List Cell := m.getD array []

/-- The cells of a slice. -/
def read (m : Memory) (s : Slice) : List Cell := ((m.cells s.array).drop s.start).take s.length

/-- Overwrites cells of an array from a position on. -/
def write (m : Memory) (array position : Nat) (new : List Cell) : Memory :=
  m.modify array fun old => old.take position ++ new ++ old.drop (position + new.length)

/-- Puts cells into a new array, with spare cells behind them. -/
def allocate (m : Memory) (new : List Cell) (spare : Nat) : Slice × Memory :=
  (⟨m.length, 0, new.length, new.length + spare⟩, m ++ [new ++ List.replicate spare ("", .null)])

/-- Appends cells to a slice: in place if there is room, else in a new array. -/
def append (spare : Slice → Nat) (m : Memory) (s : Slice) (new : List Cell) : Slice × Memory :=
  if s.length + new.length ≤ s.capacity then
    ({ s with length := s.length + new.length }, m.write s.array (s.start + s.length) new)
  else m.allocate (m.read s ++ new) (spare s)

/-- Copies a slice by appending its cells to its own beginning without any room. -/
def clone (spare : Slice → Nat) (m : Memory) (s : Slice) : Slice × Memory :=
  m.append spare { s with length := 0, capacity := 0 } (m.read s)

/-- A slice lies inside its array. -/
structure Holds (m : Memory) (s : Slice) : Prop where
  present : s.array < m.length
  length_le : s.length ≤ s.capacity
  inside : s.start + s.capacity ≤ (m.cells s.array).length

end Memory

namespace Slice

/-- Appending to the slice never writes into an array of `base`. -/
def Own (base : Memory) (s : Slice) : Prop := s.capacity = 0 ∨ base.length ≤ s.array

/-- Appending to one slice never writes a cell of the other. -/
def Apart (s t : Slice) : Prop := s.array ≠ t.array ∨ s.capacity = 0 ∨ t.capacity = 0

theorem Apart.symm {s t : Slice} (apart : s.Apart t) : t.Apart s :=
  apart.imp Ne.symm Or.symm

end Slice

namespace Memory

variable {m grown base : Memory} {s t : Slice} {new : List Cell}

/-! ### More arrays -/

theorem cells_mono (more : m <+: grown) {array : Nat} (present : array < m.length) :
    grown.cells array = m.cells array := by
  obtain ⟨added, rfl⟩ := more
  rw [cells, cells, List.getD_eq_getElem?_getD, List.getD_eq_getElem?_getD,
    List.getElem?_append_left present]

theorem Holds.mono (holds : m.Holds s) (more : m <+: grown) : grown.Holds s where
  present := holds.present.trans_le more.length_le
  length_le := holds.length_le
  inside := by rw [cells_mono more holds.present]; exact holds.inside

theorem Holds.read_mono (holds : m.Holds s) (more : m <+: grown) :
    grown.read s = m.read s := by
  rw [read, read, cells_mono more holds.present]

theorem Holds.length_read (holds : m.Holds s) : (m.read s).length = s.length := by
  have inside := holds.inside
  have fits := holds.length_le
  rw [read, List.length_take, List.length_drop]
  omega

/-! ### A new array -/

theorem allocate_grows (m : Memory) (new : List Cell) (spare : Nat) :
    m <+: (m.allocate new spare).2 := List.prefix_append _ _

theorem cells_allocate (m : Memory) (new : List Cell) (spare : Nat) :
    (m.allocate new spare).2.cells m.length = new ++ List.replicate spare ("", .null) := by
  rw [allocate, cells, List.getD_eq_getElem?_getD, List.getElem?_concat_length]
  rfl

theorem holds_allocate (m : Memory) (new : List Cell) (spare : Nat) :
    (m.allocate new spare).2.Holds (m.allocate new spare).1 where
  present := by simp [allocate]
  length_le := Nat.le_add_right _ _
  inside := by
    rw [show (m.allocate new spare).1.array = m.length from rfl, cells_allocate]
    simp [allocate]

@[simp] theorem read_allocate (m : Memory) (new : List Cell) (spare : Nat) :
    (m.allocate new spare).2.read (m.allocate new spare).1 = new := by
  rw [read, show (m.allocate new spare).1.array = m.length from rfl, cells_allocate]
  exact List.take_left

/-! ### Writing in place -/

@[simp] theorem length_write (m : Memory) (array position : Nat) (new : List Cell) :
    (m.write array position new).length = m.length := List.length_modify _ _ _

theorem write_nil (m : Memory) (array position : Nat) : m.write array position [] = m := by
  have same : (fun old : List Cell => old.take position ++ [] ++ old.drop (position + 0)) = id := by
    funext old
    rw [List.append_nil, Nat.add_zero, List.take_append_drop]
    rfl
  rw [write, List.length_nil, same, List.modify_id]

theorem cells_write_of_ne (m : Memory) {array other : Nat} (distinct : array ≠ other)
    (position : Nat) (new : List Cell) : (m.write array position new).cells other = m.cells other := by
  rw [cells, cells, List.getD_eq_getElem?_getD, List.getD_eq_getElem?_getD, write,
    List.getElem?_modify_ne _ _ distinct]

theorem cells_write_self (m : Memory) {array : Nat} (present : array < m.length) (position : Nat)
    (new : List Cell) :
    (m.write array position new).cells array =
      (m.cells array).take position ++ new ++ (m.cells array).drop (position + new.length) := by
  rw [cells, cells, List.getD_eq_getElem?_getD, List.getD_eq_getElem?_getD, write,
    List.getElem?_modify_eq, List.getElem?_eq_getElem present]
  rfl

theorem length_cells_write (m : Memory) {array position : Nat}
    (room : position + new.length ≤ (m.cells array).length) (other : Nat) :
    ((m.write array position new).cells other).length = (m.cells other).length := by
  by_cases same : array = other
  · subst same
    by_cases present : array < m.length
    · rw [cells_write_self m present]
      simp only [List.length_append, List.length_take, List.length_drop]
      omega
    · rw [write, List.modify_eq_self (not_lt.mp present)]
  · rw [cells_write_of_ne m same]

theorem prefix_write (prior : base <+: m) {array : Nat} (outside : base.length ≤ array)
    (position : Nat) (new : List Cell) : base <+: m.write array position new := by
  rw [List.prefix_iff_getElem?] at prior ⊢
  intro i present
  rw [write, List.getElem?_modify_ne _ _ (by omega)]
  exact prior i present

/-! ### Appending -/

/-- What appending to a slice does: the slice that results has the new cells behind the old ones, in
the old array or in a new one; other slices and arrays that are not to be written stay. -/
structure Appended (m : Memory) (s : Slice) (new : List Cell) (result : Slice × Memory) : Prop where
  holds : result.2.Holds result.1
  read : result.2.read result.1 = m.read s ++ new
  place : (result.1.array = s.array ∧ result.1.capacity = s.capacity) ∨ result.1.array = m.length
  others : ∀ t, m.Holds t → s.Apart t → result.2.Holds t ∧ result.2.read t = m.read t
  prior : ∀ base, base <+: m → s.Own base → base <+: result.2

/-- Cells written behind the end of a slice are read there. -/
theorem Holds.read_write_end (holds : m.Holds s) (room : s.length + new.length ≤ s.capacity) :
    (m.write s.array (s.start + s.length) new).read { s with length := s.length + new.length } =
      m.read s ++ new := by
  have inside := holds.inside
  rw [read, cells_write_self m holds.present, read]
  have before : ((m.cells s.array).take (s.start + s.length)).length = s.start + s.length := by
    rw [List.length_take]; omega
  change List.take _ (List.drop s.start _) = _
  rw [List.append_assoc, List.drop_append_of_le_length (by omega), List.drop_take,
    Nat.add_sub_cancel_left, ← List.append_assoc, List.take_append_of_le_length]
  · refine List.take_of_length_le ?_
    simp only [List.length_append, List.length_take, List.length_drop]
    omega
  · simp only [List.length_append, List.length_take, List.length_drop]
    omega

/-- Where there is room, the cells behind the end of the slice are overwritten. -/
theorem appended_in_place (holds : m.Holds s) (room : s.length + new.length ≤ s.capacity) :
    Appended m s new
      ({ s with length := s.length + new.length }, m.write s.array (s.start + s.length) new) := by
  have inside := holds.inside
  have fits : s.start + s.length + new.length ≤ (m.cells s.array).length := by omega
  -- a slice without room gets no cells, so nothing is written
  have unwritten : s.capacity = 0 → m.write s.array (s.start + s.length) new = m := by
    intro full
    have none : new = [] := List.eq_nil_of_length_eq_zero (by omega)
    rw [none, write_nil]
  refine ⟨⟨?_, room, ?_⟩, ?_, .inl ⟨rfl, rfl⟩, fun t there apart => ⟨⟨?_, there.length_le, ?_⟩, ?_⟩,
    fun base prior own => ?_⟩
  · exact (length_write ..).symm ▸ holds.present
  · exact (length_cells_write m fits _).symm ▸ inside
  · exact holds.read_write_end room
  · exact (length_write ..).symm ▸ there.present
  · exact (length_cells_write m fits _).symm ▸ there.inside
  · rcases apart with distinct | full | empty
    · rw [read, cells_write_of_ne m distinct, read]
    · rw [unwritten full]
    · have none : t.length = 0 := Nat.le_zero.mp (empty ▸ there.length_le)
      rw [read, read, none, List.take_zero, List.take_zero]
  · rcases own with full | outside
    · exact (unwritten full).symm ▸ prior
    · exact prefix_write prior outside _ _

theorem append_spec (spare : Slice → Nat) (holds : m.Holds s) (new : List Cell) :
    Appended m s new (m.append spare s new) := by
  rw [append]
  split
  · rename_i room
    exact appended_in_place holds room
  · exact ⟨holds_allocate _ _ _, read_allocate _ _ _, .inr rfl,
      fun t there _ => ⟨there.mono (allocate_grows _ _ _),
        there.read_mono (allocate_grows _ _ _)⟩,
      fun base prior _ => prior.trans (allocate_grows _ _ _)⟩

theorem Appended.own {result : Slice × Memory} (appended : Appended m s new result)
    (prior : base <+: m) (own : s.Own base) : result.1.Own base := by
  rcases appended.place with ⟨array, capacity⟩ | array
  · exact own.imp (capacity.trans ·) (array.symm ▸ ·)
  · exact .inr (array ▸ prior.length_le)

theorem Appended.apart {result : Slice × Memory} (appended : Appended m s new result)
    (there : m.Holds t) (apart : s.Apart t) : result.1.Apart t := by
  rcases appended.place with ⟨array, capacity⟩ | array
  · exact apart.imp (array.symm ▸ ·) (Or.imp_left (capacity.trans ·))
  · exact .inl (array ▸ there.present.ne')

/-- A copy has the cells of the original, in an array of its own unless it has no room. -/
theorem clone_spec (spare : Slice → Nat) (holds : m.Holds s) :
    Appended m { s with length := 0, capacity := 0 } (m.read s) (m.clone spare s) := by
  refine append_spec (s := { s with length := 0, capacity := 0 }) spare
    ⟨holds.present, le_rfl, ?_⟩ (m.read s)
  exact (Nat.add_le_add_left (Nat.zero_le _) _).trans holds.inside

end Memory

/-! ## The loop -/

/-- The fields that a directive's value lists, as a slice; an error names the type of a value that
lists none. -/
def Held.slice (m : Memory) : Held → Except String (Slice × Memory)
  | .fields slice => .ok (slice, m)
  | .entries items => .ok (m.allocate (items.mergeSort fun a b => a.1 ≤ b.1) 0)
  | .null => .ok (m.allocate [] 0)
  | .other value => .error value.typeName

/-- The state of the loop: the memory, the directives found so far, and where each kind stands among
them. -/
structure Regrouping where
  memory : Memory
  found : List (DirectiveKind × Slice)
  seen : List (DirectiveKind × Nat)

namespace Regrouping

/-- Puts the fields of a directive of a kind behind those found before. -/
def extend (spare : Slice → Nat) (r : Regrouping) (kind : DirectiveKind) (fields : Slice) :
    Regrouping :=
  match Keyed.lookup kind r.seen with
  | some position =>
    let appended := r.memory.append spare (r.found.getD position (kind, fields)).2
      (r.memory.read fields)
    { r with memory := appended.2, found := r.found.set position (kind, appended.1) }
  | none =>
    let copied := r.memory.clone spare fields
    ⟨copied.2, r.found ++ [(kind, copied.1)], (kind, r.found.length) :: r.seen⟩

/-- Takes in one field of the update document. -/
def step (spare : Slice → Nat) (r : Regrouping) (cell : Cell) : Except UpdateError Regrouping :=
  match DirectiveKind.ofKey? cell.1 with
  | none => .error (.unknownDirective cell.1)
  | some kind => match cell.2.slice r.memory with
    | .error type => .error (.notAnObject cell.1 type)
    | .ok (fields, memory) => .ok (extend spare { r with memory } kind fields)

/-- Takes in the fields of an update document at positions, each as it stands when its turn comes. -/
def run (spare : Slice → Nat) (d : Slice) (r : Regrouping) :
    List Nat → Regrouping × Option UpdateError
  | [] => (r, none)
  | position :: rest => match (r.memory.read d)[position]? with
    | none => (r, none)
    | some cell => match r.step spare cell with
      | .error e => (r, some e)
      | .ok next => next.run spare d rest

end Regrouping

/-- Collects the directives of an update document in memory. -/
def regroup (spare : Slice → Nat) (m : Memory) (d : Slice) : Regrouping × Option UpdateError :=
  Regrouping.run spare d ⟨m, [], []⟩ (List.range d.length)

/-! ## What a memory stands for -/

/-- The field that a cell stands for, if values in memory have these meanings. -/
def Cell.field (meaning : Held → Value) (cell : Cell) : String × Value := (cell.1, meaning cell.2)

/-- Meanings that fit what a memory holds: a slice means the document of its cells, a map the map of
its entries, and any other value itself. -/
def Held.Means (m : Memory) (meaning : Held → Value) : Held → Prop
  | .fields slice => m.Holds slice ∧
    meaning (.fields slice) = .document ((m.read slice).map (Cell.field meaning))
  | .entries items => (Keyed.keys items).Nodup ∧
    meaning (.entries items) = .map (Keyed.ofList (items.map (Cell.field meaning)))
  | .null => meaning .null = .null
  | .other value => meaning (.other value) = value ∧ Directive.fieldsOf? value = none

namespace Held

variable {base m : Memory} {meaning : Held → Value}

/-- The slice of a directive's value has the fields that the value lists; there is none exactly if
the value lists none. -/
theorem slice_spec (more : base <+: m) {held : Held} (means : held.Means base meaning) :
    (∃ fields grown, held.slice m = .ok (fields, grown) ∧ m <+: grown ∧ grown.Holds fields ∧
        Directive.fieldsOf? (meaning held) = some ((grown.read fields).map (Cell.field meaning))) ∨
      (held.slice m = .error (meaning held).typeName ∧
        Directive.fieldsOf? (meaning held) = none) := by
  cases held with
  | fields slice =>
    obtain ⟨holds, value⟩ := means
    refine .inl ⟨slice, m, rfl, List.prefix_rfl, holds.mono more, ?_⟩
    rw [value, holds.read_mono more, Directive.fieldsOf?]
  | entries items =>
    obtain ⟨distinct, value⟩ := means
    refine .inl ⟨(m.allocate _ 0).1, (m.allocate _ 0).2, rfl, m.allocate_grows _ _,
      m.holds_allocate _ _, ?_⟩
    have keys : Keyed.keys (items.map (Cell.field meaning)) = Keyed.keys items := List.map_map
    rw [value, Directive.fieldsOf?, Memory.read_allocate, Document.ofMap,
      Keyed.ofList_eq_mergeSort (keys ▸ distinct), List.map_mergeSort]
    exact fun a _ b _ => rfl
  | null =>
    have value : meaning .null = .null := means
    refine .inl ⟨(m.allocate [] 0).1, (m.allocate [] 0).2, rfl, m.allocate_grows _ _,
      m.holds_allocate _ _, ?_⟩
    rw [value, Memory.read_allocate]
    rfl
  | other held =>
    obtain ⟨value, none⟩ := means
    refine .inr ⟨?_, ?_⟩
    · rw [value]; rfl
    · rw [value, none]

end Held

namespace Regrouping

/-- The directives that a state has found. -/
def directives (meaning : Held → Value) (r : Regrouping) : List Directive :=
  r.found.map fun entry => ⟨entry.1, (r.memory.read entry.2).map (Cell.field meaning)⟩

/-- The invariant of the loop: the arrays of `base` are as they were, every slice found lies in its
array and may be appended to without writing into `base` or into another one, and a kind's position
is that of its first slice. -/
structure Sound (base : Memory) (r : Regrouping) : Prop where
  prior : base <+: r.memory
  holds : ∀ entry ∈ r.found, r.memory.Holds entry.2
  own : ∀ entry ∈ r.found, entry.2.Own base
  apart : r.found.Pairwise fun a b => a.2.Apart b.2
  seen : ∀ kind, Keyed.lookup kind r.seen = (r.found.map Prod.fst).findIdx? (· = kind)

variable {base : Memory} {r : Regrouping} {meaning : Held → Value}

/-- New arrays change nothing of what was found. -/
theorem Sound.grow (sound : r.Sound base) (meaning : Held → Value) {grown : Memory}
    (more : r.memory <+: grown) :
    Sound base { r with memory := grown } ∧
      directives meaning { r with memory := grown } = directives meaning r :=
  ⟨⟨sound.prior.trans more, fun entry member => (sound.holds entry member).mono more, sound.own,
    sound.apart, sound.seen⟩, List.map_congr_left fun entry member => by
      rw [(sound.holds entry member).read_mono more]⟩

end Regrouping

end InPlace

/-! ## The same loop without a memory -/

namespace Directive

theorem merge_of_notMem {directive : Directive} {found : List Directive}
    (absent : directive.kind ∉ found.map Directive.kind) :
    merge directive found = found ++ [directive] := by
  induction found with
  | nil => rfl
  | cons first rest ih =>
    obtain ⟨distinct, absent⟩ := List.ne_and_not_mem_of_not_mem_cons absent
    rw [merge, if_neg (Ne.symm distinct), ih absent, List.cons_append]

theorem merge_of_first {kind : DirectiveKind} {before : List Directive}
    (absent : kind ∉ before.map Directive.kind) (first added : Document) (after : List Directive) :
    merge ⟨kind, added⟩ (before ++ ⟨kind, first⟩ :: after) =
      before ++ ⟨kind, first ++ added⟩ :: after := by
  induction before with
  | nil => exact if_pos rfl
  | cons other rest ih =>
    obtain ⟨distinct, absent⟩ := List.ne_and_not_mem_of_not_mem_cons absent
    rw [List.cons_append, merge, if_neg (Ne.symm distinct), ih absent, List.cons_append]

end Directive

namespace InPlace.Regrouping

variable {base : Memory} {r : Regrouping} {meaning : Held → Value}

/-- A kind that was seen stands at its position, and not before it. -/
theorem Sound.split (sound : r.Sound base) {kind : DirectiveKind} {position : Nat}
    (seen : Keyed.lookup kind r.seen = some position) :
    ∃ before slice after, r.found = before ++ (kind, slice) :: after ∧ before.length = position ∧
      kind ∉ before.map Prod.fst := by
  rw [sound.seen, List.findIdx?_map, List.findIdx?_eq_some_iff_getElem] at seen
  obtain ⟨inside, here, first⟩ := seen
  have same : r.found[position].1 = kind := by simpa using here
  refine ⟨r.found.take position, r.found[position].2, r.found.drop (position + 1), ?_, ?_, ?_⟩
  · rw [← same, Prod.mk.eta, List.getElem_cons_drop, List.take_append_drop]
  · exact List.length_take_of_le inside.le
  · intro member
    obtain ⟨entry, taken, kindOf⟩ := List.mem_map.mp member
    obtain ⟨i, less, rfl⟩ := List.mem_take_iff_getElem.mp taken
    exact first i (by omega) (by simpa using kindOf)

theorem kind_directives : (r.directives meaning).map Directive.kind = r.found.map Prod.fst :=
  List.map_map

/-- A slice that was appended to, put among slices of a sound state that it cannot reach, gives a
sound state in which only its own fields are new. -/
theorem Sound.put (sound : r.Sound base) (meaning : Held → Value)
    {before after : List (DirectiveKind × Slice)} (others : (before ++ after).Sublist r.found)
    {s : Slice} {new : List Cell} {result : Slice × Memory}
    (appended : Memory.Appended r.memory s new result) (own : s.Own base)
    (apart : ∀ entry ∈ before ++ after, s.Apart entry.2) (kind : DirectiveKind)
    (seen : List (DirectiveKind × Nat))
    (positions : ∀ other, Keyed.lookup other seen =
      ((before ++ (kind, result.1) :: after).map Prod.fst).findIdx? (· = other)) :
    Sound base ⟨result.2, before ++ (kind, result.1) :: after, seen⟩ ∧
      directives meaning ⟨result.2, before ++ (kind, result.1) :: after, seen⟩ =
        directives meaning { r with found := before } ++
          ⟨kind, (r.memory.read s ++ new).map (Cell.field meaning)⟩ ::
            directives meaning { r with found := after } := by
  have held : ∀ entry ∈ before ++ after, r.memory.Holds entry.2 :=
    fun entry member => sound.holds entry (others.subset member)
  have kept : ∀ entry ∈ before ++ after, result.2.Holds entry.2 ∧
      result.2.read entry.2 = r.memory.read entry.2 :=
    fun entry member => appended.others _ (held entry member) (apart entry member)
  have mem_put : ∀ entry, entry ∈ before ++ (kind, result.1) :: after ↔
      entry = (kind, result.1) ∨ entry ∈ before ++ after :=
    fun entry => List.perm_middle.mem_iff.trans List.mem_cons
  refine ⟨⟨appended.prior _ sound.prior own, fun entry member => ?_, fun entry member => ?_, ?_,
    positions⟩, ?_⟩
  · rcases (mem_put entry).mp member with rfl | other
    · exact appended.holds
    · exact (kept entry other).1
  · rcases (mem_put entry).mp member with rfl | other
    · exact appended.own sound.prior own
    · exact sound.own entry (others.subset other)
  · refine (List.pairwise_middle fun {_ _} apart => Slice.Apart.symm apart).mpr
      (List.pairwise_cons.mpr ⟨fun entry member => ?_, sound.apart.sublist others⟩)
    exact appended.apart (held entry member) (apart entry member)
  · simp only [directives, List.map_append, List.map_cons, appended.read]
    congr 1
    · exact List.map_congr_left fun entry member => by
        rw [(kept entry (List.mem_append_left _ member)).2]
    · congr 1
      exact List.map_congr_left fun entry member => by
        rw [(kept entry (List.mem_append_right _ member)).2]

/-- A repeated kind: the slice at its position is the only one that changes. -/
theorem Sound.extend_of_seen (sound : r.Sound base) (meaning : Held → Value) (spare : Slice → Nat)
    {kind : DirectiveKind} {position : Nat} (seen : Keyed.lookup kind r.seen = some position)
    (fields : Slice) :
    (r.extend spare kind fields).Sound base ∧
      (r.extend spare kind fields).directives meaning =
        Directive.merge ⟨kind, (r.memory.read fields).map (Cell.field meaning)⟩
          (r.directives meaning) := by
  rw [Regrouping.extend, seen]
  dsimp only
  obtain ⟨before, slice, after, split, rfl, absent⟩ := sound.split seen
  have member : (kind, slice) ∈ r.found := split ▸ by simp
  have apart : ∀ entry ∈ before ++ after, slice.Apart entry.2 := by
    have apart := sound.apart
    rw [split, List.pairwise_middle fun {_ _} apart => Slice.Apart.symm apart] at apart
    exact (List.pairwise_cons.mp apart).1
  have others : (before ++ after).Sublist r.found :=
    split ▸ (List.sublist_cons_self _ _).append_left before
  have chosen : r.found.getD before.length (kind, fields) = (kind, slice) := by
    rw [split, List.getD_eq_getElem?_getD]; simp
  have put : ∀ new, r.found.set before.length (kind, new) = before ++ (kind, new) :: after := by
    intro new
    rw [split, List.set_append_right _ _ le_rfl, Nat.sub_self, List.set_cons_zero]
  have spec := Memory.append_spec spare (sound.holds _ member) (r.memory.read fields)
  rw [chosen, put]
  obtain ⟨kept, found⟩ := sound.put meaning others spec (sound.own _ member) apart kind _
    fun other => by rw [sound.seen, split]; simp
  refine ⟨kept, found.trans ?_⟩
  have before_after : directives meaning r = directives meaning { r with found := before } ++
      ⟨kind, (r.memory.read slice).map (Cell.field meaning)⟩ ::
        directives meaning { r with found := after } := by
    rw [directives, split, List.map_append, List.map_cons]; rfl
  rw [before_after, Directive.merge_of_first (by rwa [kind_directives]), List.map_append]

/-- A kind that was not seen: its fields are copied behind all others. -/
theorem Sound.extend_of_unseen (sound : r.Sound base) (meaning : Held → Value) (spare : Slice → Nat)
    {kind : DirectiveKind} (unseen : Keyed.lookup kind r.seen = none) {fields : Slice}
    (holds : r.memory.Holds fields) :
    (r.extend spare kind fields).Sound base ∧
      (r.extend spare kind fields).directives meaning =
        Directive.merge ⟨kind, (r.memory.read fields).map (Cell.field meaning)⟩
          (r.directives meaning) := by
  rw [Regrouping.extend, unseen]
  dsimp only
  rw [sound.seen, List.findIdx?_eq_none_iff] at unseen
  have absent : kind ∉ r.found.map Prod.fst := fun member => by
    simpa using unseen kind member
  have others : (r.found ++ []).Sublist r.found := by rw [List.append_nil]
  obtain ⟨kept, found⟩ := sound.put meaning others (Memory.clone_spec spare holds) (.inl rfl)
    (fun _ _ => .inr (.inl rfl)) kind ((kind, r.found.length) :: r.seen) fun other => by
      rw [Keyed.lookup, sound.seen, List.map_append, List.findIdx?_append]
      by_cases same : kind = other
      · subst same
        rw [List.findIdx?_eq_none_iff.mpr fun entry member => unseen entry member]
        simp
      · simp [same]
  refine ⟨kept, found.trans ?_⟩
  rw [Directive.merge_of_notMem (by rwa [kind_directives])]
  rfl

/-- **Putting fields behind those of their kind is what merging a directive says**, and keeps the
invariant. -/
theorem Sound.extend (sound : r.Sound base) (meaning : Held → Value) (spare : Slice → Nat)
    (kind : DirectiveKind) {fields : Slice} (holds : r.memory.Holds fields) :
    (r.extend spare kind fields).Sound base ∧
      (r.extend spare kind fields).directives meaning =
        Directive.merge ⟨kind, (r.memory.read fields).map (Cell.field meaning)⟩
          (r.directives meaning) := by
  cases seen : Keyed.lookup kind r.seen with
  | some position => exact sound.extend_of_seen meaning spare seen fields
  | none => exact sound.extend_of_unseen meaning spare seen holds

/-- **One step reads a field as a directive and merges it**, or fails as reading the field does. -/
theorem Sound.step (sound : r.Sound base) (spare : Slice → Nat) {cell : Cell}
    (means : cell.2.Means base meaning) :
    (∃ next directive, r.step spare cell = .ok next ∧
        Directive.ofField cell.1 (meaning cell.2) = .ok directive ∧ next.Sound base ∧
        next.directives meaning = Directive.merge directive (r.directives meaning)) ∨
      ∃ e, r.step spare cell = .error e ∧ Directive.ofField cell.1 (meaning cell.2) = .error e := by
  rw [Regrouping.step, Directive.ofField]
  cases DirectiveKind.ofKey? cell.1 with
  | none => exact .inr ⟨_, rfl, rfl⟩
  | some kind =>
    rcases Held.slice_spec sound.prior means with ⟨fields, grown, slice, more, holds, listed⟩ |
      ⟨slice, listed⟩
    · obtain ⟨soundGrown, same⟩ := sound.grow meaning more
      obtain ⟨kept, merged⟩ := soundGrown.extend meaning spare kind holds
      simp only [slice, listed]
      exact .inl ⟨_, _, rfl, rfl, kept, same ▸ merged⟩
    · simp only [slice, listed]
      exact .inr ⟨_, rfl, rfl⟩

/-- **A run collects the directives of the cells that are left**, as they were in the beginning. -/
theorem Sound.run (spare : Slice → Nat) {d : Slice} (there : base.Holds d)
    (means : ∀ cell ∈ base.read d, cell.2.Means base meaning) (count : Nat) {start : Nat}
    (sound : r.Sound base) (all : start + count = d.length) :
    let result := r.run spare d (List.range' start count)
    result.1.Sound base ∧
      match Directive.collect (r.directives meaning)
        (((base.read d).drop start).map (Cell.field meaning)) with
      | .ok update => result.2 = none ∧ result.1.directives meaning = update
      | .error e => result.2 = some e := by
  induction count generalizing r start with
  | zero =>
    have length := there.length_read
    rw [List.drop_of_length_le (by omega)]
    exact ⟨sound, rfl, rfl⟩
  | succ count ih =>
    have length := there.length_read
    have inside : start < (base.read d).length := by omega
    rw [List.range'_succ, List.drop_eq_getElem_cons inside, List.map_cons]
    have read : (r.memory.read d)[start]? = some (base.read d)[start] := by
      rw [there.read_mono sound.prior, List.getElem?_eq_getElem inside]
    simp only [Regrouping.run, read, Directive.collect, Cell.field]
    rcases sound.step spare (means _ (List.getElem_mem inside)) with
      ⟨next, directive, step, ofField, kept, merged⟩ | ⟨e, step, ofField⟩
    · simp only [step, ofField]
      rw [← merged]
      exact ih kept (by omega)
    · simp only [step, ofField]
      exact ⟨sound, trivial⟩

end InPlace.Regrouping

namespace InPlace

/-- **Collecting directives in memory leaves every array as it was**, whether it succeeds or fails,
and finds what reading the document finds. -/
theorem regroup_spec (spare : Slice → Nat) {m : Memory} {d : Slice} {meaning : Held → Value}
    (there : m.Holds d) (means : ∀ cell ∈ m.read d, cell.2.Means m meaning) :
    m <+: (regroup spare m d).1.memory ∧
      match Directive.ofDocument ((m.read d).map (Cell.field meaning)) with
      | .ok update =>
        (regroup spare m d).2 = none ∧ (regroup spare m d).1.directives meaning = update
      | .error e => (regroup spare m d).2 = some e := by
  have start : Regrouping.Sound m ⟨m, [], []⟩ :=
    ⟨List.prefix_rfl, fun _ member => (by cases member), fun _ member => (by cases member), .nil,
      fun _ => rfl⟩
  have ⟨sound, found⟩ := start.run spare there means d.length (Nat.zero_add _)
  rw [← List.range_eq_range'] at sound found
  exact ⟨sound.prior, found⟩

end InPlace

end DocTable
