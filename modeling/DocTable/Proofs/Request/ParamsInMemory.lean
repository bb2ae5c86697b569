import DocTable.Proofs.Keyed
import DocTable.Proofs.Outcome
import DocTable.Request.Compile

/-!
# Parameters in memory

The parameters of a compiler are maps in memory.  Every request starts from them, and so may other compilers:
what is set on the way to a request must not be written through to them.

In `SharedParams.Memory` parameters hold the names and values of placeholders, and other attributes, by the
address of a map that others can hold as well.  `SharedCompiler.new` and `SharedCompiler.compile` work there
step by step: they clone parameters with all maps in them, set parameters of the clones, join placeholders
into the maps of the clones, and share the maps of an option.  Two facts carry the result.  Only new
parameters are set and only new maps are joined into, so everything that was there stays as it was
(`Memory.Extends`).  And no two parameters of a clone hold one map, so joining into it changes one parameter
(`Memory.Draft`).  Therefore compilers in memory answer what compilers answer, and any number of requests
leaves the parameters that they start from as they were (`SharedCompiler.compileAll_spec`).
-/

namespace DocTable

set_option autoImplicit false

namespace SharedParams

/-- A map that parameters hold by its address: names of placeholders, or attributes. -/
inductive TypedMap where
  | names (entries : Fields String)
  | attributes (item : Item)

/-- The value that a map is. -/
def TypedMap.value : TypedMap → Value
  | .names entries => .textMap entries
  | .attributes item => .attributes (some item)

/-- What parameters hold under a name: a typed map, or another value. -/
inductive Held where
  | map (address : Nat)
  | other (value : Value)

/-- Parameters and typed maps by their addresses. -/
structure Memory where
  params : List (Fields Held)
  maps : List TypedMap

namespace Memory

/-- What parameters hold under their names. -/
def entries (m : Memory) (p : Nat) : Fields Held := m.params.getD p []

/-- The value that is held. -/
def value (m : Memory) : Held → Value
  | .map address => (m.maps[address]?).elim .null TypedMap.value
  | .other value => value

/-- The parameters at an address. -/
def read (m : Memory) (p : Nat) : Params := Keyed.mapValues m.value (m.entries p)

/-- Puts a value into memory.  A typed map gets an address of its own. -/
def place (m : Memory) : Value → Held × Memory
  | .textMap entries => (.map m.maps.length, { m with maps := m.maps ++ [.names entries] })
  | .attributes (some item) => (.map m.maps.length, { m with maps := m.maps ++ [.attributes item] })
  | value => (.other value, m)

/-- Changes what parameters hold. -/
def edit (m : Memory) (p : Nat) (change : Fields Held → Fields Held) : Memory :=
  { m with params := m.params.modify p change }

/-- Sets a parameter to what is held elsewhere. -/
def share (m : Memory) (p : Nat) (key : String) (held : Held) : Memory := m.edit p (Keyed.insert key held)

/-- Sets a parameter to a value of its own. -/
def assign (m : Memory) (p : Nat) (key : String) (value : Value) : Memory :=
  let (held, m) := m.place value
  m.share p key held

/-- Makes new parameters. -/
def make (m : Memory) (entries : Fields Held) : Nat × Memory :=
  (m.params.length, { m with params := m.params ++ [entries] })

/-- Overwrites a typed map. -/
def write (m : Memory) (address : Nat) (map : TypedMap) : Memory :=
  { m with maps := m.maps.set address map }

/-- Copies what is held under names. -/
def copies (m : Memory) : Fields Held → Fields Held × Memory
  | [] => ([], m)
  | (key, held) :: rest =>
    let (first, m) := m.place (m.value held)
    let (others, m) := m.copies rest
    ((key, first) :: others, m)

/-- Makes parameters that hold copies of what others hold. -/
def clone (m : Memory) (p : Nat) : Nat × Memory :=
  let (entries, m) := m.copies (m.entries p)
  m.make entries

/-- Sets a parameter on top of another value.  Placeholders are joined into the map that is there. -/
def mergeEntry (m : Memory) (p : Nat) (key : String) (above : Value) : Memory :=
  match Keyed.lookup key (m.entries p) with
  | none => m.assign p key above
  | some held => match held, m.value held, above with
    | .map address, .textMap a, .textMap b =>
      if key = Params.namesKey then m.write address (.names (Keyed.insertAll a b)) else m.assign p key above
    | .map address, .attributes (some a), .attributes (some b) =>
      if key = Params.valuesKey then m.write address (.attributes (Keyed.insertAll a b))
      else m.assign p key above
    | _, .attributes none, .attributes (some []) =>
      if key = Params.valuesKey then m else m.assign p key above
    | _, .attributes (some _), .attributes none =>
      if key = Params.valuesKey then m else m.assign p key above
    | _, _, _ => m.assign p key above

/-- Merges parameters on top of others: both are cloned, and the clone of the others takes them up. -/
def merge (m : Memory) (p above : Nat) : Nat × Memory :=
  let (out, m) := m.clone p
  let (other, m) := m.clone above
  (out, (m.read other).foldl (fun m entry => m.mergeEntry out entry.1 entry.2) m)

/-! ### Memories that grow -/

/-- Something that is held is in memory. -/
def Present (m : Memory) (held : Held) : Prop := ∀ address, held = .map address → address < m.maps.length

/-- What parameters hold is in memory, in the order of its names. -/
structure Sound (m : Memory) : Prop where
  ascending : ∀ p, Keyed.Ascending (m.entries p)
  present : ∀ p, ∀ entry ∈ m.entries p, m.Present entry.2

/-- A memory is as it was, with more behind it. -/
structure Extends (m grown : Memory) : Prop where
  params : m.params <+: grown.params
  maps : m.maps <+: grown.maps

variable {base m grown later : Memory} {p : Nat} {held : Held}

namespace Extends

theorem refl (m : Memory) : m.Extends m := ⟨List.prefix_rfl, List.prefix_rfl⟩

theorem trans (first : m.Extends grown) (second : grown.Extends later) : m.Extends later :=
  ⟨first.params.trans second.params, first.maps.trans second.maps⟩

theorem present (more : m.Extends grown) (there : m.Present held) : grown.Present held :=
  fun address same => (there address same).trans_le more.maps.length_le

theorem value (more : m.Extends grown) (there : m.Present held) : grown.value held = m.value held := by
  cases held with
  | map address =>
    obtain ⟨added, same⟩ := more.maps
    rw [Memory.value, Memory.value, ← same, List.getElem?_append_left (there address rfl)]
  | other value => rfl

theorem entries (more : m.Extends grown) (there : p < m.params.length) : grown.entries p = m.entries p := by
  obtain ⟨added, same⟩ := more.params
  rw [Memory.entries, Memory.entries, List.getD_eq_getElem?_getD, List.getD_eq_getElem?_getD, ← same,
    List.getElem?_append_left there]

end Extends

/-- Parameters that hold the same are the same in a memory with more in it. -/
theorem Sound.read_of_entries (sound : m.Sound) (more : m.Extends grown)
    (same : grown.entries p = m.entries p) : grown.read p = m.read p := by
  rw [read, read, same]
  exact List.map_congr_left fun entry member => by rw [more.value (sound.present p entry member)]

theorem Sound.read_mono (sound : m.Sound) (more : m.Extends grown) (there : p < m.params.length) :
    grown.read p = m.read p :=
  sound.read_of_entries more (more.entries there)

/-- New typed maps keep a memory sound. -/
theorem Sound.of_params (sound : m.Sound) (more : m.Extends grown) (same : grown.params = m.params) :
    grown.Sound := by
  have entries : ∀ p, grown.entries p = m.entries p := fun p => by rw [Memory.entries, Memory.entries, same]
  exact ⟨fun p => entries p ▸ sound.ascending p,
    fun p entry member => more.present (sound.present p entry (entries p ▸ member))⟩

/-! ### Placing and copying -/

/-- Whether a value is a typed map. -/
def isMap : Value → Bool
  | .textMap _ | .attributes (some _) => true
  | _ => false

/-- What placing does: a map that was not there holds the value, unless it is no map. -/
structure Placed (m : Memory) (value : Value) (result : Held × Memory) : Prop where
  grows : m.Extends result.2
  params : result.2.params = m.params
  present : result.2.Present result.1
  value : result.2.value result.1 = value
  new : ∀ address, result.1 = .map address → m.maps.length ≤ address
  noMap : ∀ other, result.1 = .other other → isMap other = false

theorem placed_map (m : Memory) (map : TypedMap) :
    Placed m map.value (.map m.maps.length, { m with maps := m.maps ++ [map] }) where
  grows := ⟨List.prefix_rfl, List.prefix_append _ _⟩
  params := rfl
  present address same := by
    cases same
    rw [List.length_append]
    exact Nat.lt_succ_self _
  value := by
    rw [Memory.value, List.getElem?_concat_length]
    rfl
  new address same := by
    cases same
    exact Nat.le_refl _
  noMap _ same := by cases same

theorem place_spec (m : Memory) (value : Value) : Placed m value (m.place value) := by
  rw [place.eq_def]
  split
  · exact placed_map m (.names _)
  · exact placed_map m (.attributes _)
  · rename_i noNames noAttributes
    refine ⟨.refl m, rfl, fun _ same => ?_, rfl, fun _ same => ?_, fun other same => ?_⟩
    · cases same
    · cases same
    · cases same
      rw [isMap.eq_def]
      split
      · exact absurd rfl (noNames _)
      · exact absurd rfl (noAttributes _)
      · rfl

/-- No two names hold one map. -/
def Apart (entries : Fields Held) : Prop :=
  ∀ first ∈ entries, ∀ second ∈ entries, ∀ address, first.2 = .map address → second.2 = .map address →
    first.1 = second.1

/-- What is held are maps that were not there in a memory, one for each name, and other values. -/
structure Own (base : Memory) (entries : Fields Held) : Prop where
  new : ∀ entry ∈ entries, ∀ address, entry.2 = .map address → base.maps.length ≤ address
  apart : Apart entries
  noMap : ∀ entry ∈ entries, ∀ other, entry.2 = .other other → isMap other = false

/-- What copying does: the copies are the values, in maps of their own. -/
structure Copied (m : Memory) (entries : Fields Held) (result : Fields Held × Memory) : Prop where
  grows : m.Extends result.2
  params : result.2.params = m.params
  present : ∀ entry ∈ result.1, result.2.Present entry.2
  values : Keyed.mapValues result.2.value result.1 = Keyed.mapValues m.value entries
  own : Own m result.1

theorem copies_spec {entries : Fields Held} (there : ∀ entry ∈ entries, m.Present entry.2) :
    Copied m entries (m.copies entries) := by
  induction entries generalizing m with
  | nil =>
    exact ⟨.refl m, rfl, List.forall_mem_nil _, rfl, List.forall_mem_nil _,
      List.forall_mem_nil _, List.forall_mem_nil _⟩
  | cons entry rest ih =>
    obtain ⟨key, held⟩ := entry
    have first := place_spec m (m.value held)
    have presentRest : ∀ entry ∈ rest, m.Present entry.2 := fun entry member =>
      there entry (List.mem_cons_of_mem _ member)
    have others := ih fun entry member => first.grows.present (presentRest entry member)
    rw [copies]
    generalize m.place (m.value held) = placed at first others ⊢
    obtain ⟨copy, between⟩ := placed
    dsimp only at first others ⊢
    generalize between.copies rest = copied at others ⊢
    obtain ⟨tail, after⟩ := copied
    have values : Keyed.mapValues between.value rest = Keyed.mapValues m.value rest :=
      List.map_congr_left fun entry member => by rw [first.grows.value (presentRest entry member)]
    -- the first copy was there before the others, which are maps that were not
    have before : ∀ entry ∈ tail, ∀ address, copy = .map address → entry.2 ≠ .map address := by
      intro entry member address isFirst isLater
      exact absurd (first.present address isFirst) (Nat.not_lt.mpr (others.own.new entry member address isLater))
    refine ⟨first.grows.trans others.grows, others.params.trans first.params, ?_, ?_, ?_, ?_, ?_⟩
    · exact List.forall_mem_cons.mpr ⟨others.grows.present first.present, others.present⟩
    · rw [Keyed.mapValues, List.map_cons, Keyed.mapValues, List.map_cons, others.grows.value first.present,
        first.value]
      exact congrArg _ (others.values.trans values)
    · exact List.forall_mem_cons.mpr ⟨first.new, fun entry member address same =>
        first.grows.maps.length_le.trans (others.own.new entry member address same)⟩
    · intro one oneMember other otherMember address isOne isOther
      rcases List.mem_cons.mp oneMember with rfl | oneLater <;>
        rcases List.mem_cons.mp otherMember with rfl | otherLater
      · rfl
      · exact absurd isOther (before other otherLater address isOne)
      · exact absurd isOne (before one oneLater address isOther)
      · exact others.own.apart one oneLater other otherLater address isOne isOther
    · exact List.forall_mem_cons.mpr ⟨first.noMap, others.own.noMap⟩

/-! ### Parameters that are made -/

section Edited

variable {change : Fields Held → Fields Held}

theorem entries_edit_self (there : p < m.params.length) : (m.edit p change).entries p = change (m.entries p) := by
  rw [entries, entries, edit, List.getD_eq_getElem?_getD, List.getD_eq_getElem?_getD,
    List.getElem?_modify_eq, List.getElem?_eq_getElem there]
  rfl

theorem entries_edit_of_ne {other : Nat} (distinct : p ≠ other) :
    (m.edit p change).entries other = m.entries other := by
  rw [entries, entries, edit, List.getD_eq_getElem?_getD, List.getD_eq_getElem?_getD,
    List.getElem?_modify_ne _ _ distinct]

theorem Sound.edit (sound : m.Sound) (there : p < m.params.length)
    (ascending : Keyed.Ascending (change (m.entries p)))
    (present : ∀ entry ∈ change (m.entries p), m.Present entry.2) : (m.edit p change).Sound := by
  constructor
  · intro other
    by_cases same : p = other
    · rw [← same, entries_edit_self there]
      exact ascending
    · rw [entries_edit_of_ne same]
      exact sound.ascending other
  · intro other
    by_cases same : p = other
    · rw [← same, entries_edit_self there]
      exact present
    · rw [entries_edit_of_ne same]
      exact sound.present other

theorem Extends.edit (more : base.Extends m) (new : base.params.length ≤ p) : base.Extends (m.edit p change) := by
  refine ⟨?_, more.maps⟩
  have prior := more.params
  rw [List.prefix_iff_getElem?] at prior ⊢
  intro i present
  rw [Memory.edit, List.getElem?_modify_ne _ _ (by omega)]
  exact prior i present

end Edited

/-- Parameters that were made after a memory, which is as it was. -/
structure Above (base m : Memory) (p : Nat) (content : Params) : Prop where
  grows : base.Extends m
  sound : m.Sound
  new : base.params.length ≤ p
  there : p < m.params.length
  read : m.read p = content

namespace Above

variable {content : Params}

theorem mono (above : Above base m p content) (more : m.Extends grown) (sound : grown.Sound) :
    Above base grown p content :=
  ⟨above.grows.trans more, sound, above.new, above.there.trans_le more.params.length_le,
    (above.sound.read_mono more above.there).trans above.read⟩

theorem weaken {earlier : Memory} (above : Above base m p content) (more : earlier.Extends base) :
    Above earlier m p content :=
  { above with grows := more.trans above.grows, new := more.params.length_le.trans above.new }

theorem edit (above : Above base m p content) (change : Fields Held → Fields Held)
    (ascending : Keyed.Ascending (change (m.entries p)))
    (present : ∀ entry ∈ change (m.entries p), m.Present entry.2) :
    Above base (m.edit p change) p (Keyed.mapValues m.value (change (m.entries p))) where
  grows := above.grows.edit above.new
  sound := above.sound.edit above.there ascending present
  new := above.new
  there := by
    rw [Memory.edit, List.length_modify]
    exact above.there
  read := by
    rw [Memory.read, entries_edit_self above.there]
    rfl

theorem share (above : Above base m p content) (key : String) (present : m.Present held) :
    Above base (m.share p key held) p (Keyed.insert key (m.value held) content) := by
  have edited := above.edit (Keyed.insert key held) ((above.sound.ascending p).insert key held)
    fun entry member => (Keyed.mem_insert member).elim (fun same => same ▸ present) (above.sound.present p entry)
  rw [Keyed.mapValues_insert] at edited
  exact above.read ▸ edited

theorem place (above : Above base m p content) (value : Value) : Above base (m.place value).2 p content :=
  have placed := place_spec m value
  above.mono placed.grows (above.sound.of_params placed.grows placed.params)

theorem assign (above : Above base m p content) (key : String) (value : Value) :
    Above base (m.assign p key value) p (Keyed.insert key value content) := by
  have placed := place_spec m value
  have shared := (above.place value).share key placed.present
  rw [placed.value] at shared
  exact shared

end Above

/-! ### Cloning and merging -/

theorem entries_make_self (m : Memory) (made : Fields Held) : (m.make made).2.entries m.params.length = made := by
  rw [entries, make, List.getD_eq_getElem?_getD, List.getElem?_concat_length]
  rfl

theorem above_make (sound : m.Sound) {made : Fields Held} (ascending : Keyed.Ascending made)
    (present : ∀ entry ∈ made, m.Present entry.2) :
    Above m (m.make made).2 (m.make made).1 (Keyed.mapValues m.value made) := by
  have grows : m.Extends (m.make made).2 := ⟨List.prefix_append _ _, List.prefix_rfl⟩
  have others : ∀ p, p ≠ m.params.length → (m.make made).2.entries p = m.entries p := by
    intro p distinct
    rw [entries, entries, make, List.getD_eq_getElem?_getD, List.getD_eq_getElem?_getD]
    by_cases there : p < m.params.length
    · rw [List.getElem?_append_left there]
    · rw [List.getElem?_eq_none (Nat.le_of_not_lt there), List.getElem?_eq_none]
      rw [List.length_append, List.length_singleton]
      omega
  refine ⟨grows, ⟨fun p => ?_, fun p => ?_⟩, Nat.le_refl _, ?_, ?_⟩
  · by_cases here : p = m.params.length
    · rw [here, entries_make_self]
      exact ascending
    · rw [others p here]
      exact sound.ascending p
  · by_cases here : p = m.params.length
    · rw [here, entries_make_self]
      exact present
    · rw [others p here]
      exact sound.present p
  · change m.params.length < (m.params ++ [made]).length
    rw [List.length_append]
    exact Nat.lt_succ_self _
  · rw [read, show (m.make made).1 = m.params.length from rfl, entries_make_self]
    rfl

/-- Parameters under way to a request: what they hold is their own. -/
structure Draft (base m : Memory) (p : Nat) (content : Params) : Prop extends Above base m p content where
  own : Own base (m.entries p)

/-- A clone holds what the parameters hold, in maps of its own. -/
theorem draft_clone (sound : m.Sound) (p : Nat) : Draft m (m.clone p).2 (m.clone p).1 (m.read p) := by
  have copied := copies_spec (sound.present p)
  rw [clone, read, ← copied.values]
  generalize m.copies (m.entries p) = result at copied ⊢
  obtain ⟨made, between⟩ := result
  have ascending : Keyed.Ascending made := by
    have values : Keyed.Ascending (Keyed.mapValues between.value made) := by
      rw [copied.values]
      exact Keyed.ascending_mapValues.mpr (sound.ascending p)
    exact Keyed.ascending_mapValues.mp values
  have above := above_make (sound.of_params copied.grows copied.params) ascending copied.present
  refine ⟨above.weaken copied.grows, ?_⟩
  rw [show (between.make made).1 = between.params.length from rfl, entries_make_self]
  exact copied.own

namespace Draft

variable {content : Params}

theorem assign (draft : Draft base m p content) (key : String) (value : Value) :
    Draft base (m.assign p key value) p (Keyed.insert key value content) := by
  refine ⟨draft.toAbove.assign key value, ?_⟩
  have placed := place_spec m value
  rw [Memory.assign]
  generalize m.place value = result at placed ⊢
  obtain ⟨held, between⟩ := result
  have there : p < between.params.length := by
    rw [placed.params]
    exact draft.there
  have same : between.entries p = m.entries p := by rw [entries, entries, placed.params]
  change Own base ((between.share p key held).entries p)
  rw [share, entries_edit_self there, same]
  -- the map that is placed is held under no other name, since it was not there
  have fresh : ∀ entry ∈ m.entries p, ∀ address, held = .map address → entry.2 ≠ .map address := by
    intro entry member address isNew isOld
    exact absurd (draft.sound.present p entry member address isOld) (Nat.not_lt.mpr (placed.new address isNew))
  constructor
  · intro entry member address isMap
    rcases Keyed.mem_insert member with rfl | old
    · exact draft.grows.maps.length_le.trans (placed.new address isMap)
    · exact draft.own.new entry old address isMap
  · intro first firstMember second secondMember address isFirst isSecond
    rcases Keyed.mem_insert firstMember with rfl | firstOld <;>
      rcases Keyed.mem_insert secondMember with rfl | secondOld
    · rfl
    · exact absurd isSecond (fresh second secondOld address isFirst)
    · exact absurd isFirst (fresh first firstOld address isSecond)
    · exact draft.own.apart first firstOld second secondOld address isFirst isSecond
  · intro entry member other isOther
    rcases Keyed.mem_insert member with rfl | old
    · exact placed.noMap other isOther
    · exact draft.own.noMap entry old other isOther

/-- Writing into a map that a name holds changes what the name stands for, and nothing else. -/
theorem write (draft : Draft base m p content) {key : String} {address : Nat}
    (found : Keyed.lookup key (m.entries p) = some (.map address)) (map : TypedMap) :
    Draft base (m.write address map) p (Keyed.insert key map.value content) := by
  have member := Keyed.mem_of_lookup found
  have present := draft.sound.present p _ member address rfl
  have outside := draft.own.new _ member address rfl
  have length : (m.write address map).maps.length = m.maps.length := List.length_set
  have written : (m.write address map).value (.map address) = map.value := by
    rw [value, Memory.write, List.getElem?_set_self present]
    rfl
  have others : ∀ held, held ≠ .map address → (m.write address map).value held = m.value held := by
    intro held distinct
    cases held with
    | map other =>
      have apart : address ≠ other := fun same => distinct (same ▸ rfl)
      rw [value, value, Memory.write, List.getElem?_set_ne apart]
    | other value => rfl
  have keeps : ∀ q, (m.write address map).entries q = m.entries q := fun _ => rfl
  refine ⟨⟨⟨draft.grows.params, ?_⟩, ⟨draft.sound.ascending, fun q entry inside other isMap => ?_⟩, draft.new,
    draft.there, ?_⟩, draft.own⟩
  · have prior := draft.grows.maps
    rw [List.prefix_iff_getElem?] at prior ⊢
    intro i within
    rw [Memory.write, List.getElem?_set_ne (by omega)]
    exact prior i within
  · rw [length]
    exact draft.sound.present q entry inside other isMap
  · have ascendingContent : Keyed.Ascending content := by
      rw [← draft.read]
      exact Keyed.ascending_mapValues.mpr (draft.sound.ascending p)
    have ascendingRead : Keyed.Ascending ((m.write address map).read p) :=
      Keyed.ascending_mapValues.mpr (draft.sound.ascending p)
    refine ascendingRead.ext (ascendingContent.insert key _) fun other => ?_
    rw [Keyed.lookup_insert, ← draft.read, read, read, keeps, Keyed.lookup_mapValues, Keyed.lookup_mapValues]
    split
    · rename_i same
      rw [← same, found]
      exact congrArg some written
    · rename_i distinct
      cases there : Keyed.lookup other (m.entries p) with
      | none => rfl
      | some held =>
        refine congrArg some (others held fun same => distinct ?_)
        exact draft.own.apart _ member _ (Keyed.mem_of_lookup there) address rfl same

/-- Merging a parameter does what merging values does. -/
theorem mergeEntry (draft : Draft base m p content) (key : String) (above : Value) :
    Draft base (m.mergeEntry p key above) p (content.set key above) := by
  have looked : Keyed.lookup key content = (Keyed.lookup key (m.entries p)).map m.value := by
    rw [← draft.read, read, Keyed.lookup_mapValues]
  rw [Memory.mergeEntry, Params.set, looked]
  cases found : Keyed.lookup key (m.entries p) with
  | none => exact draft.assign key above
  | some held =>
    rw [found] at looked
    have unchanged : Keyed.insert key (m.value held) content = content := by
      have ascending : Keyed.Ascending content := by
        rw [← draft.read]
        exact Keyed.ascending_mapValues.mpr (draft.sound.ascending p)
      exact ascending.insert_of_lookup looked
    have noMap : ∀ v, held = .other v → isMap v = false :=
      fun v => draft.own.noMap _ (Keyed.mem_of_lookup found) v
    dsimp only [Option.map_some]
    split
    · rename_i address a b isValue
      rw [isValue, Params.combine]
      split
      · exact draft.write found (.names _)
      · exact draft.assign key _
    · rename_i address a b isValue
      rw [isValue, Params.combine]
      split
      · exact draft.write found (.attributes _)
      · exact draft.assign key _
    · rename_i isValue
      rw [isValue] at unchanged ⊢
      rw [Params.combine]
      split
      · rw [unchanged]
        exact draft
      · exact draft.assign key _
    · rename_i a isValue
      rw [isValue] at unchanged ⊢
      rw [Params.combine]
      split
      · rw [unchanged]
        exact draft
      · exact draft.assign key _
    · rename_i held above _ _ _ noEmpty noNil noNames noAttributes
      -- a typed map is held by its address, so what is left over is replaced
      have replaced : Params.combine key (m.value held) above = above := by
        rw [Params.combine.eq_def]
        split
        · rename_i a b isValue
          cases held with
          | map address => exact (noNames address a b rfl isValue rfl).elim
          | other v => cases (congrArg isMap isValue).symm.trans (noMap v rfl)
        · rename_i a b isValue
          cases held with
          | map address => exact (noAttributes address a b rfl isValue rfl).elim
          | other v => cases (congrArg isMap isValue).symm.trans (noMap v rfl)
        · rename_i isValue
          exact (noEmpty isValue rfl).elim
        · rename_i a isValue
          exact (noNil a isValue rfl).elim
        · rfl
      rw [replaced]
      exact draft.assign key above

theorem mono (draft : Draft base m p content) (more : m.Extends grown) (sound : grown.Sound) :
    Draft base grown p content :=
  ⟨draft.toAbove.mono more sound, more.entries draft.there ▸ draft.own⟩

theorem mergeEntries (draft : Draft base m p content) (above : Params) :
    Draft base (above.foldl (fun m entry => m.mergeEntry p entry.1 entry.2) m) p (content.merge above) := by
  induction above generalizing m content with
  | nil => exact draft
  | cons entry rest ih => exact ih (draft.mergeEntry entry.1 entry.2)

end Draft

/-- Merging clones both parameters, and joins what the second ones hold into the clone of the first. -/
theorem draft_merge (sound : m.Sound) {above : Nat} (there : above < m.params.length) (p : Nat) :
    Draft m (m.merge p above).2 (m.merge p above).1 ((m.read p).merge (m.read above)) := by
  have cloned := draft_clone sound p
  rw [merge]
  generalize m.clone p = result at cloned ⊢
  obtain ⟨out, between⟩ := result
  have other := draft_clone cloned.sound above
  dsimp only at cloned other ⊢
  generalize between.clone above = result at other ⊢
  obtain ⟨copy, after⟩ := result
  dsimp only at other ⊢
  rw [other.read, sound.read_mono cloned.grows there]
  exact (cloned.mono other.grows other.sound).mergeEntries _

end Memory

/-! ## Typing placeholders -/

/-- The typed names that take the place of plain ones, if there are any. -/
def typedNames? (p : Params) : Except Params.Fault (Option Value) :=
  match Keyed.lookup Params.namesKey p with
  | none | some .null | some (.textMap _) => .ok none
  | some (.map fields) => do
    let names ← Params.typedNames fields
    return some (.textMap names)
  | some other => .error (.names other.typeName)

/-- The typed values that take the place of plain ones, if there are any. -/
def typedValues? (p : Params) : Except Params.Fault (Option Value) :=
  match Keyed.lookup Params.valuesKey p with
  | none | some .null | some (.attributes _) => .ok none
  | some (.map fields) => do
    let values ← Params.typedValues fields
    return some (.attributes (some values))
  | some other => .error (.values other.typeName)

/-- Parameters with a parameter replaced, if there is something to replace it. -/
def replaced (p : Params) (key : String) : Option Value → Params
  | none => p
  | some value => Keyed.insert key value p

theorem normalizeNames_eq (p : Params) :
    p.normalizeNames = (typedNames? p).map (replaced p Params.namesKey) := by
  rw [Params.normalizeNames, typedNames?]
  generalize Keyed.lookup Params.namesKey p = found
  cases found with
  | none => rfl
  | some value => cases value with
    | map fields =>
      dsimp only
      cases Params.typedNames fields <;> rfl
    | _ => rfl

theorem normalizeValues_eq (p : Params) :
    p.normalizeValues = (typedValues? p).map (replaced p Params.valuesKey) := by
  rw [Params.normalizeValues, typedValues?]
  generalize Keyed.lookup Params.valuesKey p = found
  cases found with
  | none => rfl
  | some value => cases value with
    | map fields =>
      dsimp only
      cases Params.typedValues fields <;> rfl
    | _ => rfl

namespace Memory

/-- Replaces a parameter, if there is something to replace it. -/
def replace (m : Memory) (p : Nat) (key : String) : Option Value → Memory
  | none => m
  | some value => m.assign p key value

/-- Types the placeholders of a clone. -/
def normalize (m : Memory) (p : Nat) : Except Params.Fault Nat × Memory :=
  let (out, m) := m.clone p
  match typedNames? (m.read out) with
  | .error e => (.error e, m)
  | .ok names? =>
    let m := m.replace out Params.namesKey names?
    match typedValues? (m.read out) with
    | .error e => (.error e, m)
    | .ok values? => (.ok out, m.replace out Params.valuesKey values?)

variable {base m grown : Memory} {p : Nat}

/-- What a step that makes parameters does: what was there is as it was, and the step fails as it does without
a memory, or makes the parameters that it makes there. -/
structure Makes {ε : Type} (base : Memory) (result : Except ε Nat × Memory) (expected : Except ε Params) :
    Prop where
  grows : base.Extends result.2
  sound : result.2.Sound
  answer : (∃ e, result.1 = .error e ∧ expected = .error e) ∨
    ∃ p content, result.1 = .ok p ∧ expected = .ok content ∧ Above base result.2 p content

theorem Above.replace {content : Params} (above : Above base m p content) (key : String) (value? : Option Value) :
    Above base (m.replace p key value?) p (replaced content key value?) := by
  cases value? with
  | none => exact above
  | some value => exact above.assign key value

theorem makes_normalize (sound : m.Sound) (p : Nat) : Makes m (m.normalize p) (m.read p).normalize := by
  have cloned := (draft_clone sound p).toAbove
  rw [normalize, Params.normalize, normalizeNames_eq]
  generalize m.clone p = result at cloned ⊢
  obtain ⟨out, between⟩ := result
  dsimp only at cloned ⊢
  rw [cloned.read]
  cases typedNames? (m.read p) with
  | error e => exact ⟨cloned.grows, cloned.sound, .inl ⟨e, rfl, rfl⟩⟩
  | ok names? =>
    have named := cloned.replace Params.namesKey names?
    dsimp only [Except.map, bind, Except.bind]
    rw [named.read, normalizeValues_eq]
    cases typedValues? (replaced (m.read p) Params.namesKey names?) with
    | error e => exact ⟨named.grows, named.sound, .inl ⟨e, rfl, rfl⟩⟩
    | ok values? =>
      have valued := named.replace Params.valuesKey values?
      exact ⟨valued.grows, valued.sound, .inr ⟨out, _, rfl, rfl, valued⟩⟩

end Memory

/-! ## Options -/

/-- An option of a request.  It sets a parameter to what the option holds, projects, or sets all that other
parameters hold. -/
inductive SharedOption where
  | set (key : String) (held : Held)
  | projection (attributes : List String)
  | params (address : Nat)

namespace SharedOption

/-- The option with the values that are in memory. -/
def read (m : Memory) : SharedOption → RequestOption
  | .set key held => .params [(key, m.value held)]
  | .projection attributes => .projection attributes
  | .params address => .params (m.read address)

/-- What an option holds is in memory. -/
def Present (m : Memory) : SharedOption → Prop
  | .set _ held => m.Present held
  | .projection _ => True
  | .params address => address < m.params.length

theorem read_mono {m grown : Memory} (sound : m.Sound) (grows : m.Extends grown) {option : SharedOption}
    (present : option.Present m) : option.read grown = option.read m := by
  cases option with
  | set key held => rw [read, read, grows.value present]
  | projection attributes => rfl
  | params address => rw [read, read, sound.read_mono grows present]

theorem Present.mono {m grown : Memory} {option : SharedOption} (present : option.Present m)
    (grows : m.Extends grown) : option.Present grown := by
  cases option with
  | set key held => exact grows.present present
  | projection attributes => trivial
  | params address => exact Nat.lt_of_lt_of_le present grows.params.length_le

/-- Sets the parameters of an option.  Other parameters are cloned for it, and a projection joins its names to
a copy of those that are there. -/
def apply (m : Memory) (p : Nat) : SharedOption → Except ProjectionError Unit × Memory
  | .set key held => (.ok (), m.share p key held)
  | .projection attributes => match projectionExpression attributes with
    | .error e => (.error e, m)
    | .ok (expression, aliases) =>
      let m := m.assign p "ProjectionExpression" (.text expression)
      (.ok (), m.assign p Params.namesKey (.textMap (Keyed.insertAll (m.read p).names aliases)))
  | .params address =>
    let (entries, m) := m.copies (m.entries address)
    (.ok (), entries.foldl (fun m entry => m.share p entry.1 entry.2) m)

/-- Sets the parameters of options in order. -/
def applyAll (m : Memory) (p : Nat) : List SharedOption → Except ProjectionError Unit × Memory
  | [] => (.ok (), m)
  | option :: rest => match option.apply m p with
    | (.error e, m) => (.error e, m)
    | (.ok (), m) => applyAll m p rest

open Memory

variable {base m grown : Memory} {p : Nat} {content : Params}

/-- What a step that sets parameters does: what was there is as it was, and the step fails as it does without
a memory, or leaves the parameters that it leaves there. -/
structure Sets {ε : Type} (base : Memory) (p : Nat) (result : Except ε Unit × Memory)
    (expected : Except ε Params) : Prop where
  grows : base.Extends result.2
  sound : result.2.Sound
  answer : (∃ e, result.1 = .error e ∧ expected = .error e) ∨
    ∃ content, result.1 = .ok () ∧ expected = .ok content ∧ Above base result.2 p content

theorem above_shareAll {entries : Fields Held} (above : Above base m p content)
    (present : ∀ entry ∈ entries, m.Present entry.2) :
    Above base (entries.foldl (fun m entry => m.share p entry.1 entry.2) m) p
      (Keyed.insertAll content (Keyed.mapValues m.value entries)) := by
  induction entries generalizing m content with
  | nil => exact above
  | cons entry rest ih =>
    exact ih (above.share entry.1 (present entry List.mem_cons_self)) fun other member =>
      present other (List.mem_cons_of_mem _ member)

theorem sets_apply {option : SharedOption} (sound : base.Sound) (above : Above base m p content)
    (there : option.Present base) :
    Sets base p (option.apply m p) ((option.read base).apply content) := by
  cases option with
  | set key held =>
    have shared := above.share key (above.grows.present there)
    rw [above.grows.value there] at shared
    exact ⟨shared.grows, shared.sound, .inr ⟨_, rfl, rfl, shared⟩⟩
  | projection attributes =>
    rw [apply, read, RequestOption.apply]
    cases projectionExpression attributes with
    | error e => exact ⟨above.grows, above.sound, .inl ⟨e, rfl, rfl⟩⟩
    | ok written =>
      obtain ⟨expression, aliases⟩ := written
      have projected := above.assign "ProjectionExpression" (.text expression)
      have named := projected.assign Params.namesKey
        (.textMap (Keyed.insertAll (Params.names (Keyed.insert "ProjectionExpression" (.text expression) content))
          aliases))
      rw [← projected.read] at named
      exact ⟨named.grows, named.sound, .inr ⟨_, rfl, by rw [projected.read]; rfl, named⟩⟩
  | params address =>
    have copied := copies_spec (above.sound.present address)
    have read : Keyed.mapValues m.value (m.entries address) = base.read address :=
      sound.read_mono above.grows there
    rw [apply]
    generalize m.copies (m.entries address) = result at copied ⊢
    obtain ⟨entries, between⟩ := result
    have shared := above_shareAll (above.mono copied.grows (above.sound.of_params copied.grows copied.params))
      copied.present
    rw [copied.values, read] at shared
    exact ⟨shared.grows, shared.sound, .inr ⟨_, rfl, rfl, shared⟩⟩

theorem sets_applyAll {options : List SharedOption} (sound : base.Sound) (above : Above base m p content)
    (there : ∀ option ∈ options, option.Present base) :
    Sets base p (applyAll m p options) (RequestOption.applyAll content (options.map (read base))) := by
  induction options generalizing m content with
  | nil => exact ⟨above.grows, above.sound, .inr ⟨content, rfl, rfl, above⟩⟩
  | cons option rest ih =>
    have first := sets_apply sound above (there option List.mem_cons_self)
    rw [applyAll, List.map_cons, RequestOption.applyAll]
    generalize option.apply m p = result at first ⊢
    obtain ⟨outcome, between⟩ := result
    rcases first.answer with ⟨e, isError, expected⟩ | ⟨next, isOk, expected, set⟩
    · cases isError
      rw [expected]
      exact ⟨first.grows, first.sound, .inl ⟨e, rfl, rfl⟩⟩
    · cases isOk
      rw [expected]
      exact ih set fun other member => there other (List.mem_cons_of_mem _ member)

end SharedOption

/-! ## Building requests -/

/-- A step on the way from parameters to a request. -/
inductive Step where
  | set (key : String) (value : Value)
  | attach (parameter expression : String) (placeholders : Placeholders)
  | index (path : AccessPath)
  | keep (op : Operation)

namespace Step

/-- What a step makes of parameters. -/
def apply (r : Request) : Step → Request
  | .set key value => Keyed.insert key value r
  | .attach parameter expression placeholders => r.attach parameter expression placeholders
  | .index path => r.withIndex path
  | .keep op => op.allowed r

/-- The steps that an operation takes with documents. -/
def ofBuild (op : Operation) (t : TableSchema) (d extra : Document) : Except CompileError (List Step) :=
  match op with
  | .insert => do
    let item ← d.item
    return [.set "Item" (.attributes (some item)), .keep op]
  | .query => do
    let c ← d.condition
    return [.attach "KeyConditionExpression" c.condition c.placeholders, .index (t.accessPath d), .keep op]
  | .scan => do
    let c ← d.condition
    return [.attach "FilterExpression" c.condition c.placeholders, .keep op]
  | .delete => do
    let key ← t.keyOf d
    let c ← d.condition
    return [.set "Key" (.attributes (some key)), .attach "ConditionExpression" c.condition c.placeholders,
      .keep op]
  | .update => do
    let key ← t.keyOf d
    let directives ← Request.directives extra
    let c ← d.condition
    match Directive.expression c.placeholders directives with
    | (_, .error e) => throw (.field e)
    | (p, .ok expression) =>
      if expression = "" then throw .emptyUpdate
      else return [.set "Key" (.attributes (some key)), .attach "ConditionExpression" c.condition p,
        .attach "UpdateExpression" expression p, .keep op]
  | .replace => do
    let c ← d.condition
    let item ← extra.item
    return [.attach "ConditionExpression" c.condition c.placeholders, .set "Item" (.attributes (some item)),
      .keep op]
  | .other _ => throw (.unknownOperation op)

/-- Building a request is taking the steps of its operation. -/
theorem build_eq (op : Operation) (t : TableSchema) (r : Request) (d extra : Document) :
    Request.build op t r d extra = (ofBuild op t d extra).map fun steps => steps.foldl apply r := by
  cases op with
  | insert =>
    rw [Request.build, ofBuild, Request.insert]
    cases d.item <;> rfl
  | query =>
    rw [Request.build, ofBuild, Request.query]
    cases d.condition <;> rfl
  | scan =>
    rw [Request.build, ofBuild, Request.scan]
    cases d.condition <;> rfl
  | delete =>
    rw [Request.build, ofBuild, Request.delete]
    cases t.keyOf d with
    | error e => rfl
    | ok key => cases d.condition <;> rfl
  | update =>
    rw [Request.build, ofBuild, Request.update]
    cases t.keyOf d with
    | error e => rfl
    | ok key => cases Request.directives extra with
      | error e => rfl
      | ok directives => cases d.condition with
        | error e => rfl
        | ok c =>
          dsimp only [bind, Except.bind]
          generalize Directive.expression c.placeholders directives = written
          obtain ⟨p, outcome⟩ := written
          cases outcome with
          | error e => rfl
          | ok expression =>
            by_cases empty : expression = ""
            · simp only [if_pos empty]
              rfl
            · simp only [if_neg empty]
              rfl
  | replace =>
    rw [Request.build, ofBuild, Request.replace]
    cases d.condition with
    | error e => rfl
    | ok c => cases extra.item <;> rfl
  | other name => rfl

/-- Takes a step in memory.  Placeholders are joined to a copy of those that are there. -/
def run (p : Nat) (m : Memory) : Step → Memory
  | .set key value => m.assign p key value
  | .attach parameter expression placeholders =>
    if expression = "" then m
    else
      let m := m.assign p parameter (.text expression)
      let m :=
        if placeholders.names.isEmpty then m
        else m.assign p Params.namesKey (.textMap (Keyed.insertAll (m.read p).names placeholders.names))
      if placeholders.values.isEmpty then m
      else m.assign p Params.valuesKey
        (.attributes (some (Keyed.insertAll (m.read p).values placeholders.values)))
  | .index (.index name) =>
    if Keyed.contains "IndexName" (m.entries p) then m else m.assign p "IndexName" (.text name)
  | .index _ => m
  | .keep op => m.edit p op.allowed

open Memory

variable {base m : Memory} {p : Nat} {r : Request}

theorem contains_entries (above : Above base m p r) (key : String) :
    Keyed.contains key (m.entries p) = Keyed.contains key r := by
  rw [Keyed.contains, Keyed.contains, ← above.read, Memory.read, Keyed.lookup_mapValues, Option.isSome_map]

theorem above_run (above : Above base m p r) (step : Step) :
    Above base (step.run p m) p (step.apply r) := by
  cases step with
  | set key value => exact above.assign key value
  | attach parameter expression placeholders =>
    rw [run, apply, Request.attach]
    split
    · exact above
    · have written := above.assign parameter (.text expression)
      have named : Above base (if placeholders.names.isEmpty then m.assign p parameter (.text expression)
          else (m.assign p parameter (.text expression)).assign p Params.namesKey (.textMap (Keyed.insertAll
            (Params.names ((m.assign p parameter (.text expression)).read p)) placeholders.names))) p
          (if placeholders.names.isEmpty then Keyed.insert parameter (.text expression) r
          else Keyed.insert Params.namesKey (.textMap (Keyed.insertAll
            (Params.names (Keyed.insert parameter (.text expression) r)) placeholders.names))
            (Keyed.insert parameter (.text expression) r)) := by
        split
        · exact written
        · rw [written.read]
          exact written.assign _ _
      dsimp only
      split
      · exact named
      · rw [named.read]
        exact named.assign _ _
  | index path =>
    cases path with
    | index name =>
      rw [run, apply, Request.withIndex, contains_entries above]
      split
      · exact above
      · exact above.assign _ _
    | _ => exact above
  | keep op =>
    have kept : (op.allowed (m.entries p)).Sublist (m.entries p) := List.filter_sublist
    have edited := above.edit op.allowed (List.Pairwise.sublist kept (above.sound.ascending p))
      fun entry member => above.sound.present p entry (kept.subset member)
    have same : Keyed.mapValues m.value (op.allowed (m.entries p)) = op.allowed r := by
      rw [← above.read, Memory.read, Operation.allowed, Operation.allowed, Keyed.mapValues, Keyed.mapValues,
        List.filter_map]
      rfl
    rw [same] at edited
    exact edited

theorem above_runAll (above : Above base m p r) (steps : List Step) :
    Above base (steps.foldl (run p) m) p (steps.foldl apply r) := by
  induction steps generalizing m r with
  | nil => exact above
  | cons step rest ih => exact ih (above_run above step)

end Step

end SharedParams

/-! ## Compilers -/

open SharedParams

/-- A table's schema with the address of the parameters that its requests start from. -/
structure SharedCompiler where
  schema : TableSchema
  base : Nat

/-- What a compiler is asked to compile. -/
structure SharedCompiler.Call where
  op : Operation
  d : Document
  extra : Document
  options : List SharedOption

namespace SharedCompiler

/-- The compiler with the parameters that are in memory. -/
def read (m : Memory) (c : SharedCompiler) : Compiler := ⟨c.schema, m.read c.base⟩

/-- A compiler for a table, whose parameters are a clone. -/
def new (schema? : Option TableSchema) (m : Memory) (p : Nat) : Except CompileError SharedCompiler × Memory :=
  match schema? with
  | none => (.error .noHashKey, m)
  | some t =>
    if t.hash.isDefined then
      match m.normalize p with
      | (.error e, m) => (.error (.baseParams e), m)
      | (.ok base, m) =>
        if Keyed.contains "TableName" (m.entries base) then (.ok ⟨t, base⟩, m)
        else (.ok ⟨t, base⟩, m.assign base "TableName" (.text t.name))
    else (.error .noHashKey, m)

/-- Builds a request on a clone of parameters. -/
def build (m : Memory) (op : Operation) (t : TableSchema) (start : Nat) (d extra : Document) :
    Except CompileError Nat × Memory :=
  match Step.ofBuild op t d extra with
  | .error e => (.error e, m)
  | .ok steps =>
    let (r, m) := m.clone start
    (.ok r, steps.foldl (Step.run r) m)

/-- Compiles documents with the parameters of options. -/
def compileWith (c : SharedCompiler) (m : Memory) (options : Nat) (op : Operation) (d extra : Document) :
    Except CompileError Nat × Memory :=
  if c.schema.hash.isDefined then
    match m.normalize c.base with
    | (.error e, m) => (.error (.baseParams e), m)
    | (.ok below, m) => match m.normalize options with
      | (.error e, m) => (.error (.optionParams e), m)
      | (.ok above, m) =>
        let (start, m) := m.merge below above
        build m op c.schema start d extra
  else (.error .noHashKey, m)

/-- Compiles documents with options. -/
def compile (c : SharedCompiler) (m : Memory) (call : Call) : Except CompileError Nat × Memory :=
  let (p, m) := m.make []
  match SharedOption.applyAll m p call.options with
  | (.error e, m) => (.error (.projection e), m)
  | (.ok (), m) => c.compileWith m p call.op call.d call.extra

/-- Compiles one call after the other. -/
def compileAll (c : SharedCompiler) (m : Memory) : List Call → List (Except CompileError Nat) × Memory
  | [] => ([], m)
  | call :: rest =>
    let (answer, m) := c.compile m call
    let (answers, m) := c.compileAll m rest
    (answer :: answers, m)

/-- What a call answers with the values that are in memory. -/
def expected (m : Memory) (c : Compiler) (call : Call) : Except CompileError Request :=
  c.compile call.op call.d call.extra (call.options.map (SharedOption.read m))

variable {base m : Memory} {t : TableSchema}

open Memory

theorem makes_build (grows : base.Extends m) (sound : m.Sound) (op : Operation) (t : TableSchema) (start : Nat)
    (d extra : Document) :
    Makes base (build m op t start d extra) (Request.build op t (m.read start) d extra) := by
  rw [build, Step.build_eq]
  cases Step.ofBuild op t d extra with
  | error e => exact ⟨grows, sound, .inl ⟨e, rfl, rfl⟩⟩
  | ok steps =>
    have cloned := ((draft_clone sound start).toAbove.weaken grows)
    have built := Step.above_runAll cloned steps
    exact ⟨built.grows, built.sound, .inr ⟨_, _, rfl, rfl, built⟩⟩

theorem makes_compileWith (grows : base.Extends m) (sound : m.Sound) {c : SharedCompiler} {options : Nat}
    (there : options < m.params.length) (op : Operation) (d extra : Document) :
    Makes base (c.compileWith m options op d extra)
      (DocTable.compileWith op (some c.schema) (m.read c.base) (m.read options) d extra) := by
  rw [compileWith, DocTable.compileWith]
  split
  swap
  · exact ⟨grows, sound, .inl ⟨_, rfl, rfl⟩⟩
  have lower := makes_normalize sound c.base
  generalize m.normalize c.base = result at lower ⊢
  obtain ⟨outcome, typed⟩ := result
  replace grows := grows.trans lower.grows
  rcases lower.answer with ⟨e, isError, failed⟩ | ⟨below, belowParams, isOk, done, belowMade⟩
  · cases isError
    rw [failed]
    exact ⟨grows, lower.sound, .inl ⟨_, rfl, rfl⟩⟩
  cases isOk
  rw [done]
  have upper := makes_normalize lower.sound options
  rw [sound.read_mono lower.grows there] at upper
  dsimp only
  generalize typed.normalize options = result at upper ⊢
  obtain ⟨outcome, normalized⟩ := result
  replace grows := grows.trans upper.grows
  rcases upper.answer with ⟨e, isError, failed⟩ | ⟨above, aboveParams, isOk, done, aboveMade⟩
  · cases isError
    rw [failed]
    exact ⟨grows, upper.sound, .inl ⟨_, rfl, rfl⟩⟩
  cases isOk
  rw [done]
  have merged := draft_merge upper.sound aboveMade.there below
  rw [(belowMade.mono upper.grows upper.sound).read, aboveMade.read] at merged
  dsimp only
  generalize normalized.merge below above = result at merged ⊢
  obtain ⟨start, ready⟩ := result
  dsimp only at merged ⊢
  rw [← merged.read]
  exact makes_build (grows.trans merged.grows) merged.sound _ _ _ _ _

/-- A compiler in memory answers what a compiler answers, with a request that was not there; all else stays as
it was. -/
theorem makes_compile (sound : m.Sound) {c : SharedCompiler} (there : c.base < m.params.length) {call : Call}
    (present : ∀ option ∈ call.options, option.Present m) :
    Makes m (c.compile m call) (expected m (c.read m) call) := by
  have begun : Above m (m.make []).2 (m.make []).1 [] :=
    above_make sound List.Pairwise.nil (List.forall_mem_nil _)
  have options := SharedOption.sets_applyAll sound begun present
  rw [compile, expected, Compiler.compile]
  generalize m.make [] = result at options ⊢
  obtain ⟨p, between⟩ := result
  dsimp only at options ⊢
  generalize SharedOption.applyAll between p call.options = result at options ⊢
  obtain ⟨outcome, applied⟩ := result
  rcases options.answer with ⟨e, isError, failed⟩ | ⟨given, isOk, done, above⟩
  · cases isError
    rw [failed]
    exact ⟨options.grows, options.sound, .inl ⟨_, rfl, rfl⟩⟩
  cases isOk
  rw [done]
  have made := makes_compileWith options.grows options.sound above.there call.op call.d call.extra (c := c)
  rw [sound.read_mono options.grows there, above.read] at made
  exact made

/-- The options of a call are in memory. -/
def Call.Present (m : Memory) (call : Call) : Prop := ∀ option ∈ call.options, option.Present m

theorem expected_mono {grown : Memory} (sound : m.Sound) (grows : m.Extends grown) {call : Call}
    (present : call.Present m) (c : Compiler) : expected grown c call = expected m c call := by
  rw [expected, expected]
  congr 1
  exact List.map_congr_left fun option member => option.read_mono sound grows (present option member)

/-- Compiling keeps everything that was in memory, and answers what a compiler answers to each call. -/
theorem compileAll_spec (sound : m.Sound) {c : SharedCompiler} (there : c.base < m.params.length)
    {calls : List Call} (present : ∀ call ∈ calls, call.Present m) :
    m.Extends (c.compileAll m calls).2 ∧ (c.compileAll m calls).2.Sound ∧
      (c.compileAll m calls).1.map (Except.map (c.compileAll m calls).2.read) =
        calls.map (expected m (c.read m)) := by
  induction calls generalizing m with
  | nil => exact ⟨.refl m, sound, rfl⟩
  | cons call rest ih =>
    have first := makes_compile sound there (present call List.mem_cons_self)
    rw [compileAll]
    generalize c.compile m call = result at first ⊢
    obtain ⟨answer, between⟩ := result
    dsimp only at first ⊢
    have presentRest : ∀ other ∈ rest, other.Present m := fun other member =>
      present other (List.mem_cons_of_mem _ member)
    have presentLater : ∀ other ∈ rest, other.Present between := fun other member option inside =>
      (presentRest other member option inside).mono first.grows
    obtain ⟨grows, soundAfter, answers⟩ := ih first.sound (there.trans_le first.grows.params.length_le) presentLater
    have same : c.read between = c.read m := by rw [read, read, sound.read_mono first.grows there]
    have later : rest.map (expected between (c.read between)) = rest.map (expected m (c.read m)) := by
      rw [same]
      exact List.map_congr_left fun other member => expected_mono sound first.grows (presentRest other member) _
    refine ⟨first.grows.trans grows, soundAfter, ?_⟩
    rw [List.map_cons, List.map_cons, answers, later]
    refine congrArg (· :: _) ?_
    rcases first.answer with ⟨e, isError, failed⟩ | ⟨p, request, isOk, done, made⟩
    · rw [show answer = .error e from isError, failed]
      rfl
    · rw [show answer = .ok p from isOk, done]
      exact congrArg Except.ok ((made.mono grows soundAfter).read)

/-- A compiler that is made in memory is the compiler that is made of its parameters. -/
theorem new_spec (sound : m.Sound) (p : Nat) {c : Compiler} (made : Compiler.new (some t) (m.read p) = .ok c) :
    ∃ s after, new (some t) m p = (.ok s, after) ∧ m.Extends after ∧ after.Sound ∧
      s.base < after.params.length ∧ s.read after = c := by
  have typed := makes_normalize sound p
  rw [Compiler.new] at made
  rw [new]
  split at made
  swap
  · cases made
  rename_i defined
  rw [if_pos defined]
  generalize m.normalize p = result at typed ⊢
  obtain ⟨outcome, between⟩ := result
  rcases typed.answer with ⟨e, isError, failed⟩ | ⟨base, content, isOk, done, above⟩
  · rw [failed] at made
    cases made
  cases isOk
  rw [done] at made
  dsimp only at made ⊢
  rw [Step.contains_entries above]
  split at made <;> rename_i named <;> cases made
  · rw [if_pos named]
    exact ⟨_, _, rfl, above.grows, above.sound, above.there, congrArg (Compiler.mk t) above.read⟩
  · rw [if_neg named]
    have assigned := above.assign "TableName" (.text t.name)
    exact ⟨_, _, rfl, assigned.grows, assigned.sound, assigned.there, congrArg (Compiler.mk t) assigned.read⟩

end SharedCompiler

end DocTable
