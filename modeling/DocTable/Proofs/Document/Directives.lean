import DocTable.Proofs.Document.FieldsInMemory
import Mathlib.Data.List.Basic

/-!
# Update documents regrouped

Reading an update document sorts its entries by what they do.  `Directive.ofDocument_regroups` says
how: the kinds come in the order in which they first occur, each once, and the fields of a kind are
those of all its entries one after the other, whatever entries of other kinds stand between them.
Nothing else can happen but an error, which is the fault of the first entry that has one
(`Directive.Fault`), an unknown name before a value that lists no fields.

What one entry adds is `Directive.merge`: `kinds_merge` and `fieldsOf_merge` say it for the kinds and
for the fields, `collect_ok` carries both over a whole document, and `collect_error_iff` finds the entry
that stops it.
-/

namespace DocTable

set_option autoImplicit false

theorem DirectiveKind.ofKey?_eq_some_iff {key : String} {kind : DirectiveKind} :
    DirectiveKind.ofKey? key = some kind ↔ kind.key = key := by
  refine ⟨fun found => by simpa using List.find?_some found, ?_⟩
  rintro rfl
  cases kind <;> rfl

theorem DirectiveKind.key_injective : Function.Injective DirectiveKind.key := by
  intro first second same
  cases first <;> cases second <;> first | rfl | simp [DirectiveKind.key] at same

theorem DirectiveKind.ofKey?_eq_none_iff {key : String} :
    DirectiveKind.ofKey? key = none ↔ ∀ kind, DirectiveKind.key kind ≠ key := by
  simp only [Option.eq_none_iff_forall_ne_some, ne_eq, DirectiveKind.ofKey?_eq_some_iff]

namespace Directive

/-! ## One entry -/

/-- A value is a document, a map or null. -/
def ListsFields (value : Value) : Prop :=
  (∃ fields, value = .document fields) ∨ (∃ fields, value = .map fields) ∨ value = .null

/-- The fields that a value lists: those of a document as they stand, those of a map by their names,
and none for null. -/
def listed : Value → Document
  | .document fields => fields
  | .map fields => fields.mergeSort fun a b => a.1 ≤ b.1
  | _ => []

/-- An entry that a directive can be read from. -/
def Readable (entry : String × Value) : Prop :=
  (∃ kind, DirectiveKind.key kind = entry.1) ∧ ListsFields entry.2

/-- What is wrong with an entry: first its name, then its value. -/
def Fault (entry : String × Value) (e : UpdateError) : Prop :=
  ((∀ kind, DirectiveKind.key kind ≠ entry.1) ∧ e = .unknownDirective entry.1) ∨
    ((∃ kind, DirectiveKind.key kind = entry.1) ∧ ¬ ListsFields entry.2 ∧
      e = .notAnObject entry.1 entry.2.typeName)

/-- The maps among the values of a document hold their entries by name. -/
def MapsByName (d : Document) : Prop :=
  ∀ entry ∈ d, ∀ fields, entry.2 = .map fields → Keyed.Ascending fields

/-- Entries by name are sorted already. -/
theorem listed_map {fields : List (String × Value)} (byName : Keyed.Ascending fields) :
    listed (.map fields) = fields := by
  have distinct : (Keyed.keys fields).Nodup :=
    List.pairwise_map.mpr (byName.imp fun {a b} below (same : a.1 = b.1) =>
      Std.Irrefl.irrefl b.1 (same ▸ below))
  rw [listed, ← Keyed.ofList_eq_mergeSort distinct, Keyed.ofList_of_ascending byName]

theorem fieldsOf?_eq_none_iff {value : Value} : fieldsOf? value = none ↔ ¬ ListsFields value := by
  cases value <;> simp [fieldsOf?, ListsFields]

theorem fieldsOf?_eq_listed {value : Value}
    (byName : ∀ fields, value = .map fields → Keyed.Ascending fields) (lists : ListsFields value) :
    fieldsOf? value = some (listed value) := by
  rcases lists with ⟨fields, rfl⟩ | ⟨fields, rfl⟩ | rfl
  · rfl
  · rw [listed_map (byName fields rfl)]
    rfl
  · rfl

/-- Reading an entry gives a directive of its kind with the fields that its value lists. -/
theorem ofField_ok {entry : String × Value} {directive : Directive}
    (byName : ∀ fields, entry.2 = .map fields → Keyed.Ascending fields)
    (read : ofField entry.1 entry.2 = .ok directive) :
    directive.kind.key = entry.1 ∧ ListsFields entry.2 ∧ directive.fields = listed entry.2 := by
  rw [ofField] at read
  split at read
  · cases read
  · rename_i kind named
    split at read
    · cases read
    · rename_i fields found
      cases read
      have lists : ListsFields entry.2 := by
        by_contra none
        rw [fieldsOf?_eq_none_iff.mpr none] at found
        cases found
      refine ⟨DirectiveKind.ofKey?_eq_some_iff.mp named, lists, ?_⟩
      rw [fieldsOf?_eq_listed byName lists] at found
      exact (Option.some.inj found).symm

theorem ofField_error_iff {entry : String × Value} {e : UpdateError} :
    ofField entry.1 entry.2 = .error e ↔ Fault entry e := by
  cases named : DirectiveKind.ofKey? entry.1 with
  | none =>
    have unknown := DirectiveKind.ofKey?_eq_none_iff.mp named
    have never : ¬ ∃ kind, DirectiveKind.key kind = entry.1 := fun ⟨kind, same⟩ => unknown kind same
    simp only [ofField, named, Fault, Except.error.injEq]
    exact ⟨fun same => .inl ⟨unknown, same.symm⟩, fun fault =>
      fault.elim (fun unknown => unknown.2.symm) fun known => absurd known.1 never⟩
  | some kind =>
    have known : ∃ kind, DirectiveKind.key kind = entry.1 :=
      ⟨kind, DirectiveKind.ofKey?_eq_some_iff.mp named⟩
    cases found : fieldsOf? entry.2 with
    | none =>
      simp only [ofField, named, found, Fault, Except.error.injEq]
      exact ⟨fun same => .inr ⟨known, fieldsOf?_eq_none_iff.mp found, same.symm⟩, fun fault =>
        fault.elim (fun unknown => known.elim fun kind same => absurd same (unknown.1 kind))
          fun value => value.2.2.symm⟩
    | some fields =>
      have lists : ListsFields entry.2 := by
        by_contra none
        rw [fieldsOf?_eq_none_iff.mpr none] at found
        cases found
      simp only [ofField, named, found, Fault, reduceCtorEq, false_iff]
      rintro (⟨unknown, -⟩ | ⟨-, none, -⟩)
      · exact known.elim unknown
      · exact none lists

theorem Fault.not_readable {entry : String × Value} {e : UpdateError} (fault : Fault entry e) :
    ¬ Readable entry := by
  rintro ⟨⟨kind, named⟩, lists⟩
  rcases fault with ⟨unknown, -⟩ | ⟨-, none, -⟩
  · exact unknown kind named
  · exact none lists

/-- An entry is readable unless it has a fault. -/
theorem readable_of_no_fault {entry : String × Value} (sound : ∀ e, ¬ Fault entry e) :
    Readable entry := by
  have known : ∃ kind, DirectiveKind.key kind = entry.1 := by
    by_contra unknown
    exact sound _ (.inl ⟨not_exists.mp unknown, rfl⟩)
  refine ⟨known, ?_⟩
  by_contra none
  exact sound _ (.inr ⟨known, none, rfl⟩)

/-! ## Adding one directive -/

/-- The fields of the directives of a kind. -/
def fieldsOf (kind : DirectiveKind) (found : List Directive) : Document :=
  (found.filter fun directive => directive.kind = kind).flatMap fields

theorem kinds_merge (directive : Directive) (found : List Directive) :
    (merge directive found).map kind =
      if directive.kind ∈ found.map kind then found.map kind
      else found.map kind ++ [directive.kind] := by
  induction found with
  | nil => rfl
  | cons first rest ih =>
    rw [merge]
    by_cases same : first.kind = directive.kind
    · simp [same]
    · rw [if_neg same, List.map_cons, ih, List.map_cons]
      simp only [List.mem_cons, Ne.symm same, false_or]
      split <;> rfl

theorem nodup_kinds_merge {found : List Directive} (distinct : (found.map kind).Nodup)
    (directive : Directive) : ((merge directive found).map kind).Nodup := by
  rw [kinds_merge]
  split
  · exact distinct
  · rename_i absent
    exact List.nodup_append_comm.mp (List.nodup_cons.mpr ⟨absent, distinct⟩)

/-- The fields of other kinds stay; those of the directive's kind get the new ones at their end,
because it stands there once. -/
theorem fieldsOf_merge {found : List Directive} (distinct : (found.map kind).Nodup)
    (directive : Directive) (sought : DirectiveKind) :
    fieldsOf sought (merge directive found) =
      fieldsOf sought found ++ if directive.kind = sought then directive.fields else [] := by
  induction found with
  | nil =>
    by_cases here : directive.kind = sought <;> simp [merge, fieldsOf, here]
  | cons first rest ih =>
    obtain ⟨absent, distinct⟩ := List.nodup_cons.mp distinct
    rw [merge]
    by_cases same : first.kind = directive.kind
    · rw [if_pos same]
      by_cases here : directive.kind = sought
      · have none : fieldsOf sought rest = [] := by
          rw [fieldsOf, List.filter_eq_nil_iff.mpr, List.flatMap_nil]
          intro other member found
          refine absent (List.mem_map.mpr ⟨other, member, ?_⟩)
          rw [same, here]
          exact of_decide_eq_true found
        rw [fieldsOf] at none
        simp [fieldsOf, same, here, none]
      · simp [fieldsOf, same, here]
    · rw [if_neg same]
      have ih := ih distinct
      rw [fieldsOf, fieldsOf] at ih
      by_cases here : first.kind = sought
      · simp [fieldsOf, here, ih]
      · simp [fieldsOf, here, ih]

/-- A directive whose kind stands there once has all fields of its kind. -/
theorem fieldsOf_of_mem {found : List Directive} (distinct : (found.map kind).Nodup)
    {directive : Directive} (member : directive ∈ found) :
    fieldsOf directive.kind found = directive.fields := by
  obtain ⟨before, after, rfl⟩ := List.append_of_mem member
  rw [List.map_append, List.map_cons, List.nodup_middle, List.nodup_cons, ← List.map_append] at distinct
  have others : ∀ {part : List Directive}, part ⊆ before ++ after →
      part.filter (fun other => other.kind = directive.kind) = [] := fun {part} inside =>
    List.filter_eq_nil_iff.mpr fun other member same =>
      distinct.1 (List.mem_map.mpr ⟨other, inside member, of_decide_eq_true same⟩)
  rw [fieldsOf, List.filter_append, List.filter_cons, others (List.subset_append_left _ _),
    others (List.subset_append_right _ _)]
  simp

/-! ## A whole document -/

/-- The fields of all entries of a kind. -/
def fieldsNamed (kind : DirectiveKind) (d : Document) : Document :=
  (d.filter fun entry => entry.1 = kind.key).flatMap fun entry => listed entry.2

/-- The kinds of the entries in order. -/
def kindsNamed (d : Document) : List DirectiveKind :=
  d.filterMap fun entry => DirectiveKind.ofKey? entry.1

theorem eraseDups_eq_self {kinds : List DirectiveKind} (distinct : kinds.Nodup) :
    kinds.eraseDups = kinds := by
  induction kinds with
  | nil => rfl
  | cons first rest ih =>
    obtain ⟨absent, distinct⟩ := List.nodup_cons.mp distinct
    have others : rest.filter (fun other => !other == first) = rest :=
      List.filter_eq_self.mpr fun other member => by
        have different : other ≠ first := fun same => absent (same ▸ member)
        simpa using different
    rw [List.eraseDups_cons, others, ih distinct]

/-- A kind that is there already does not occur for the first time. -/
theorem eraseDups_append_cons {kinds rest : List DirectiveKind} {kind : DirectiveKind}
    (present : kind ∈ kinds) :
    (kinds ++ kind :: rest).eraseDups = (kinds ++ rest).eraseDups := by
  rw [List.eraseDups_append, List.eraseDups_append]
  simp [List.removeAll, present]

/-- **What collecting gives**, behind directives that were found before. -/
theorem collect_ok {d : Document} (maps : MapsByName d) (found : List Directive)
    {update : List Directive} (distinct : (found.map kind).Nodup)
    (collected : collect found d = .ok update) :
    (∀ entry ∈ d, Readable entry) ∧ (update.map kind).Nodup ∧
      update.map kind = (found.map kind ++ kindsNamed d).eraseDups ∧
      ∀ kind, fieldsOf kind update = fieldsOf kind found ++ fieldsNamed kind d := by
  induction d generalizing found with
  | nil =>
    cases collected
    refine ⟨fun _ member => (by cases member), distinct, ?_, fun kind => ?_⟩
    · rw [kindsNamed, List.filterMap_nil, List.append_nil, eraseDups_eq_self distinct]
    · rw [fieldsNamed, List.filter_nil, List.flatMap_nil, List.append_nil]
  | cons entry rest ih =>
    rw [collect] at collected
    split at collected
    · cases collected
    · rename_i directive read
      obtain ⟨named, lists, listed⟩ := ofField_ok (maps entry List.mem_cons_self) read
      obtain ⟨readable, distinctUpdate, kinds, fields⟩ := ih
        (fun other member => maps other (List.mem_cons_of_mem _ member)) _
        (nodup_kinds_merge distinct directive) collected
      have first : kindsNamed (entry :: rest) = directive.kind :: kindsNamed rest :=
        List.filterMap_cons_some (DirectiveKind.ofKey?_eq_some_iff.mpr named)
      refine ⟨List.forall_mem_cons.mpr ⟨⟨⟨directive.kind, named⟩, lists⟩, readable⟩,
        distinctUpdate, ?_, fun sought => ?_⟩
      · rw [kinds, kinds_merge, first]
        split
        · rename_i present
          rw [eraseDups_append_cons present]
        · rw [List.append_assoc, List.singleton_append]
      · rw [fields, fieldsOf_merge distinct, List.append_assoc, fieldsNamed, fieldsNamed, listed]
        have same : entry.1 = sought.key ↔ directive.kind = sought := by
          rw [← named, DirectiveKind.key_injective.eq_iff]
        simp only [List.filter_cons, same]
        by_cases here : directive.kind = sought
        · simp [here]
        · simp [here]

/-- The first entry has the fault, or it is readable and the fault is behind it. -/
theorem firstFault_cons_iff {first : String × Value} {rest : Document} {e : UpdateError} :
    (∃ before entry after, first :: rest = before ++ entry :: after ∧
        (∀ other ∈ before, Readable other) ∧ Fault entry e) ↔
      Fault first e ∨ Readable first ∧ ∃ before entry after, rest = before ++ entry :: after ∧
        (∀ other ∈ before, Readable other) ∧ Fault entry e := by
  constructor
  · rintro ⟨before, entry, after, split, readable, fault⟩
    cases before with
    | nil =>
      cases split
      exact .inl fault
    | cons _ before =>
      cases split
      obtain ⟨readableFirst, readable⟩ := List.forall_mem_cons.mp readable
      exact .inr ⟨readableFirst, before, entry, after, rfl, readable, fault⟩
  · rintro (fault | ⟨readableFirst, before, entry, after, rfl, readable, fault⟩)
    · exact ⟨[], first, rest, rfl, List.forall_mem_nil _, fault⟩
    · exact ⟨first :: before, entry, after, rfl,
        List.forall_mem_cons.mpr ⟨readableFirst, readable⟩, fault⟩

/-- **What collecting fails with** is the fault of the first entry that has one. -/
theorem collect_error_iff {d : Document} {found : List Directive} {e : UpdateError} :
    collect found d = .error e ↔ ∃ before entry after, d = before ++ entry :: after ∧
      (∀ other ∈ before, Readable other) ∧ Fault entry e := by
  induction d generalizing found with
  | nil => simp [collect]
  | cons first rest ih =>
    rw [collect, firstFault_cons_iff]
    split
    · rename_i cause read
      have fault := ofField_error_iff.mp read
      constructor
      · rintro ⟨⟩
        exact .inl fault
      · rintro (faultOf | ⟨readable, -⟩)
        · exact congrArg _ (Except.error.inj (read.symm.trans (ofField_error_iff.mpr faultOf)))
        · exact absurd readable fault.not_readable
    · rename_i directive read
      have sound : ∀ e, ¬ Fault first e := fun e fault => by
        rw [ofField_error_iff.mpr fault] at read
        cases read
      rw [ih]
      exact ⟨fun behind => .inr ⟨readable_of_no_fault sound, behind⟩,
        fun found => found.elim (fun fault => absurd fault (sound e)) And.right⟩

/-- A document can be read exactly if each of its entries can. -/
theorem collect_ok_iff {d : Document} (maps : MapsByName d) :
    (∃ update, ofDocument d = .ok update) ↔ ∀ entry ∈ d, Readable entry := by
  constructor
  · rintro ⟨update, read⟩
    exact (collect_ok maps [] List.nodup_nil read).1
  · intro readable
    cases read : ofDocument d with
    | ok update => exact ⟨update, rfl⟩
    | error e =>
      obtain ⟨before, entry, after, rfl, -, fault⟩ := collect_error_iff.mp read
      exact absurd (readable entry (by simp)) fault.not_readable

open InPlace

/-- **An update document is regrouped without loss.**  It can be read exactly if every key names a
directive and every value is a document, a map or null.  The directives then have different kinds, in
the order of their first occurrences, and each has the fields of all entries of its kind in document
order.  An error is the fault of the first entry that has one.  Collecting in memory, where fields are
appended in place, finds the same and leaves the document and every other array as they were. -/
theorem ofDocument_regroups (d : Document) (maps : MapsByName d) :
    ((∃ update, ofDocument d = .ok update) ↔ ∀ entry ∈ d, Readable entry) ∧
    (∀ update, ofDocument d = .ok update →
      (update.map kind).Nodup ∧ update.map kind = (kindsNamed d).eraseDups ∧
      ∀ directive ∈ update, directive.fields = fieldsNamed directive.kind d) ∧
    (∀ e, ofDocument d = .error e ↔ ∃ before entry after, d = before ++ entry :: after ∧
      (∀ other ∈ before, Readable other) ∧ Fault entry e) ∧
    ∀ (spare : Slice → Nat) (m : Memory) (slice : Slice) (meaning : Held → Value), m.Holds slice →
      (∀ cell ∈ m.read slice, cell.2.Means m meaning) → (m.read slice).map (Cell.field meaning) = d →
      m <+: (regroup spare m slice).1.memory ∧
      (regroup spare m slice).1.memory.read slice = m.read slice ∧
      match ofDocument d with
      | .ok update => (regroup spare m slice).2 = none ∧
        (regroup spare m slice).1.directives meaning = update
      | .error e => (regroup spare m slice).2 = some e := by
  refine ⟨collect_ok_iff maps, fun update read => ?_, fun e => collect_error_iff,
    fun spare m slice meaning there means same => ?_⟩
  · obtain ⟨-, distinct, kinds, fields⟩ := collect_ok maps [] List.nodup_nil read
    refine ⟨distinct, kinds, fun directive member => ?_⟩
    rw [← fieldsOf_of_mem distinct member, fields]
    rfl
  · subst same
    obtain ⟨prior, found⟩ := regroup_spec spare there means
    exact ⟨prior, there.read_mono prior, found⟩

/-- Two settings whose fields are neighbours in one array, so that the first could grow over the
second, around an increment by a map. -/
theorem ofDocument_regroups_neighbours :
    let meaning : Held → Value
      | .fields s => .document (match s.start with
        | 0 => [("name", .text "Ada")]
        | _ => [("city", .text "Turin")])
      | .entries _ => .map [("age", .int64 1), ("visits", .int64 2)]
      | .null => .null
      | .other value => value
    let m : Memory :=
      [[("$set", .fields ⟨1, 0, 1, 2⟩),
        ("$inc", .entries [("visits", .other (.int64 2)), ("age", .other (.int64 1))]),
        ("$set", .fields ⟨1, 1, 1, 1⟩)],
      [("name", .other (.text "Ada")), ("city", .other (.text "Turin"))]]
    let d : Document := [("$set", .document [("name", .text "Ada")]),
      ("$inc", .map [("age", .int64 1), ("visits", .int64 2)]),
      ("$set", .document [("city", .text "Turin")])]
    MapsByName d ∧ ∃ update, ofDocument d = .ok update ∧ update.map kind = [.set, .inc] ∧
      (∀ directive ∈ update, directive.fields = fieldsNamed directive.kind d) ∧
      m <+: (regroup (fun _ => 3) m ⟨0, 0, 3, 3⟩).1.memory ∧
      (regroup (fun _ => 3) m ⟨0, 0, 3, 3⟩).1.directives meaning = update := by
  intro meaning m d
  have maps : MapsByName d := by
    intro entry member fields same
    simp only [d, List.mem_cons, List.not_mem_nil, or_false] at member
    rcases member with rfl | rfl | rfl <;> cases same
    decide
  have readable : ∀ entry ∈ d, Readable entry := by
    simp only [d, List.forall_mem_cons]
    exact ⟨⟨⟨.set, rfl⟩, .inl ⟨_, rfl⟩⟩, ⟨⟨.inc, rfl⟩, .inr (.inl ⟨_, rfl⟩)⟩,
      ⟨⟨.set, rfl⟩, .inl ⟨_, rfl⟩⟩, fun _ member => nomatch member⟩
  have means : ∀ cell ∈ m.read ⟨0, 0, 3, 3⟩, cell.2.Means m meaning := by
    rw [show m.read ⟨0, 0, 3, 3⟩ = [_, _, _] from rfl]
    simp only [List.forall_mem_cons]
    exact ⟨⟨⟨by decide, by decide, by decide⟩, rfl⟩, ⟨by decide, rfl⟩,
      ⟨⟨by decide, by decide, by decide⟩, rfl⟩, fun _ member => nomatch member⟩
  obtain ⟨reads, regroups, -, inPlace⟩ := ofDocument_regroups d maps
  obtain ⟨update, read⟩ := reads.mpr readable
  obtain ⟨-, kinds, fields⟩ := regroups update read
  obtain ⟨prior, -, found⟩ := inPlace (fun _ => 3) m ⟨0, 0, 3, 3⟩ meaning
    ⟨by decide, by decide, by decide⟩ means rfl
  rw [read] at found
  exact ⟨maps, update, read, kinds, fields, prior, found.2⟩

end Directive

end DocTable
