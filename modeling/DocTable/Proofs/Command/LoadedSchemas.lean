import DocTable.Command.Sandbox
import DocTable.Proofs.Table.File

/-!
# Schemas from several files

Files are loaded one after the other, and each has to be accepted on its own; then their tables are put together and
checked once more.  The second check can only find a table name that occurs in two files, because everything else it
looks at lies within one table or within one file (`SchemaFile.wellFormed_flatMap_iff`).

So loading succeeds exactly if every location holds a well-formed file and no two of the files share a table name, and
the tables are then those of the files, in order (`Source.run_loadAll`).  A location that is named twice is a file that
shares its tables with another one, as every accepted file has a table.
-/

namespace DocTable

set_option autoImplicit false

/-! ## Tables of several files -/

namespace SchemaFile

/-- Files without a common table name. -/
def Apart (a b : SchemaFile) : Prop := ∀ t ∈ a.tables, ∀ u ∈ b.tables, t.name ≠ u.name

/-- Tables of well-formed files are well formed together exactly if no two files share a name. -/
theorem wellFormed_flatMap_iff {files : List SchemaFile} (nonempty : files ≠ [])
    (each : ∀ file ∈ files, WellFormed file.tables) :
    WellFormed (files.flatMap tables) ↔ files.Pairwise Apart := by
  have names : (files.flatMap tables).map TableEntry.name = files.flatMap fun file => file.tables.map TableEntry.name :=
    List.map_flatMap
  have apart : ∀ {a b : SchemaFile},
      (a.tables.map TableEntry.name).Disjoint (b.tables.map TableEntry.name) ↔ Apart a b := by
    intro a b
    simp only [List.disjoint_left, List.mem_map, not_exists, not_and, forall_exists_index, and_imp,
      forall_apply_eq_imp_iff₂]
    exact forall₂_congr fun t _ => forall₂_congr fun u _ => ne_comm
  have distinct : ((files.flatMap tables).map TableEntry.name).Nodup ↔ files.Pairwise Apart := by
    rw [names, List.nodup_flatMap, and_iff_right fun file listed => (each file listed).distinct]
    exact ⟨fun disjoint => disjoint.imp apart.mp, fun separate => separate.imp apart.mpr⟩
  constructor
  · exact fun wellFormed => distinct.mp wellFormed.distinct
  · intro separate
    refine ⟨?_, fun t listed => ?_, distinct.mpr separate⟩
    · obtain ⟨first, others, rfl⟩ := List.exists_cons_of_ne_nil nonempty
      exact List.append_ne_nil_of_left_ne_nil (each first List.mem_cons_self).nonempty _
    · obtain ⟨file, member, there⟩ := List.mem_flatMap.mp listed
      exact (each file member).each t there

end SchemaFile

namespace Command

/-! ## Files of a machine -/

namespace Sandbox

/-- What a location of a machine reads as. -/
def contents (s : Sandbox) (location : String) : Except ReadFault String :=
  match s.kind location with
  | .file => .ok (s.read location)
  | kind => .error ⟨location, kind⟩

/-- The location of a file whose text lists well-formed tables. -/
def Holds (s : Sandbox) (location : String) (file : SchemaFile) : Prop :=
  ∃ text found, s.contents location = .ok text ∧ SchemaFile.tables? text = .ok found ∧
    file.tables = found.getD [] ∧ SchemaFile.WellFormed file.tables

end Sandbox

namespace Source

variable {s : Sandbox}

theorem run_bind {α β : Type} {first : StateM Sandbox α} {second : α → StateM Sandbox β} {value : α} {after : Sandbox}
    (ran : first.run s = (value, after)) : (first >>= second).run s = (second value).run after := by
  change (second (first.run s).1).run (first.run s).2 = _
  rw [ran]

theorem run_readFile (s : Sandbox) (location : String) :
    (readFile location : StateM Sandbox _).run s = (s.contents location, s) := by
  have asked : (Host.kind location : StateM Sandbox _).run s = (s.kind location, s) := rfl
  rw [readFile, run_bind asked, Sandbox.contents]
  cases s.kind location <;> rfl

/-- Loading a file leaves the machine as it is, and succeeds exactly on a file of well-formed tables. -/
theorem run_load (s : Sandbox) (location : String) :
    ∃ outcome, (load location : StateM Sandbox _).run s = (outcome, s) ∧
      ∀ file, outcome = .ok file ↔ s.Holds location file := by
  rw [load, run_bind (run_readFile s location)]
  cases read : s.contents location with
  | error fault =>
    refine ⟨_, rfl, fun file => iff_of_false nofun ?_⟩
    rintro ⟨text, found, there, -⟩
    cases read.symm.trans there
  | ok text =>
    refine ⟨_, rfl, fun file => ?_⟩
    rw [Outcome.mapError_eq_ok_iff, SchemaFile.parse_eq_ok_iff]
    constructor
    · rintro ⟨found, listed⟩
      exact ⟨text, found, read, listed⟩
    · rintro ⟨_, found, there, listed⟩
      cases read.symm.trans there
      exact ⟨found, listed⟩

/-- Several files are loaded if each of them is, and their tables are put together in order. -/
theorem run_loadTables (s : Sandbox) (locations : List String) :
    ∃ outcome, (loadTables locations : StateM Sandbox _).run s = (outcome, s) ∧
      ∀ tables, outcome = .ok tables ↔
        ∃ files, List.Forall₂ s.Holds locations files ∧ tables = files.flatMap SchemaFile.tables := by
  induction locations with
  | nil => exact ⟨.ok [], rfl, fun tables => by simp [eq_comm]⟩
  | cons location others ih =>
    obtain ⟨outcome, ran, first⟩ := run_load s location
    rw [loadTables, run_bind ran]
    cases outcome with
    | error cause =>
      refine ⟨.error cause, rfl, fun tables => iff_of_false nofun ?_⟩
      rintro ⟨_, all, -⟩
      obtain ⟨file, _, here, -⟩ := List.forall₂_cons_left_iff.mp all
      cases (first file).mpr here
    | ok file =>
      obtain ⟨rest, ran, later⟩ := ih
      dsimp only
      rw [run_bind ran]
      refine ⟨_, rfl, fun tables => ?_⟩
      constructor
      · intro done
        obtain ⟨listed, there, rfl⟩ := Outcome.ok_of_map done
        obtain ⟨files, all, rfl⟩ := (later listed).mp there
        exact ⟨file :: files, .cons ((first file).mp rfl) all, rfl⟩
      · rintro ⟨_, all, rfl⟩
        obtain ⟨_, files, here, others, rfl⟩ := List.forall₂_cons_left_iff.mp all
        cases (first _).mpr here
        rw [(later _).mpr ⟨files, others, rfl⟩]
        rfl

/-- Files of well-formed tables are loaded as one exactly if no two of them share a table name. -/
theorem run_loadAll (s : Sandbox) {locations : List String} (nonempty : locations ≠ []) :
    ∃ outcome, (loadAll locations : StateM Sandbox _).run s = (outcome, s) ∧
      ∀ file, outcome = .ok file ↔ ∃ files, List.Forall₂ s.Holds locations files ∧
        files.Pairwise SchemaFile.Apart ∧ file.tables = files.flatMap SchemaFile.tables := by
  obtain ⟨outcome, ran, each⟩ := run_loadTables s locations
  -- The files are well formed, so the tables together are if the files are apart.
  have together : ∀ {files}, List.Forall₂ s.Holds locations files →
      (SchemaFile.WellFormed (files.flatMap SchemaFile.tables) ↔ files.Pairwise SchemaFile.Apart) := by
    intro files all
    have some : files ≠ [] := by
      rintro rfl
      exact nonempty (List.forall₂_nil_right_iff.mp all)
    have each : ∀ file ∈ files, SchemaFile.WellFormed file.tables := by
      refine (forall_mem_iff_of_forall₂ (Q := fun _ => True) (all.imp ?_)).mpr fun _ _ => trivial
      rintro location file ⟨_, _, -, -, -, wellFormed⟩
      exact iff_of_true wellFormed trivial
    exact SchemaFile.wellFormed_flatMap_iff some each
  rw [loadAll, run_bind ran]
  cases outcome with
  | error cause =>
    refine ⟨.error cause, rfl, fun file => iff_of_false nofun ?_⟩
    rintro ⟨files, all, -, -⟩
    cases (each _).mpr ⟨files, all, rfl⟩
  | ok tables =>
    obtain ⟨files, all, rfl⟩ := (each tables).mp rfl
    refine ⟨_, rfl, fun file => ?_⟩
    rw [Outcome.mapError_eq_ok_iff, SchemaFile.validate_eq_ok_iff]
    constructor
    · rintro ⟨listed, wellFormed⟩
      rw [listed] at wellFormed
      exact ⟨files, all, (together all).mp wellFormed, listed⟩
    · rintro ⟨others, again, apart, listed⟩
      have same : Except.ok (files.flatMap SchemaFile.tables) = Except.ok (others.flatMap SchemaFile.tables) :=
        (each _).mpr ⟨others, again, rfl⟩
      refine ⟨listed.trans (Except.ok.inj same).symm, ?_⟩
      rw [listed]
      exact (together again).mpr apart

/-- **Exactly the well-formed schemas are accepted.**  The check of a file accepts a list of well-formed tables, as it
is, and nothing else.  Loading several files leaves the machine as it is and succeeds exactly if every location holds a
well-formed file and no two of the files share a table name; the tables are those of the files, in order.  And a
well-formed table is read off its schema, without its parameters. -/
theorem accepts_exactly_wellFormed (s : Sandbox) {locations : List String} (nonempty : locations ≠ []) :
    (∀ tables? file, SchemaFile.validate tables? = .ok file ↔
      file.tables = tables?.getD [] ∧ SchemaFile.WellFormed file.tables) ∧
    (∃ outcome, (loadAll locations : StateM Sandbox _).run s = (outcome, s) ∧
      ∀ file, outcome = .ok file ↔ ∃ files, List.Forall₂ s.Holds locations files ∧
        files.Pairwise SchemaFile.Apart ∧ file.tables = files.flatMap SchemaFile.tables) ∧
    ∀ t : TableEntry, t.WellFormed → TableEntry.ofSchema t.schema = { t with params := [] } :=
  ⟨fun _ _ => SchemaFile.validate_eq_ok_iff, run_loadAll s nonempty, fun _ => TableEntry.ofSchema_schema⟩

end Source

namespace Harbour

/-- A table with indexes of both kinds, and parameters. -/
def ships : TableEntry :=
  ⟨"ships", ⟨"id", "S"⟩, some ⟨"built", "N"⟩, [⟨"byPort", ⟨"port", "S"⟩, none⟩],
    [⟨"byCrew", ⟨"id", "S"⟩, some ⟨"crew", "N"⟩⟩], [("ReturnConsumedCapacity", .text "TOTAL")]⟩

/-- The text of a schema file with one table. -/
def shipsText : String := "tables: [\x7bname: ships, partitionKey: \x7bname: id, kind: S\x7d\x7d]"

/-- A machine with two copies of one schema file. -/
def machine : Sandbox where
  directory := "/harbour"
  files := [(["harbour", "old", "schema.yaml"], shipsText), (["harbour", "schema.yaml"], shipsText)]
  source := fun _ => []

end Harbour

/-- Ships are accepted and read off their schema; a second table of their name is not accepted, and neither are two
copies of one file. -/
theorem Source.accepts_exactly_wellFormed_of_ships :
    SchemaFile.WellFormed [Harbour.ships] ∧ ¬SchemaFile.WellFormed [Harbour.ships, Harbour.ships] ∧
    TableEntry.ofSchema Harbour.ships.schema = { Harbour.ships with params := [] } ∧
    ["schema.yaml", "old/schema.yaml"] ≠ [] ∧
    ∃ cause, (loadAll ["schema.yaml", "old/schema.yaml"] : StateM Sandbox _).run Harbour.machine =
      (.error cause, Harbour.machine) := by
  have named : ["schema.yaml", "old/schema.yaml"] ≠ [] := List.cons_ne_nil _ _
  obtain ⟨accepted, ⟨outcome, ran, loaded⟩, schema⟩ := Source.accepts_exactly_wellFormed Harbour.machine named
  have wellFormed : SchemaFile.WellFormed [Harbour.ships] := ((accepted (some [Harbour.ships]) ⟨_⟩).mp rfl).2
  have copies : Harbour.machine.contents "schema.yaml" = Harbour.machine.contents "old/schema.yaml" := by
    have first : Harbour.machine.kind "schema.yaml" = .file := by decide +kernel
    have second : Harbour.machine.kind "old/schema.yaml" = .file := by decide +kernel
    have same : Harbour.machine.read "schema.yaml" = Harbour.machine.read "old/schema.yaml" := by decide +kernel
    rw [Sandbox.contents, Sandbox.contents, first, second, same]
  refine ⟨wellFormed, fun twice => absurd twice.distinct (by decide), schema _ (wellFormed.each _ List.mem_cons_self),
    named, ?_⟩
  cases outcome with
  | error cause => exact ⟨cause, ran⟩
  | ok file =>
    obtain ⟨_, all, apart, -⟩ := (loaded file).mp rfl
    obtain ⟨a, _, ⟨text, found, here, tables, listed, ⟨some, -, -⟩⟩, others, rfl⟩ := List.forall₂_cons_left_iff.mp all
    obtain ⟨b, _, ⟨_, _, there, again, copied, -⟩, -, rfl⟩ := List.forall₂_cons_left_iff.mp others
    cases here.symm.trans (copies.trans there)
    cases tables.symm.trans again
    obtain ⟨t, member⟩ := List.exists_mem_of_ne_nil _ some
    exact absurd rfl (List.rel_of_pairwise_cons apart List.mem_cons_self t member t (copied.trans listed.symm ▸ member))

end Command

end DocTable
