import DocTable.Client.Basic
import DocTable.Proofs.Expression.Selecting
import DocTable.Proofs.Request.Plain

/-!
# What a client without options sends

A client whose parameters are the name of its table, and that is called without options, sends the
built request in its typed form (`TableClient.built_of_prepare`, `TableClient.prepare_of_build`).  The
request names the table, and the condition in it is read back as the filter that the client was given
(`Request.Built.condition`).
-/

namespace DocTable

set_option autoImplicit false

/-- Parameters that name a table. -/
def Request.ofTable (name : String) : Request := [("TableName", .text name)]

/-- A client whose requests start from the name of a table. -/
def TableClient.ofTable (schema : TableSchema) (name : String) : TableClient :=
  ⟨schema, Request.ofTable name⟩

namespace TableClient

variable {schema : TableSchema} {name : String} {op : Operation} {d extra : Document}

theorem compile_ofTable (defined : schema.hash.isDefined = true) :
    (ofTable schema name).compile op d extra [] =
      Request.build op schema (Request.ofTable name) d extra := by
  have normalized : (Request.ofTable name).normalize = .ok (Request.ofTable name) := rfl
  have named : Keyed.contains "TableName" (Request.ofTable name) = true := rfl
  simp only [compile, ofTable, Compiler.new, defined, if_true, normalized, named, bind, Except.bind,
    Compiler.compile, RequestOption.applyAll, compileWith]
  rfl

theorem defined_of_compile {request : Request} {t : TableClient} {options : List RequestOption}
    (compiled : t.compile op d extra options = .ok request) : t.schema.hash.isDefined = true := by
  obtain ⟨compiler, made, _⟩ := Outcome.ok_of_bind compiled
  rw [Compiler.new] at made
  split at made
  · assumption
  · cases made

/-- What a client prepares is a compiled request with its typed form. -/
theorem prepare_eq_ok {t : TableClient} {options : List RequestOption} {p : Prepared}
    (prepared : t.prepare op d extra options = .ok p) :
    ∃ request input, t.compile op d extra options = .ok request ∧
      TypedRequest.ofParams op request = .ok input ∧ p = ⟨op, request, input⟩ := by
  obtain ⟨request, compiled, prepared⟩ := Outcome.ok_of_bind prepared
  refine ⟨request, p.input, Outcome.ok_of_mapError compiled, ?_⟩
  split at prepared
  · obtain ⟨_, _, prepared⟩ := Outcome.ok_of_bind prepared
    obtain ⟨input, typed, done⟩ := Outcome.ok_of_bind prepared
    cases done
    exact ⟨Outcome.ok_of_mapError typed, rfl⟩
  · obtain ⟨input, typed, done⟩ := Outcome.ok_of_bind prepared
    cases done
    exact ⟨Outcome.ok_of_mapError typed, rfl⟩

/-- What a client prepares is a request that was built from some parameters. -/
theorem build_of_prepare {t : TableClient} {options : List RequestOption} {p : Prepared}
    (prepared : t.prepare op d extra options = .ok p) :
    ∃ start, Request.build op t.schema start d extra = .ok p.request := by
  obtain ⟨request, input, compiled, _, rfl⟩ := prepare_eq_ok prepared
  obtain ⟨compiler, made, compiled⟩ := Outcome.ok_of_bind compiled
  have schema : compiler.schema = t.schema := by
    rw [Compiler.new] at made
    split at made
    · split at made
      · cases made
      · split at made <;> cases made <;> rfl
    · cases made
  rw [← schema]
  rw [Compiler.compile] at compiled
  split at compiled
  · cases compiled
  · rw [compileWith] at compiled
    split at compiled
    · split at compiled
      · cases compiled
      · split at compiled
        · cases compiled
        · exact ⟨_, compiled⟩
    · cases compiled

/-- What a client prepares without options is the built request in its typed form. -/
theorem built_of_prepare {p : Prepared} (prepared : (ofTable schema name).prepare op d extra [] = .ok p) :
    ∃ request, Request.build op schema (Request.ofTable name) d extra = .ok request ∧
      p = ⟨op, request, .ofPlain request⟩ := by
  obtain ⟨request, input, compiled, typed, rfl⟩ := prepare_eq_ok prepared
  have build := (compile_ofTable (defined_of_compile compiled)).symm.trans compiled
  have plain := (Request.built_of_build build).plain (.of_tableName name)
  rw [TypedRequest.ofParams_of_plain plain] at typed
  cases typed
  exact ⟨request, build, rfl⟩

/-- A built request that stores no item is prepared. -/
theorem prepare_of_build (defined : schema.hash.isDefined = true)
    (noItem : ¬(op = .insert ∨ op = .replace)) {request : Request}
    (built : Request.build op schema (Request.ofTable name) d extra = .ok request) :
    (ofTable schema name).prepare op d extra [] = .ok ⟨op, request, .ofPlain request⟩ := by
  have plain := (Request.built_of_build built).plain (.of_tableName name)
  rw [prepare, compile_ofTable defined, built]
  simp only [Except.mapError, if_neg noItem, TypedRequest.ofParams_of_plain plain op, bind, Except.bind]
  rfl

/-- A document that is encoded to an item with the keys of the schema is prepared to be stored. -/
theorem prepare_insert (defined : schema.hash.isDefined = true) {item key : Item}
    (encoded : d.encode = .ok item) (keyed : schema.extractKey item = .ok key) :
    ∃ request, Request.build .insert schema (Request.ofTable name) d [] = .ok request ∧
      Params.attributes? request "Item" = some item ∧
      (ofTable schema name).prepare .insert d [] [] = .ok ⟨.insert, request, .ofPlain request⟩ := by
  obtain ⟨request, build⟩ :
      ∃ request, Request.build .insert schema (Request.ofTable name) d [] = .ok request := by
    simp only [Request.build, Request.insert, Document.item, encoded, bind, Except.bind, pure, Except.pure]
    exact ⟨_, rfl⟩
  have built := Request.built_of_build build
  have attributes : Params.attributes? request "Item" = some item := by
    obtain ⟨found, encodedFound, attributes⟩ := built.attributes_item.1 rfl
    rw [encoded] at encodedFound
    cases encodedFound
    exact attributes
  refine ⟨request, build, attributes, ?_⟩
  have typed := TypedRequest.ofParams_of_plain (built.plain (.of_tableName name)) .insert
  have extracted : (ofTable schema name).schema.extractKey item = .ok key := keyed
  rw [prepare, compile_ofTable defined, build]
  simp only [Except.mapError, true_or, if_true, attributes, Option.getD_some, extracted, typed, bind,
    Except.bind]
  rfl

/-- A filter that can be written makes a query and a scan. -/
theorem exists_prepare {t : TableSchema} (defined : t.hash.isDefined = true) (name : String)
    (encodes : d.Encodes) :
    (∃ request, Request.build .query t (Request.ofTable name) d [] = .ok request ∧
      (ofTable t name).prepare .query d [] [] = .ok ⟨.query, request, .ofPlain request⟩) ∧
    (∃ request, Request.build .scan t (Request.ofTable name) d [] = .ok request ∧
      (ofTable t name).prepare .scan d [] [] = .ok ⟨.scan, request, .ofPlain request⟩) := by
  obtain ⟨c, condition⟩ := Document.condition_of_encodes encodes
  have query : ∃ request, Request.build .query t (Request.ofTable name) d [] = .ok request := by
    simp only [Request.build, Request.query, condition, bind, Except.bind, pure, Except.pure]
    exact ⟨_, rfl⟩
  have scan : ∃ request, Request.build .scan t (Request.ofTable name) d [] = .ok request := by
    simp only [Request.build, Request.scan, condition, bind, Except.bind, pure, Except.pure]
    exact ⟨_, rfl⟩
  refine ⟨query.imp fun request built => ⟨built, ?_⟩, scan.imp fun request built => ⟨built, ?_⟩⟩
  · exact prepare_of_build defined (by decide) built
  · exact prepare_of_build defined (by decide) built

end TableClient

namespace Request.Built

variable {t : TableSchema} {name : String} {op : Operation} {d extra : Document} {request : Request}

/-- A built request names the table of the request that it was built from. -/
theorem tableName (built : Built t (ofTable name) d extra op request) :
    (TypedRequest.ofPlain request).tableName? = some name := by
  have allowed : op.allows "TableName" = true := by
    cases built <;> rfl
  have other : "TableName" ∉ op.builtKeys := by
    cases built <;> decide
  have found := built.lookup_other allowed other
  simp [TypedRequest.ofPlain, Params.text?, found, ofTable, Keyed.lookup, Value.text?]

/-- A parameter that neither building nor the name of the table sets is missing. -/
theorem text?_other (built : Built t (ofTable name) d extra op request) {key : String}
    (allowed : op.allows key = true) (other : key ∉ "TableName" :: op.builtKeys) :
    Params.text? request key = none := by
  simp only [List.mem_cons, not_or] at other
  obtain ⟨notName, notBuilt⟩ := other
  rw [Params.text?, built.lookup_other allowed notBuilt, ofTable, Keyed.lookup, if_neg (Ne.symm notName)]
  rfl

/-- The condition of a built request is read back as its document. -/
theorem condition {parameter : String} (built : Request.build op t (ofTable name) d extra = .ok request)
    (takes : op.conditionParameter? = some parameter) (nonempty : d ≠ []) :
    ∃ text terms, Params.text? request parameter = some text ∧
      Condition.parse text (TypedRequest.ofPlain request).context = .ok terms ∧
      List.Forall₂ Comparison.Reads d terms := by
  obtain ⟨c, p, made, within, holds⟩ := holds_condition built takes nonempty
  obtain ⟨terms, parsed, reads⟩ := holds.parse_condition made nonempty within
  have filled : c.condition ≠ "" := (Document.parse_condition made nonempty (.refl _)).1
  rw [TypedRequest.context_ofPlain]
  refine ⟨Params.text request parameter, terms, ?_, parsed, reads⟩
  exact Params.text?_of_text_ne_empty (holds.text ▸ filled)

/-- A query names the index of its access path. -/
theorem indexName (built : Built t (ofTable name) d extra .query request) :
    Params.text? request "IndexName" = match t.accessPath d with
      | .index index => some index
      | _ => none := by
  cases built with
  | query condition =>
    rename_i c
    have missing : Keyed.lookup "IndexName"
        ((ofTable name).attach "KeyConditionExpression" c.condition c.placeholders) = none :=
      lookup_attach (by decide) (by decide)
    have kept := fun s : Request =>
      @Keyed.lookup_filter _ _ _ "IndexName" s Operation.query.allows (by decide)
    rw [Params.text?, Operation.allowed, kept, withIndex.eq_def, Keyed.contains, missing]
    cases t.accessPath d with
    | index index => simp [Keyed.lookup_insert_self, Value.text?]
    | scan => simp [missing]
    | primary => simp [missing]

end Request.Built

end DocTable
