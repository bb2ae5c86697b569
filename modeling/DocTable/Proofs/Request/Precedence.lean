import DocTable.Proofs.Request.ParamsInMemory
import DocTable.Proofs.Request.Shape

/-!
# Precedence among the parameters of a request

A compiled request has four sources of parameters: what its operation generates, the options of the call, the
parameters of its compiler, and two defaults.  The options lie over the parameters of the compiler, and these
over the name of the table (`Compiler.stacked_of_start`).  On them the request is built
(`Compiler.exists_start`).

Read parameter by parameter this gives `Compiler.compile_precedence`: what a request holds, and the source of
each value.  The parameters of a compiler and of options are maps in memory, which requests share; no request
is written through to them (`SharedCompiler.compileAll_spec`), so the sources are the same for every call.
Read placeholder by placeholder it says when the placeholders that a caller brings along keep
their meaning: exactly if none of them is one that the operation gives out for something else
(`Compiler.given_placeholders_kept_iff`).
-/

namespace DocTable

set_option autoImplicit false

/-! ## Options -/

theorem RequestOption.ascending_apply {p q : Params} {option : RequestOption} (ascending : Keyed.Ascending p)
    (done : option.apply p = .ok q) : Keyed.Ascending q := by
  cases option with
  | params other =>
    cases done
    exact ascending.insertAll other
  | projection attributes =>
    obtain ⟨_, _, done⟩ := Outcome.ok_of_bind done
    cases done
    exact (ascending.insert _ _).insert _ _
  | _ =>
    cases done
    exact ascending.insert _ _

theorem RequestOption.ascending_applyAll {p q : Params} {options : List RequestOption}
    (ascending : Keyed.Ascending p) (done : applyAll p options = .ok q) : Keyed.Ascending q := by
  induction options generalizing p with
  | nil =>
    cases done
    exact ascending
  | cons option rest ih =>
    obtain ⟨next, first, done⟩ := Outcome.ok_of_bind done
    exact ih (ascending_apply ascending first) done

/-! ## Compilers at work -/

namespace Compiler

variable {t : TableSchema} {base o : Params} {c : Compiler} {op : Operation} {d extra : Document}
  {options : List RequestOption} {request : Request}

/-- The parameters that the request of a call starts from: the options on top of those of the compiler. -/
def start (c : Compiler) (options : List RequestOption) : Except CompileError Params := do
  let o ← (RequestOption.applyAll [] options).mapError .projection
  let base ← c.base.normalize.mapError .baseParams
  let o ← o.normalize.mapError .optionParams
  return base.merge o

/-- The parameters of a compiler are those it was made with, over the name of the table. -/
theorem stacked_of_new (maps : base.MapsPlaceholders) (made : new (some t) base = .ok c) :
    c.schema = t ∧ c.base.IsTyped ∧ Params.Stacked [base, [("TableName", .text t.name)]] c.base := by
  have plain : "TableName" ∉ Request.placeholderKeys := by decide
  rw [new] at made
  split at made
  · split at made
    · cases made
    · rename_i normalized done
      obtain ⟨typed, stacked⟩ := Params.Stacked.normalize maps done
      have named := Params.Stacked.default plain (.text t.name) normalized
      split at made
      · rename_i given
        cases made
        rw [if_pos given] at named
        exact ⟨rfl, typed, named.replace [] [_] stacked⟩
      · rename_i missing
        cases made
        rw [if_neg missing] at named
        exact ⟨rfl, typed.insert_other plain _, named.replace [] [_] stacked⟩
  · cases made

/-- A compiled request is built from the parameters that it starts from. -/
theorem exists_start (compiled : c.compile op d extra options = .ok request) :
    ∃ given, c.start options = .ok given ∧ Request.build op c.schema given d extra = .ok request := by
  rw [compile] at compiled
  split at compiled
  · cases compiled
  · rename_i o applied
    rw [compileWith] at compiled
    split at compiled
    · split at compiled
      · cases compiled
      · rename_i below normalBase
        split at compiled
        · cases compiled
        · rename_i above normalOptions
          refine ⟨_, ?_, compiled⟩
          rw [start, applied]
          simp only [Except.mapError, bind, Except.bind, normalBase, normalOptions]
          rfl
    · cases compiled

/-- A request starts from the options, stacked on the parameters of the compiler and the name of the table. -/
theorem stacked_of_start {given : Params} (mapsBase : base.MapsPlaceholders)
    (applied : RequestOption.applyAll [] options = .ok o) (mapsOptions : o.MapsPlaceholders)
    (made : new (some t) base = .ok c) (begun : c.start options = .ok given) :
    given.IsTyped ∧ Params.Stacked [o, base, [("TableName", .text t.name)]] given := by
  obtain ⟨_, typedBase, stackedBase⟩ := stacked_of_new mapsBase made
  have ascending : Keyed.Ascending o := RequestOption.ascending_applyAll List.Pairwise.nil applied
  obtain ⟨_, first, further⟩ := Outcome.ok_of_bind begun
  cases applied.symm.trans (Outcome.ok_of_mapError first)
  obtain ⟨below, normalBase, last⟩ := Outcome.ok_of_bind further
  obtain ⟨above, normalOptions, done⟩ := Outcome.ok_of_bind last
  cases done
  replace normalOptions := Outcome.ok_of_mapError normalOptions
  obtain ⟨typedBelow, stackedBelow⟩ :=
    Params.Stacked.normalize typedBase.mapsPlaceholders (Outcome.ok_of_mapError normalBase)
  obtain ⟨typedAbove, stackedAbove⟩ := Params.Stacked.normalize mapsOptions normalOptions
  obtain ⟨typed, merged⟩ :=
    Params.Stacked.merge typedBelow typedAbove (Params.ascending_normalize ascending normalOptions)
  exact ⟨typed, ((merged.replace [] [_] stackedAbove).replace [_] [] stackedBelow).replace [_] [] stackedBase⟩

end Compiler

/-! ## Reading a request -/

/-- The sources of a request: generated parameters with their placeholders, options, the parameters of a
compiler, the name of its table, and the index that a query falls back to. -/
structure Request.Sources (t : TableSchema) (base o : Params) (op : Operation) (d extra : Document)
    (params : Params) (p : Placeholders) (request : Request) : Prop where
  generates : Generates t d extra op params p
  allotted : Allotted p (op.allotments d extra)
  contains : ∀ key, Keyed.contains key request = true ↔ op.allows key = true ∧
    (Keyed.contains key (params ++ p.params) = true ∨ Keyed.contains key o = true ∨
      Keyed.contains key base = true ∨ key = "TableName" ∨ Keyed.contains key (op.defaultIndex t d) = true)
  lookup : ∀ key ∉ placeholderKeys, op.allows key = true →
    Keyed.lookup key request = (Keyed.lookup key params).or ((Keyed.lookup key o).or
      ((Keyed.lookup key base).or (if key = "TableName" then some (.text t.name)
        else Keyed.lookup key (op.defaultIndex t d))))
  typed : Params.IsTyped request
  names : ∀ token, Keyed.lookup token (Params.names request) =
    (Keyed.lookup token p.names).or ((o.boundName? token).or (base.boundName? token))
  values : ∀ token, Keyed.lookup token (Params.values request) =
    (Keyed.lookup token p.values).or ((o.boundValue? token).or (base.boundValue? token))

namespace Compiler

variable {t : TableSchema} {base o : Params} {c : Compiler} {op : Operation} {d extra : Document}
  {options : List RequestOption} {request : Request}

/-- **What a compiled request holds, and which source each value is from.**  A parameter is in the request
exactly if the operation accepts it and it is generated, or among the options, or among the parameters of the
compiler, or the name of the table, or the index that a query falls back to.  Its value is from the first of
these sources that has it.  Only the placeholders are from all sources: each of them stands for what is
generated, else for what the options say, else for what the parameters of the compiler say.  A compiler that is
made of these parameters in memory answers so to any number of calls, whatever has come into memory since, and
its parameters and all else that was there are afterwards as they were. -/
theorem compile_precedence (mapsBase : base.MapsPlaceholders)
    (applied : RequestOption.applyAll [] options = .ok o) (mapsOptions : o.MapsPlaceholders)
    (made : new (some t) base = .ok c) (compiled : c.compile op d extra options = .ok request) :
    (∃ params p, Request.Sources t base o op d extra params p request) ∧
      ∀ (m : SharedParams.Memory) (address : Nat), m.Sound → m.read address = base →
        ∃ s started, SharedCompiler.new (some t) m address = (.ok s, started) ∧ m.Extends started ∧
          started.Sound ∧ s.read started = c ∧
          ∀ later, started.Extends later → later.Sound → ∀ calls : List SharedCompiler.Call,
            (∀ call ∈ calls, call.Present later) →
            let (answers, after) := s.compileAll later calls
            later.Extends after ∧ s.read after = c ∧
              answers.map (Except.map after.read) = calls.map (SharedCompiler.expected later c) := by
  refine ⟨?_, fun m address sound read => ?_⟩
  swap
  · obtain ⟨s, started, same, grows, soundStarted, there, isCompiler⟩ :=
      SharedCompiler.new_spec sound address (read.symm ▸ made)
    have stays : ∀ later, started.Extends later → s.read later = c := by
      intro later further
      rw [← isCompiler, SharedCompiler.read, SharedCompiler.read, soundStarted.read_mono further there]
    refine ⟨s, started, same, grows, soundStarted, isCompiler, fun later further soundLater calls present => ?_⟩
    obtain ⟨kept, _, answers⟩ :=
      SharedCompiler.compileAll_spec soundLater (there.trans_le further.params.length_le) present
    rw [stays later further] at answers
    exact ⟨kept, stays _ (further.trans kept), answers⟩
  obtain ⟨given, begun, built⟩ := exists_start compiled
  obtain ⟨typed, stacked⟩ := stacked_of_start mapsBase applied mapsOptions made begun
  have tableName : Params.Bare [("TableName", .text t.name)] := .cons .nil (by decide) _
  rw [(stacked_of_new mapsBase made).1] at built
  obtain ⟨params, p, builtOn⟩ := Request.builtOn_of_build built
  refine ⟨params, p, builtOn.generates, builtOn.generates.allotted, fun key => ?_,
    fun key plain allowed => ?_, builtOn.typed typed, fun token => ?_, fun token => ?_⟩
  · have named : Keyed.contains key [("TableName", Value.text t.name)] = true ↔ key = "TableName" := by
      rw [Keyed.contains, Keyed.lookup, Keyed.lookup]
      split
      · rename_i same
        exact ⟨fun _ => same.symm, fun _ => rfl⟩
      · rename_i distinct
        exact ⟨fun there => absurd there Bool.false_ne_true, fun same => absurd same.symm distinct⟩
    rw [builtOn.contains key, stacked.contains_iff key]
    simp only [List.exists_mem_cons_iff, List.not_mem_nil, false_and, exists_false, or_false, named, or_assoc]
  · rw [builtOn.lookup key plain allowed, stacked.lookup key plain, Params.findSome?_cons_or,
      Params.findSome?_pair, Option.or_assoc, Option.or_assoc, Keyed.lookup, Keyed.lookup]
    simp only [eq_comm (a := key)]
    split <;> rfl
  · rw [builtOn.names, ← typed.boundName?_eq, stacked.name, Params.findSome?_cons_or, Params.findSome?_pair,
      tableName.boundName?, Option.or_none]
  · rw [builtOn.values, ← typed.boundValue?_eq, stacked.value, Params.findSome?_cons_or, Params.findSome?_pair,
      tableName.boundValue?, Option.or_none]

/-- A query by mail, with parameters from all sources: its filter asks for the index, an option for the limit,
and the placeholders are from the filter, a projection, the options and the compiler.  In memory the compiler
stays as it is over a scan and a query that share the map of an option. -/
theorem compile_precedence_of_query :
    let t : TableSchema := ⟨"users", ⟨"id", "S"⟩, .none, [⟨"byMail", "GLOBAL", ⟨"mail", "S"⟩, .none⟩]⟩
    let base : Params := [("ExpressionAttributeNames", .map [("#n", .text "name")]),
      ("FilterExpression", .text "#n <> :n"), ("Limit", .integer .int64 9), ("Segment", .integer .int64 1)]
    let options : List RequestOption := [.limit 5, .projection ["age"],
      .params [("ExpressionAttributeValues", .map [(":n", .text "Ann")])]]
    let o : Params := [("ExpressionAttributeNames", .textMap [("#0", "age")]),
      ("ExpressionAttributeValues", .map [(":n", .text "Ann")]), ("Limit", .integer .int32 5),
      ("ProjectionExpression", .text "#0")]
    let c : Compiler := ⟨t, [("ExpressionAttributeNames", .textMap [("#n", "name")]),
      ("FilterExpression", .text "#n <> :n"), ("Limit", .integer .int64 9), ("Segment", .integer .int64 1),
      ("TableName", .text "users")]⟩
    let d : Document := [("mail", .text "a@b")]
    let m : SharedParams.Memory := ⟨[[("ExpressionAttributeNames", .other (.map [("#n", .text "name")])),
      ("FilterExpression", .other (.text "#n <> :n")), ("Limit", .other (.integer .int64 9)),
      ("Segment", .other (.integer .int64 1))], [("ExpressionAttributeValues", .map 0)]],
      [.attributes [(":n", .s "Ann")]]⟩
    let calls : List SharedCompiler.Call :=
      [⟨.scan, [], [], [.params 1]⟩, ⟨.query, d, [], [.projection ["name"], .params 1]⟩]
    let request : Request := [
      ("ExpressionAttributeNames", .textMap [("#0", "age"), ("#k0", "mail"), ("#n", "name")]),
      ("ExpressionAttributeValues", .attributes (some [(":n", .s "Ann"), (":v0", .s "a@b")])),
      ("FilterExpression", .text "#n <> :n"), ("IndexName", .text "byMail"),
      ("KeyConditionExpression", .text "#k0 = :v0"), ("Limit", .integer .int32 5),
      ("ProjectionExpression", .text "#0"), ("TableName", .text "users")]
    base.MapsPlaceholders ∧ RequestOption.applyAll [] options = .ok o ∧ o.MapsPlaceholders ∧
      new (some t) base = .ok c ∧ c.compile .query d [] options = .ok request ∧
      (∃ params p, Request.Sources t base o .query d [] params p request) ∧
      ∃ s started, SharedCompiler.new (some t) m 0 = (.ok s, started) ∧
        let (answers, after) := s.compileAll started calls
        started.Extends after ∧ s.read after = c ∧
          answers.map (Except.map after.read) = calls.map (SharedCompiler.expected started c) := by
  intro t base options o c d m calls request
  have mapsBase : base.MapsPlaceholders := by
    have names : Keyed.lookup Params.namesKey base = some (.map [("#n", .text "name")]) := rfl
    have values : Keyed.lookup Params.valuesKey base = none := rfl
    constructor
    · intro value found
      cases names.symm.trans found
      exact List.pairwise_singleton _ _
    · intro value found
      cases values.symm.trans found
  have mapsOptions : o.MapsPlaceholders := by
    have names : Keyed.lookup Params.namesKey o = some (.textMap [("#0", "age")]) := rfl
    have values : Keyed.lookup Params.valuesKey o = some (.map [(":n", .text "Ann")]) := rfl
    constructor
    · intro value found
      cases names.symm.trans found
      exact List.pairwise_singleton _ _
    · intro value found
      cases values.symm.trans found
      exact List.pairwise_singleton _ _
  have applied : RequestOption.applyAll [] options = .ok o := rfl
  have made : new (some t) base = .ok c := rfl
  have compiled : c.compile .query d [] options = .ok request := rfl
  have sound : m.Sound := by
    constructor
    · intro p
      match p with
      | 0 | 1 => decide
      | p + 2 => exact List.Pairwise.nil
    · intro p
      match p with
      | 0 =>
        intro entry member address same
        simp only [m, SharedParams.Memory.entries, List.getD_cons_zero, List.mem_cons, List.not_mem_nil,
          or_false] at member
        rcases member with rfl | rfl | rfl | rfl <;> cases same
      | 1 =>
        intro entry member address same
        cases List.mem_singleton.mp member
        cases same
        exact Nat.zero_lt_one
      | p + 2 => exact List.forall_mem_nil _
  obtain ⟨sources, inMemory⟩ := compile_precedence mapsBase applied mapsOptions made compiled
  obtain ⟨s, started, same, grows, soundStarted, _, run⟩ := inMemory m 0 sound rfl
  have there : 1 < started.params.length := Nat.lt_of_lt_of_le (Nat.lt_succ_self 1) grows.params.length_le
  refine ⟨mapsBase, applied, mapsOptions, made, compiled, sources, s, started, same,
    run started (.refl started) soundStarted calls fun call listed option given => ?_⟩
  simp only [calls, List.mem_cons, List.not_mem_nil, or_false] at listed
  rcases listed with rfl | rfl
  · cases List.mem_singleton.mp given
    exact there
  · simp only [List.mem_cons, List.not_mem_nil, or_false] at given
    rcases given with rfl | rfl
    · trivial
    · exact there

/-! ## Given placeholders -/

/-- **When the placeholders of a caller keep their meaning.**  The placeholders that a request starts from all
stand for the same in the compiled request exactly if none of them is a generated one that stands for something
else: placeholders are given out for the fields of the filter and of the directives in order, whatever the
caller uses. -/
theorem given_placeholders_kept_iff (compiled : c.compile op d extra options = .ok request) :
    ∃ given, c.start options = .ok given ∧
      ((∀ token,
        (∀ name, Keyed.lookup token given.names = some name →
          Keyed.lookup token (Params.names request) = some name) ∧
        ∀ value, Keyed.lookup token given.values = some value →
          Keyed.lookup token (Params.values request) = some value) ↔
      ∀ n allotment, (op.allotments d extra)[n]? = some allotment →
        (∀ name, Keyed.lookup (Placeholders.nameToken n) given.names = some name → allotment.field = name) ∧
        ∀ value, Keyed.lookup (Placeholders.valueToken n) given.values = some value →
          ∀ generated, allotment.value? = some generated → generated = value) := by
  obtain ⟨given, begun, built⟩ := exists_start compiled
  obtain ⟨params, p, builtOn⟩ := Request.builtOn_of_build built
  have allotted := builtOn.generates.allotted
  refine ⟨given, begun, ?_⟩
  simp only [builtOn.names, builtOn.values]
  constructor
  · intro kept n allotment here
    refine ⟨fun name bound => ?_, fun value bound generated made => ?_⟩
    · have same := (kept (Placeholders.nameToken n)).1 name bound
      rw [allotted.names n, here] at same
      exact Option.some.inj same
    · have same := (kept (Placeholders.valueToken n)).2 value bound
      rw [allotted.values n, here, Option.bind_some, made] at same
      exact Option.some.inj same
  · intro apart token
    refine ⟨fun name bound => ?_, fun value bound => ?_⟩
    · cases found : Keyed.lookup token p.names with
      | none => rwa [Option.none_or]
      | some field =>
        obtain ⟨n, _, same⟩ := allotted.nameKeys _ (Keyed.mem_of_lookup found)
        subst same
        rw [allotted.names n, Option.map_eq_some_iff] at found
        obtain ⟨allotment, here, rfl⟩ := found
        rw [(apart n allotment here).1 name bound, Option.some_or]
    · cases found : Keyed.lookup token p.values with
      | none => rwa [Option.none_or]
      | some generated =>
        obtain ⟨n, _, same⟩ := allotted.valueKeys _ (Keyed.mem_of_lookup found)
        subst same
        rw [allotted.values n, Option.bind_eq_some_iff] at found
        obtain ⟨allotment, here, made⟩ := found
        rw [(apart n allotment here).2 value bound generated made, Option.some_or]

/-- Placeholders by other names than the generated ones are kept. -/
theorem given_placeholders_kept_of_named :
    let t : TableSchema := ⟨"users", ⟨"id", "S"⟩, .none, []⟩
    let c : Compiler := ⟨t, [("ExpressionAttributeNames", .textMap [("#name", "name")]),
      ("ExpressionAttributeValues", .attributes (some [(":name", .s "Ann")])),
      ("FilterExpression", .text "#name = :name"), ("TableName", .text "users")]⟩
    let d : Document := [("id", .text "u1")]
    let request : Request := [
      ("ExpressionAttributeNames", .textMap [("#k0", "id"), ("#name", "name")]),
      ("ExpressionAttributeValues", .attributes (some [(":name", .s "Ann"), (":v0", .s "u1")])),
      ("FilterExpression", .text "#name = :name"), ("KeyConditionExpression", .text "#k0 = :v0"),
      ("TableName", .text "users")]
    c.compile .query d [] [] = .ok request ∧ c.start [] = .ok c.base ∧
      Keyed.lookup "#name" c.base.names = some "name" ∧
      ∀ token,
        (∀ name, Keyed.lookup token c.base.names = some name →
          Keyed.lookup token (Params.names request) = some name) ∧
        ∀ value, Keyed.lookup token c.base.values = some value →
          Keyed.lookup token (Params.values request) = some value := by
  intro t c d request
  have compiled : c.compile .query d [] [] = .ok request := rfl
  have begun : c.start [] = .ok c.base := rfl
  obtain ⟨given, begunGiven, kept⟩ := given_placeholders_kept_iff compiled
  cases begun.symm.trans begunGiven
  refine ⟨compiled, begun, rfl, kept.mpr fun n allotment here => ?_⟩
  -- only the number 0 is given out
  have single : Operation.query.allotments d [] = [⟨"id", some (.s "u1")⟩] := rfl
  have first : n = 0 := by
    rw [single] at here
    exact Nat.lt_one_iff.mp (List.getElem?_eq_some_iff.mp here).1
  subst first
  have noName : Keyed.lookup (Placeholders.nameToken 0) c.base.names = none := rfl
  have noValue : Keyed.lookup (Placeholders.valueToken 0) c.base.values = none := rfl
  rw [noName, noValue]
  constructor <;> exact fun _ bound => nomatch bound

/-- A filter on the name of a user that is brought along with a query by id becomes a filter on the id. -/
theorem given_placeholders_redirected :
    let t : TableSchema := ⟨"users", ⟨"id", "S"⟩, .none, []⟩
    let base : Params := [("ExpressionAttributeNames", .textMap [("#k0", "name")]),
      ("ExpressionAttributeValues", .attributes (some [(":v0", .s "Ann")])),
      ("FilterExpression", .text "#k0 = :v0")]
    let c : Compiler := ⟨t, [("ExpressionAttributeNames", .textMap [("#k0", "name")]),
      ("ExpressionAttributeValues", .attributes (some [(":v0", .s "Ann")])),
      ("FilterExpression", .text "#k0 = :v0"), ("TableName", .text "users")]⟩
    let request : Request := [("ExpressionAttributeNames", .textMap [("#k0", "id")]),
      ("ExpressionAttributeValues", .attributes (some [(":v0", .s "u1")])),
      ("FilterExpression", .text "#k0 = :v0"), ("KeyConditionExpression", .text "#k0 = :v0"),
      ("TableName", .text "users")]
    new (some t) base = .ok c ∧ c.compile .query [("id", .text "u1")] [] [] = .ok request ∧
      c.start [] = .ok c.base ∧
      Keyed.lookup "#k0" c.base.names = some "name" ∧
      Keyed.lookup "#k0" (Params.names request) = some "id" ∧
      Keyed.lookup ":v0" c.base.values = some (.s "Ann") ∧
      Keyed.lookup ":v0" (Params.values request) = some (.s "u1") := by
  exact ⟨rfl, rfl, rfl, rfl, rfl, rfl, rfl⟩

end Compiler

end DocTable
