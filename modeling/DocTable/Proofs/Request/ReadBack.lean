import DocTable.Proofs.Expression.WrittenUpdate
import DocTable.Proofs.Outcome
import DocTable.Request.Compile

/-!
# Compiled requests are read back

The expressions of a compiled request mean what the documents say.  A request takes the placeholders
of its expressions on top of those that its parameters bring along, so a placeholder stands for what
the compiler has bound it to (`Request.Holds`), and the later steps of compiling keep that.

The reader of conditions therefore finds one comparison for each field of the document, and the reader
of updates one action for each field of the update document (`compile_read_back`).
-/

namespace DocTable

set_option autoImplicit false

/-- The parameter that takes the condition of an operation's document. -/
def Operation.conditionParameter? : Operation → Option String
  | .query => some "KeyConditionExpression"
  | .scan => some "FilterExpression"
  | .delete | .update | .replace => some "ConditionExpression"
  | .insert | .other _ => none

/-! ## The condition of a document -/

theorem Document.written_of_condition {d : Document} {c : Clause} (made : d.condition = .ok c) :
    c.placeholders.Sound ∧
      List.Forall₂ (Clause.Written c.placeholders.context) (d.map Document.joint) c.fragments := by
  rw [condition, Clause.terms_eq_joinAll, terms, List.map_map] at made
  split at made
  · rename_i after joined
    cases made
    obtain ⟨sound, _, fragments, added, written⟩ :=
      @Clause.written_of_joinAll _ (Clause.start .empty) c Placeholders.Sound.empty joined
    rw [added]
    exact ⟨sound, written⟩
  · cases made

/-- A condition of a document with fields is read back, and so it is not empty. -/
theorem Document.parse_condition {d : Document} {c : Clause} {context : Context}
    (made : d.condition = .ok c) (nonempty : d ≠ [])
    (within : c.placeholders.context.Within context) :
    c.condition ≠ "" ∧ ∃ terms, Condition.parse c.condition context = .ok terms ∧
      List.Forall₂ Comparison.Reads d terms := by
  have written := (written_of_condition made).2.imp fun _ _ here => here.mono within
  obtain ⟨terms, read, reads⟩ := Condition.parse_of_written nonempty written
  refine ⟨fun empty => ?_, terms, read, reads⟩
  rw [Clause.condition] at empty
  rw [empty] at read
  cases read
  exact nonempty (List.forall₂_nil_right_iff.mp reads)

namespace Request

/-! ## Expressions in a request -/

/-- What the placeholders of a request stand for. -/
def context (r : Request) : Context := ⟨Params.names r, Params.values r⟩

/-- A request has an expression as a parameter, and its placeholders stand for what they should. -/
structure Holds (r : Request) (parameter expression : String) (p : Placeholders) : Prop where
  text : Params.text r parameter = expression
  within : p.context.Within (context r)

theorem text_congr {r s : Request} {parameter : String}
    (same : Keyed.lookup parameter s = Keyed.lookup parameter r) :
    Params.text s parameter = Params.text r parameter := by
  rw [Params.text, Params.text, same]

theorem context_congr {r s : Request}
    (names : Keyed.lookup Params.namesKey s = Keyed.lookup Params.namesKey r)
    (values : Keyed.lookup Params.valuesKey s = Keyed.lookup Params.valuesKey r) :
    context s = context r := by
  rw [context, context, Params.names, Params.values, Params.names, Params.values, names, values]

/-- The parameters that hold placeholders. -/
def placeholderKeys : List String := [Params.namesKey, Params.valuesKey]

variable {r : Request} {parameter expression : String} {p : Placeholders}

theorem lookup_attach {other : String} (distinct : other ≠ parameter)
    (plain : other ∉ placeholderKeys) :
    Keyed.lookup other (r.attach parameter expression p) = Keyed.lookup other r := by
  simp only [placeholderKeys, List.mem_cons, List.not_mem_nil, or_false, not_or] at plain
  obtain ⟨notNames, notValues⟩ := plain
  rw [attach]
  split
  · rfl
  · split <;> split <;>
      simp only [Keyed.lookup_insert, Ne.symm distinct, Ne.symm notNames, Ne.symm notValues, if_false]

theorem lookup_attach_self (r : Request) (filled : expression ≠ "")
    (plain : parameter ∉ placeholderKeys) :
    Keyed.lookup parameter (r.attach parameter expression p) = some (.text expression) := by
  simp only [placeholderKeys, List.mem_cons, List.not_mem_nil, or_false, not_or] at plain
  obtain ⟨notNames, notValues⟩ := plain
  rw [attach, if_neg filled]
  split <;> split <;>
    simp only [Keyed.lookup_insert, Ne.symm notNames, Ne.symm notValues, if_true, if_false]

theorem lookup_attach_names (r : Request) (parameter : String) (filled : expression ≠ "")
    (bound : p.names ≠ []) : ∃ below, Keyed.lookup Params.namesKey
      (r.attach parameter expression p) = some (.textMap (Keyed.insertAll below p.names)) := by
  have keys : Params.valuesKey ≠ Params.namesKey := by decide
  have present : List.isEmpty p.names = false := by simpa using bound
  rw [attach, if_neg filled]
  simp only [present, Bool.false_eq_true, if_false]
  split
  · exact ⟨_, Keyed.lookup_insert_self _ _ _⟩
  · exact ⟨_, (Keyed.lookup_insert_of_ne _ _ keys).trans (Keyed.lookup_insert_self _ _ _)⟩

theorem lookup_attach_values (r : Request) (parameter : String) (filled : expression ≠ "")
    (bound : p.values ≠ []) : ∃ below, Keyed.lookup Params.valuesKey
      (r.attach parameter expression p) =
        some (.attributes (some (Keyed.insertAll below p.values))) := by
  have present : List.isEmpty p.values = false := by simpa using bound
  rw [attach, if_neg filled]
  simp only [present, Bool.false_eq_true, if_false]
  exact ⟨_, Keyed.lookup_insert_self _ _ _⟩

/-- Attaching an expression gives a request that holds it. -/
theorem Holds.attach (r : Request) (filled : expression ≠ "") (sound : p.Sound)
    (plain : parameter ∉ placeholderKeys) :
    Holds (r.attach parameter expression p) parameter expression p := by
  refine ⟨?_, fun {token name} found => ?_, fun {token value} found => ?_⟩
  · rw [Params.text, lookup_attach_self r filled plain]
    rfl
  · have bound : p.names ≠ [] := by
      intro empty
      simp [Placeholders.context, empty, Keyed.lookup] at found
    obtain ⟨below, names⟩ := lookup_attach_names r parameter filled bound
    rw [context, Params.names, names]
    exact Keyed.lookup_insertAll_of_lookup sound.names found below
  · have bound : p.values ≠ [] := by
      intro empty
      simp [Placeholders.context, empty, Keyed.lookup] at found
    obtain ⟨below, values⟩ := lookup_attach_values r parameter filled bound
    rw [context, Params.values, values]
    exact Keyed.lookup_insertAll_of_lookup sound.values found below

/-- A request that has the same expression and placeholders holds the expression too. -/
theorem Holds.congr {r s : Request} (holds : Holds r parameter expression p)
    (same : ∀ key, key = parameter ∨ key ∈ placeholderKeys →
      Keyed.lookup key s = Keyed.lookup key r) : Holds s parameter expression p := by
  refine ⟨(text_congr (same _ (.inl rfl))).trans holds.text, ?_⟩
  rw [context_congr (same _ (.inr (by decide))) (same _ (.inr (by decide)))]
  exact holds.within

theorem Holds.insert {r : Request} (holds : Holds r parameter expression p) {other : String}
    (distinct : other ≠ parameter) (plain : other ∉ placeholderKeys) (value : Value) :
    Holds (Keyed.insert other value r) parameter expression p := by
  refine holds.congr fun key known => Keyed.lookup_insert_of_ne _ _ ?_
  rintro rfl
  rcases known with same | member
  · exact distinct same
  · exact plain member

theorem Holds.withIndex {r : Request} (holds : Holds r parameter expression p)
    (distinct : "IndexName" ≠ parameter) (path : AccessPath) :
    Holds (r.withIndex path) parameter expression p := by
  unfold Request.withIndex
  split
  · split
    · exact holds
    · exact holds.insert distinct (by decide) _
  · exact holds

theorem Holds.allowed {r : Request} (holds : Holds r parameter expression p) {op : Operation}
    (accepted : ∀ key ∈ parameter :: placeholderKeys, op.allows key = true) :
    Holds (op.allowed r) parameter expression p := by
  refine holds.congr fun key known => ?_
  exact Keyed.lookup_filter (accepted key (List.mem_cons.mpr known))

/-- A second expression with the same placeholders leaves the first one. -/
theorem Holds.attach_other {r : Request} (holds : Holds r parameter expression p)
    {other text : String} (distinct : parameter ≠ other) (plainFirst : parameter ∉ placeholderKeys)
    (plain : other ∉ placeholderKeys) (filled : text ≠ "") (sound : p.Sound) :
    Holds (r.attach other text p) parameter expression p :=
  ⟨(text_congr (lookup_attach distinct plainFirst)).trans holds.text,
    (Holds.attach r filled sound plain).within⟩

/-! ## Operations -/

/-- A request that holds the condition of a document has it read back. -/
theorem Holds.parse_condition {r : Request} {d : Document} {c : Clause}
    (holds : Holds r parameter c.condition p) (made : d.condition = .ok c) (nonempty : d ≠ [])
    (within : c.placeholders.context.Within p.context) :
    ∃ terms, Condition.parse (Params.text r parameter) (context r) = .ok terms ∧
      List.Forall₂ Comparison.Reads d terms := by
  rw [holds.text]
  exact (Document.parse_condition made nonempty (within.trans holds.within)).2

/-- Attaching the condition of a document with fields gives a request that holds it. -/
theorem Holds.attach_condition (r : Request) {d : Document} {c : Clause}
    (made : d.condition = .ok c) (nonempty : d ≠ []) (plain : parameter ∉ placeholderKeys) :
    Holds (r.attach parameter c.condition c.placeholders) parameter c.condition c.placeholders :=
  Holds.attach r (Document.parse_condition made nonempty (.refl _)).1
    (Document.written_of_condition made).1 plain

theorem update_eq_ok {t : TableSchema} {r request : Request} {d extra : Document}
    (built : r.update t d extra = .ok request) :
    ∃ key directives c p expression, t.keyOf d = .ok key ∧
      Directive.ofDocument extra = .ok directives ∧ d.condition = .ok c ∧
      Directive.expression c.placeholders directives = (p, .ok expression) ∧ expression ≠ "" ∧
      request = attach (attach (Keyed.insert "Key" (.attributes (some key)) r)
        "ConditionExpression" c.condition p) "UpdateExpression" expression p := by
  obtain ⟨key, keyed, built⟩ := Outcome.ok_of_bind built
  obtain ⟨directives, read, built⟩ := Outcome.ok_of_bind built
  obtain ⟨c, made, built⟩ := Outcome.ok_of_bind built
  have ofDocument : Directive.ofDocument extra = .ok directives := by
    rw [Request.directives] at read
    split at read
    · cases read
      assumption
    · cases read
  split at built
  · cases built
  · rename_i p expression written
    split at built
    · cases built
    · rename_i filled
      cases built
      exact ⟨key, directives, c, p, expression, keyed, ofDocument, made, written, filled, rfl⟩

/-- The update of directives is read back, and the condition before it keeps its placeholders. -/
theorem parse_expression {p after : Placeholders} {directives : List Directive} {expression : String}
    (sound : p.Sound) (written : Directive.expression p directives = (after, .ok expression))
    (filled : expression ≠ "") :
    after.Sound ∧ p.context.Within after.context ∧ ∀ c, after.context.Within c →
      ∃ found, UpdateAction.parse expression c = .ok found ∧
        List.Forall₂ UpdateAction.CarriesOut (directives.flatMap Directive.entries) found := by
  rw [Directive.expression] at written
  split at written
  · cases written
  · rename_i last texts made
    cases written
    obtain ⟨soundAfter, within, read⟩ := Directive.actions_of_clauses sound made
    refine ⟨soundAfter, within, fun c later => ?_⟩
    obtain ⟨clauses, found, rfl, areClauses, readClauses, carries⟩ := read c later
    have nonempty : clauses ≠ [] := by
      rintro rfl
      exact filled rfl
    exact ⟨found, (UpdateAction.parse_intercalate nonempty areClauses c).trans readClauses, carries⟩

/-- A built request holds the condition of its document. -/
theorem holds_condition {op : Operation} {t : TableSchema} {r request : Request}
    {d extra : Document} (built : Request.build op t r d extra = .ok request)
    (takes : op.conditionParameter? = some parameter) (nonempty : d ≠ []) :
    ∃ c p, d.condition = .ok c ∧ c.placeholders.context.Within p.context ∧
      Holds request parameter c.condition p := by
  cases op with
  | insert => cases takes
  | other _ => cases takes
  | query =>
    cases takes
    obtain ⟨whole, made, done⟩ := Outcome.ok_of_bind built
    cases done
    obtain ⟨c, condition, made⟩ := Outcome.ok_of_bind made
    cases made
    have attached := Holds.attach_condition r condition nonempty
      (show "KeyConditionExpression" ∉ placeholderKeys by decide)
    exact ⟨c, c.placeholders, condition, .refl _,
      (attached.withIndex (by decide) _).allowed (by decide)⟩
  | scan =>
    cases takes
    obtain ⟨whole, made, done⟩ := Outcome.ok_of_bind built
    cases done
    obtain ⟨c, condition, made⟩ := Outcome.ok_of_bind made
    cases made
    have attached := Holds.attach_condition r condition nonempty
      (show "FilterExpression" ∉ placeholderKeys by decide)
    exact ⟨c, c.placeholders, condition, .refl _, attached.allowed (by decide)⟩
  | delete =>
    cases takes
    obtain ⟨whole, made, done⟩ := Outcome.ok_of_bind built
    cases done
    obtain ⟨key, _, made⟩ := Outcome.ok_of_bind made
    obtain ⟨c, condition, made⟩ := Outcome.ok_of_bind made
    cases made
    exact ⟨c, c.placeholders, condition, .refl _,
      (Holds.attach_condition _ condition nonempty (by decide)).allowed (by decide)⟩
  | update =>
    cases takes
    obtain ⟨whole, made, done⟩ := Outcome.ok_of_bind built
    cases done
    obtain ⟨key, directives, c, p, expression, _, _, condition, written, filled, rfl⟩ :=
      update_eq_ok made
    obtain ⟨sound, within, _⟩ :=
      parse_expression (Document.written_of_condition condition).1 written filled
    have conditionFilled := (Document.parse_condition condition nonempty (.refl _)).1
    have attached := Holds.attach (Keyed.insert "Key" (.attributes (some key)) r) conditionFilled
      sound (show "ConditionExpression" ∉ placeholderKeys by decide)
    exact ⟨c, p, condition, within, (attached.attach_other (by decide) (by decide) (by decide) filled
      sound).allowed (by decide)⟩
  | replace =>
    cases takes
    obtain ⟨whole, made, done⟩ := Outcome.ok_of_bind built
    cases done
    obtain ⟨c, condition, made⟩ := Outcome.ok_of_bind made
    obtain ⟨item, _, made⟩ := Outcome.ok_of_bind made
    cases made
    have attached := Holds.attach_condition r condition nonempty
      (show "ConditionExpression" ∉ placeholderKeys by decide)
    exact ⟨c, c.placeholders, condition, .refl _,
      (attached.insert (by decide) (by decide) _).allowed (by decide)⟩

/-- A built update has its update expression read back. -/
theorem parse_update {t : TableSchema} {r request : Request} {d extra : Document}
    (built : Request.build .update t r d extra = .ok request) :
    ∃ directives found, Directive.ofDocument extra = .ok directives ∧
      UpdateAction.parse (Params.text request "UpdateExpression") (context request) = .ok found ∧
      List.Forall₂ UpdateAction.CarriesOut (directives.flatMap Directive.entries) found := by
  obtain ⟨whole, made, done⟩ := Outcome.ok_of_bind built
  cases done
  obtain ⟨key, directives, c, p, expression, _, ofDocument, condition, written, filled, rfl⟩ :=
    update_eq_ok made
  obtain ⟨sound, _, read⟩ :=
    parse_expression (Document.written_of_condition condition).1 written filled
  have holds := (Holds.attach (attach (Keyed.insert "Key" (.attributes (some key)) r)
    "ConditionExpression" c.condition p) filled sound
    (show "UpdateExpression" ∉ placeholderKeys by decide)).allowed
    (show ∀ key ∈ "UpdateExpression" :: placeholderKeys, Operation.update.allows key = true by decide)
  obtain ⟨found, parsed, carries⟩ := read _ holds.within
  refine ⟨directives, found, ofDocument, ?_, carries⟩
  rw [holds.text]
  exact parsed

end Request

/-- **What a compiler writes is what the readers of expressions read.**  The condition of a compiled
request has one comparison for each field of the document, in order and with repetitions: of the
field itself, by the comparison and with the encoded operand that its value asks for.  The update
expression has one action for each field of the directives: of the directive's kind, on the field
itself, and with the encoded operand unless the field is removed. -/
theorem Compiler.compile_read_back {compiler : Compiler} {op : Operation} {d extra : Document}
    {options : List RequestOption} {request : Request}
    (compiled : compiler.compile op d extra options = .ok request) :
    (∀ parameter, op.conditionParameter? = some parameter → d ≠ [] →
      ∃ terms, Condition.parse (Params.text request parameter) (Request.context request) = .ok terms ∧
        List.Forall₂ Comparison.Reads d terms) ∧
    (op = .update → ∃ directives found, Directive.ofDocument extra = .ok directives ∧
      UpdateAction.parse (Params.text request "UpdateExpression") (Request.context request) =
        .ok found ∧
      List.Forall₂ UpdateAction.CarriesOut (directives.flatMap Directive.entries) found) := by
  have build : ∃ start, Request.build op compiler.schema start d extra = .ok request := by
    rw [Compiler.compile] at compiled
    split at compiled
    · cases compiled
    · rw [compileWith] at compiled
      split at compiled
      · split at compiled
        · cases compiled
        · split at compiled
          · cases compiled
          · exact ⟨_, compiled⟩
      · cases compiled
  obtain ⟨start, built⟩ := build
  refine ⟨fun parameter takes nonempty => ?_, ?_⟩
  · obtain ⟨c, p, made, within, holds⟩ := Request.holds_condition built takes nonempty
    exact holds.parse_condition made nonempty within
  · rintro rfl
    exact Request.parse_update built

/-- Fields may have names that look like parts of an expression. -/
theorem Compiler.compile_read_back_of_update :
    let compiler : Compiler := ⟨⟨"users", ⟨"id", "S"⟩, .none, []⟩, [("TableName", .text "users")]⟩
    let d : Document := [("id", .text "a"), ("x AND y", .comparison .gt (.text "b"))]
    let extra : Document :=
      [("$set", .document [("n.m, #k0", .text "c")]), ("$unset", .document [("REMOVE", .null)])]
    ∃ request, compiler.compile .update d extra [] = .ok request ∧
      Params.text request "ConditionExpression" = "#k0 = :v0 AND #k1 > :v1" ∧
      Params.text request "UpdateExpression" = "SET #k2 = :v2 REMOVE #k3" ∧
      (∃ terms, Condition.parse (Params.text request "ConditionExpression")
          (Request.context request) = .ok terms ∧ List.Forall₂ Comparison.Reads d terms) ∧
      ∃ directives found, Directive.ofDocument extra = .ok directives ∧
        UpdateAction.parse (Params.text request "UpdateExpression") (Request.context request) =
          .ok found ∧
        List.Forall₂ UpdateAction.CarriesOut (directives.flatMap Directive.entries) found := by
  intro compiler d extra
  obtain ⟨request, compiled, condition, update⟩ :
      ∃ request, compiler.compile .update d extra [] = .ok request ∧
        Params.text request "ConditionExpression" = "#k0 = :v0 AND #k1 > :v1" ∧
        Params.text request "UpdateExpression" = "SET #k2 = :v2 REMOVE #k3" :=
    ⟨_, rfl, rfl, rfl⟩
  have readBack := compile_read_back compiled
  exact ⟨request, compiled, condition, update, readBack.1 _ rfl (List.cons_ne_nil _ _),
    readBack.2 rfl⟩

end DocTable
