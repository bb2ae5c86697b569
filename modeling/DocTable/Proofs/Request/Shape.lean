import DocTable.Proofs.Expression.SharedPlaceholders
import DocTable.Proofs.Request.Layers

/-!
# The shape of a compiled request

An operation generates some parameters from its documents, with the placeholders of their expressions
(`Request.Generates`).  These placeholders are numbered by the fields of the documents: first those of the
filter, then those of the directives of an update (`Operation.allotments`, `Request.Generates.allotted`).

A request is built on the parameters that it starts from.  What is generated lies over them, whatever they are
(`Params.Generated`), and for a query the index that its filter asks for lies below them.  Then the request is
cut down to what its operation accepts.  `Request.builtOn_of_build` reads the result parameter by parameter.
-/

namespace DocTable

set_option autoImplicit false

/-! ## What an operation generates -/

/-- The parameters that hold the placeholders of an expression, if there are any. -/
def Placeholders.params (p : Placeholders) : Params :=
  (if p.names.isEmpty then [] else [(Params.namesKey, .textMap p.names)]) ++
    if p.values.isEmpty then [] else [(Params.valuesKey, .attributes (some p.values))]

/-- The parameter that takes the condition of a document; a document without fields has none. -/
def Document.conditionParams (d : Document) (parameter : String) (c : Clause) : Params :=
  if d.isEmpty then [] else [(parameter, .text c.condition)]

/-- The fields of a filter, as they are mapped. -/
def Document.mappings (d : Document) : List Mapping := d.map fun field => .joined (joint field)

/-- The fields that an operation maps: those of its filter, then those of the directives of an update. -/
def Operation.mappings (op : Operation) (d extra : Document) : List Mapping :=
  match op with
  | .insert | .other _ => []
  | .query | .scan | .delete | .replace => d.mappings
  | .update => d.mappings ++ (match Directive.ofDocument extra with
    | .ok directives => directives.flatMap Directive.mappings
    | .error _ => [])

/-- What an operation gives placeholders out for: a number is a position in this list. -/
def Operation.allotments (op : Operation) (d extra : Document) : List Allotment :=
  Mapping.allotments (op.mappings d extra)

/-- The index that a query falls back to: the first one whose hash key its filter names, unless the filter
names the hash key of the table. -/
def Operation.defaultIndex (op : Operation) (t : TableSchema) (d : Document) : Params :=
  match op with
  | .query =>
    if d.has t.hash.name then [] else match t.findIndex? d with
      | some index => [("IndexName", .text index.name)]
      | none => []
  | _ => []

/-- What an operation generates for its documents: parameters, and the placeholders of the expressions
among them. -/
inductive Request.Generates (t : TableSchema) (d extra : Document) :
    Operation → Params → Placeholders → Prop where
  | insert {item : Item} (encoded : d.encode = .ok item) :
      Generates t d extra .insert [("Item", .attributes (some item))] .empty
  | query {c : Clause} (condition : d.condition = .ok c) :
      Generates t d extra .query (d.conditionParams "KeyConditionExpression" c) c.placeholders
  | scan {c : Clause} (condition : d.condition = .ok c) :
      Generates t d extra .scan (d.conditionParams "FilterExpression" c) c.placeholders
  | delete {key : Item} {c : Clause} (keyed : t.keyOf d = .ok key) (condition : d.condition = .ok c) :
      Generates t d extra .delete
        (d.conditionParams "ConditionExpression" c ++ [("Key", .attributes (some key))]) c.placeholders
  | update {key : Item} {c : Clause} {directives : List Directive} {p : Placeholders}
      {expression : String} (keyed : t.keyOf d = .ok key) (condition : d.condition = .ok c)
      (read : Directive.ofDocument extra = .ok directives)
      (written : Directive.expression c.placeholders directives = (p, .ok expression))
      (filled : expression ≠ "") :
      Generates t d extra .update
        (("UpdateExpression", .text expression) ::
          (d.conditionParams "ConditionExpression" c ++ [("Key", .attributes (some key))])) p
  | replace {item : Item} {c : Clause} (encoded : extra.encode = .ok item)
      (condition : d.condition = .ok c) :
      Generates t d extra .replace
        (("Item", .attributes (some item)) :: d.conditionParams "ConditionExpression" c) c.placeholders

namespace Document

variable {d : Document} {c : Clause}

theorem condition_eq_addAll (made : d.condition = .ok c) :
    (Clause.start .empty).addAll d.mappings = (c, none) := by
  rw [condition, Clause.terms_eq_joinAll, terms, List.map_map] at made
  split at made
  · rename_i after joined
    cases made
    rw [mappings, ← joined, ← Clause.addAll_joined, List.map_map]
    rfl
  · cases made

/-- The placeholders of a condition are given out for the fields of its document. -/
theorem allotted_condition (made : d.condition = .ok c) :
    Allotted c.placeholders (Mapping.allotments d.mappings) := by
  have markFree : ∀ m ∈ d.mappings, m.MarkFree := by
    intro m member
    obtain ⟨field, _, rfl⟩ := List.mem_map.mp member
    exact StateCall.markFree_mapping field.1 (Resolved.ofValue field.2)
  have start : Allotted (Clause.start .empty).placeholders [] := Allotted.empty
  obtain ⟨_, _, grows⟩ := Grows.addAll start markFree
  rw [condition_eq_addAll made] at grows
  exact grows.allotted

theorem condition_of_nil (made : condition [] = .ok c) : c.condition = "" ∧ c.placeholders = .empty := by
  cases made
  exact ⟨rfl, rfl⟩

end Document

namespace Request

variable {t : TableSchema} {d extra : Document} {op : Operation} {params : Params} {p : Placeholders}

/-- The placeholders that are generated are given out for the fields of the documents. -/
theorem Generates.allotted (generates : Generates t d extra op params p) :
    Allotted p (op.allotments d extra) := by
  cases generates with
  | insert => exact Allotted.empty
  | query condition => exact Document.allotted_condition condition
  | scan condition => exact Document.allotted_condition condition
  | delete _ condition => exact Document.allotted_condition condition
  | replace _ condition => exact Document.allotted_condition condition
  | @update _ c directives _ expression _ condition read written _ =>
    have after : (Directive.collected c.placeholders directives).1 = p := by
      rw [← (Directive.clauses_eq_collected c.placeholders directives).1]
      rw [Directive.expression] at written
      split at written
      · cases written
      · rename_i made
        cases written
        rw [made]
    have grows := Grows.collected (Document.allotted_condition condition) directives
    have complete : ((Clause.start .empty).addAll d.mappings).2.isNone = true := by
      rw [Document.condition_eq_addAll condition]
      rfl
    rw [Operation.allotments, Operation.mappings, read, Grows.allotments_append (Clause.start .empty),
      if_pos complete]
    exact after ▸ grows.allotted

theorem Generates.allows (generates : Generates t d extra op params p) :
    ∀ key ∈ placeholderKeys, op.allows key = true := by
  cases generates <;> decide

end Request

/-! ## Generated parameters -/

namespace Placeholders

variable {p : Placeholders}

theorem lookup_params_other {key : String} (plain : key ∉ Request.placeholderKeys) :
    Keyed.lookup key p.params = none := by
  simp only [Request.placeholderKeys, List.mem_cons, List.not_mem_nil, or_false, not_or] at plain
  refine Keyed.lookup_eq_none fun entry member same => ?_
  subst same
  rw [params] at member
  rcases List.mem_append.mp member with names | values
  · split at names
    · cases names
    · rw [List.mem_singleton.mp names] at plain
      exact plain.1 rfl
  · split at values
    · cases values
    · rw [List.mem_singleton.mp values] at plain
      exact plain.2 rfl

theorem contains_params_names : Keyed.contains Params.namesKey p.params = !p.names.isEmpty := by
  have distinct : Params.valuesKey ≠ Params.namesKey := by decide
  rw [params, Keyed.contains, Keyed.lookup_append]
  split <;> split <;> simp_all [Keyed.lookup]

theorem contains_params_values : Keyed.contains Params.valuesKey p.params = !p.values.isEmpty := by
  have distinct : Params.namesKey ≠ Params.valuesKey := by decide
  rw [params, Keyed.contains, Keyed.lookup_append]
  split <;> split <;> simp_all [Keyed.lookup]

end Placeholders

namespace Params

theorem names_congr {p q : Params} (same : Keyed.lookup namesKey q = Keyed.lookup namesKey p) :
    names q = names p := by
  rw [names, names, same]

theorem values_congr {p q : Params} (same : Keyed.lookup valuesKey q = Keyed.lookup valuesKey p) :
    values q = values p := by
  rw [values, values, same]

end Params

namespace Request

variable {r : Request} {parameter expression : String} {p : Placeholders}

theorem lookup_attach_namesKey (filled : expression ≠ "") (plain : parameter ∉ placeholderKeys) :
    Keyed.lookup Params.namesKey (r.attach parameter expression p) =
      if p.names.isEmpty then Keyed.lookup Params.namesKey r
      else some (.textMap (Keyed.insertAll (Params.names r) p.names)) := by
  have keys : Params.valuesKey ≠ Params.namesKey := by decide
  have other : parameter ≠ Params.namesKey := by
    rintro rfl
    exact plain (by decide)
  have kept : Keyed.lookup Params.namesKey (Keyed.insert parameter (.text expression) r) =
      Keyed.lookup Params.namesKey r := Keyed.lookup_insert_of_ne _ _ other
  rw [attach, if_neg filled]
  split <;> split <;>
    simp only [Keyed.lookup_insert_of_ne _ _ keys, Keyed.lookup_insert_self, kept, Params.names_congr kept]

theorem lookup_attach_valuesKey (filled : expression ≠ "") (plain : parameter ∉ placeholderKeys) :
    Keyed.lookup Params.valuesKey (r.attach parameter expression p) =
      if p.values.isEmpty then Keyed.lookup Params.valuesKey r
      else some (.attributes (some (Keyed.insertAll (Params.values r) p.values))) := by
  have keys : Params.namesKey ≠ Params.valuesKey := by decide
  have other : parameter ≠ Params.valuesKey := by
    rintro rfl
    exact plain (by decide)
  have kept : Keyed.lookup Params.valuesKey (Keyed.insert parameter (.text expression) r) =
      Keyed.lookup Params.valuesKey r := Keyed.lookup_insert_of_ne _ _ other
  have keptNamed : ∀ value, Keyed.lookup Params.valuesKey
      (Keyed.insert Params.namesKey value (Keyed.insert parameter (.text expression) r)) =
      Keyed.lookup Params.valuesKey r := fun value => (Keyed.lookup_insert_of_ne _ _ keys).trans kept
  rw [attach, if_neg filled]
  split <;> split <;>
    simp only [Keyed.lookup_insert_self, kept, keptNamed, Params.values_congr kept,
      Params.values_congr (keptNamed _)]

/-- The names of an attached expression are inserted into those that are there. -/
theorem names_attach (filled : expression ≠ "") (plain : parameter ∉ placeholderKeys) :
    Params.names (r.attach parameter expression p) = Keyed.insertAll (Params.names r) p.names := by
  have entry := lookup_attach_namesKey (r := r) (p := p) filled plain
  by_cases empty : p.names.isEmpty = true
  · rw [if_pos empty] at entry
    rw [Params.names_congr entry, List.isEmpty_iff.mp empty]
    rfl
  · rw [if_neg empty] at entry
    rw [Params.names, entry]

/-- The values of an attached expression are inserted into those that are there. -/
theorem values_attach (filled : expression ≠ "") (plain : parameter ∉ placeholderKeys) :
    Params.values (r.attach parameter expression p) = Keyed.insertAll (Params.values r) p.values := by
  have entry := lookup_attach_valuesKey (r := r) (p := p) filled plain
  by_cases empty : p.values.isEmpty = true
  · rw [if_pos empty] at entry
    rw [Params.values_congr entry, List.isEmpty_iff.mp empty]
    rfl
  · rw [if_neg empty] at entry
    rw [Params.values, entry]

theorem contains_attach (filled : expression ≠ "") (plain : parameter ∉ placeholderKeys) {key : String}
    (known : key ∈ placeholderKeys) :
    Keyed.contains key (r.attach parameter expression p) =
      (Keyed.contains key p.params || Keyed.contains key r) := by
  simp only [placeholderKeys, List.mem_cons, List.not_mem_nil, or_false] at known
  rcases known with rfl | rfl
  · rw [Keyed.contains, lookup_attach_namesKey filled plain, Placeholders.contains_params_names]
    cases List.isEmpty p.names <;> rfl
  · rw [Keyed.contains, lookup_attach_valuesKey filled plain, Placeholders.contains_params_values]
    cases List.isEmpty p.values <;> rfl

theorem typed_attach (typed : Params.IsTyped r) (filled : expression ≠ "")
    (plain : parameter ∉ placeholderKeys) : Params.IsTyped (r.attach parameter expression p) where
  names value found := by
    rw [lookup_attach_namesKey filled plain] at found
    split at found
    · exact typed.names value found
    · cases found
      exact ⟨_, rfl, typed.ascending_names.insertAll _⟩
  values value found := by
    rw [lookup_attach_valuesKey filled plain] at found
    split at found
    · exact typed.values value found
    · cases found
      exact ⟨_, rfl, typed.ascending_values.insertAll _⟩

end Request

namespace Params

variable {params below whole : Params} {p q : Placeholders}

/-- What is generated so far on top of other parameters: parameters of its own, and placeholders. -/
structure Generated (params : Params) (p : Placeholders) (below whole : Params) : Prop where
  bare : params.Bare
  lookup : ∀ key ∉ Request.placeholderKeys,
    Keyed.lookup key whole = (Keyed.lookup key params).or (Keyed.lookup key below)
  contains : ∀ key ∈ Request.placeholderKeys,
    Keyed.contains key whole = (Keyed.contains key p.params || Keyed.contains key below)
  names : ∀ token, Keyed.lookup token whole.names =
    (Keyed.lookup token p.names).or (Keyed.lookup token below.names)
  values : ∀ token, Keyed.lookup token whole.values =
    (Keyed.lookup token p.values).or (Keyed.lookup token below.values)
  typed : below.IsTyped → whole.IsTyped

namespace Generated

theorem start (below : Params) : Generated [] .empty below below where
  bare := .nil
  lookup _ _ := rfl
  contains _ _ := rfl
  names _ := rfl
  values _ := rfl
  typed := id

theorem insert (generated : Generated params p below whole) {key : String}
    (plain : key ∉ Request.placeholderKeys) (value : Value) :
    Generated ((key, value) :: params) p below (Keyed.insert key value whole) := by
  have kept : ∀ known ∈ Request.placeholderKeys,
      Keyed.lookup known (Keyed.insert key value whole) = Keyed.lookup known whole := by
    intro known member
    refine Keyed.lookup_insert_of_ne _ _ ?_
    rintro rfl
    exact plain member
  refine ⟨generated.bare.cons plain value, fun other plainOther => ?_, fun known member => ?_, fun token => ?_,
    fun token => ?_, fun typed => (generated.typed typed).insert_other plain value⟩
  · rw [Keyed.lookup_insert, Keyed.lookup]
    split
    · rfl
    · exact generated.lookup other plainOther
  · rw [Keyed.contains, kept known member]
    exact generated.contains known member
  · rw [names_congr (kept _ (by decide)), generated.names]
  · rw [values_congr (kept _ (by decide)), generated.values]

/-- An expression is generated on top of what was generated with none of its placeholders, or with all. -/
theorem attach (generated : Generated params q below whole) (earlier : q = .empty ∨ q = p)
    (names : Keyed.Ascending p.names) (values : Keyed.Ascending p.values) {parameter expression : String}
    (plain : parameter ∉ Request.placeholderKeys) (filled : expression ≠ "") :
    Generated ((parameter, .text expression) :: params) p below
      (Request.attach whole parameter expression p) := by
  refine ⟨generated.bare.cons plain _, fun key plainKey => ?_, fun key known => ?_, fun token => ?_,
    fun token => ?_, fun typed => Request.typed_attach (generated.typed typed) filled plain⟩
  · rw [Keyed.lookup]
    split
    · rename_i same
      rw [← same, Request.lookup_attach_self whole filled plain]
      rfl
    · rename_i distinct
      rw [Request.lookup_attach (Ne.symm distinct) plainKey]
      exact generated.lookup key plainKey
  · rw [Request.contains_attach filled plain known, generated.contains key known]
    rcases earlier with rfl | rfl
    · rfl
    · rw [← Bool.or_assoc, Bool.or_self]
  · rw [Request.names_attach filled plain, Keyed.lookup_insertAll names, generated.names]
    rcases earlier with rfl | rfl
    · rfl
    · rw [← Option.or_assoc, Option.or_self]
  · rw [Request.values_attach filled plain, Keyed.lookup_insertAll values, generated.values]
    rcases earlier with rfl | rfl
    · rfl
    · rw [← Option.or_assoc, Option.or_self]

/-- A parameter is there if it is generated, or was there before. -/
theorem contains_iff (generated : Generated params p below whole) (key : String) :
    Keyed.contains key whole = true ↔
      Keyed.contains key (params ++ p.params) = true ∨ Keyed.contains key below = true := by
  by_cases known : key ∈ Request.placeholderKeys
  · have generatedKey : Keyed.contains key (params ++ p.params) = Keyed.contains key p.params :=
      congrArg Option.isSome (generated.bare.lookup_append known p.params)
    rw [generated.contains key known, Bool.or_eq_true, generatedKey]
  · have generatedKey : Keyed.contains key (params ++ p.params) = Keyed.contains key params := by
      rw [Keyed.contains, Keyed.lookup_append, Placeholders.lookup_params_other known, Option.or_none,
        Keyed.contains]
    rw [generatedKey, Keyed.contains, generated.lookup key known, Option.isSome_or, Bool.or_eq_true]
    rfl

/-- The condition of a document is generated unless the document has no fields. -/
theorem condition (generated : Generated params .empty below whole) (names : Keyed.Ascending p.names)
    (values : Keyed.Ascending p.values) {d : Document} {c : Clause} (made : d.condition = .ok c)
    {parameter : String} (plain : parameter ∉ Request.placeholderKeys) :
    Generated (d.conditionParams parameter c ++ params) (if d.isEmpty then .empty else p) below
      (Request.attach whole parameter c.condition p) := by
  cases d with
  | nil =>
    rw [(Document.condition_of_nil made).1, Request.attach, if_pos rfl]
    exact generated
  | cons field rest =>
    exact generated.attach (.inl rfl) names values plain
      (Document.parse_condition made (List.cons_ne_nil field rest) (.refl _)).1

theorem own_condition (generated : Generated params .empty below whole) {d : Document} {c : Clause}
    (made : d.condition = .ok c) {parameter : String} (plain : parameter ∉ Request.placeholderKeys) :
    Generated (d.conditionParams parameter c ++ params) c.placeholders below
      (Request.attach whole parameter c.condition c.placeholders) := by
  have allotted := Document.allotted_condition made
  have attached := generated.condition allotted.ascendingNames allotted.ascendingValues made plain
  cases d with
  | nil => exact (Document.condition_of_nil made).2 ▸ attached
  | cons => exact attached

end Generated

end Params

/-! ## Built requests -/

namespace Operation

variable {op : Operation}

theorem bare_defaultIndex (op : Operation) (t : TableSchema) (d : Document) :
    Params.Bare (op.defaultIndex t d) := by
  rw [defaultIndex.eq_def]
  split
  · split
    · exact .nil
    · split
      · exact .cons .nil (by decide) _
      · exact .nil
  · exact .nil

theorem lookup_allowed (key : String) (r : Params) :
    Keyed.lookup key (op.allowed r) = if op.allows key then Keyed.lookup key r else none := by
  split
  · rename_i allowed
    exact Keyed.lookup_filter allowed
  · rename_i refused
    exact Keyed.lookup_filter_of_not (Bool.not_eq_true _ ▸ refused)

end Operation

namespace Request

variable {t : TableSchema} {start request : Request} {d extra : Document} {op : Operation}

/-- Giving a query an index sets the index that its filter asks for below what is there. -/
theorem lookup_withIndex_or (t : TableSchema) (d : Document) (r : Request) (key : String) :
    Keyed.lookup key (r.withIndex (t.accessPath d)) =
      (Keyed.lookup key r).or (Keyed.lookup key (Operation.query.defaultIndex t d)) := by
  rw [Operation.defaultIndex, TableSchema.accessPath]
  split
  · exact Option.or_none.symm
  · cases t.findIndex? d with
    | none => exact Option.or_none.symm
    | some index => exact Params.lookup_default _ key _ r

/-- Building a request generates parameters on top of those that it starts from, sets the default index below
them, and keeps what the operation accepts. -/
theorem generated_of_build (built : build op t start d extra = .ok request) :
    ∃ params p whole, Generates t d extra op params p ∧ Params.Generated params p start whole ∧
      ∀ key, Keyed.lookup key request = if op.allows key then
        (Keyed.lookup key whole).or (Keyed.lookup key (op.defaultIndex t d)) else none := by
  have begun := Params.Generated.start start
  -- only a query has a default index
  have unindexed : op.defaultIndex t d = [] → ∀ (whole : Request) key,
      Keyed.lookup key (op.allowed whole) = if op.allows key then
        (Keyed.lookup key whole).or (Keyed.lookup key (op.defaultIndex t d)) else none := by
    intro none whole key
    rw [Operation.lookup_allowed, none, Keyed.lookup, Option.or_none]
  cases op with
  | insert =>
    obtain ⟨whole, made, done⟩ := Outcome.ok_of_bind built
    obtain ⟨item, encoded, made⟩ := Outcome.ok_of_bind made
    cases made
    cases done
    exact ⟨_, _, _, .insert (encode_of_item encoded), begun.insert (by decide) _, unindexed rfl _⟩
  | query =>
    obtain ⟨whole, made, done⟩ := Outcome.ok_of_bind built
    obtain ⟨c, condition, made⟩ := Outcome.ok_of_bind made
    cases made
    cases done
    have generated := begun.own_condition condition (show "KeyConditionExpression" ∉ placeholderKeys by decide)
    rw [List.append_nil] at generated
    refine ⟨_, _, _, .query condition, generated, fun key => ?_⟩
    rw [Operation.lookup_allowed, lookup_withIndex_or]
  | scan =>
    obtain ⟨whole, made, done⟩ := Outcome.ok_of_bind built
    obtain ⟨c, condition, made⟩ := Outcome.ok_of_bind made
    cases made
    cases done
    have generated := begun.own_condition condition (show "FilterExpression" ∉ placeholderKeys by decide)
    rw [List.append_nil] at generated
    exact ⟨_, _, _, .scan condition, generated, unindexed rfl _⟩
  | delete =>
    obtain ⟨whole, made, done⟩ := Outcome.ok_of_bind built
    obtain ⟨key, keyed, made⟩ := Outcome.ok_of_bind made
    obtain ⟨c, condition, made⟩ := Outcome.ok_of_bind made
    cases made
    cases done
    exact ⟨_, _, _, .delete keyed condition,
      (begun.insert (by decide) _).own_condition condition (by decide), unindexed rfl _⟩
  | update =>
    obtain ⟨whole, made, done⟩ := Outcome.ok_of_bind built
    cases done
    obtain ⟨key, directives, c, p, expression, keyed, read, condition, written, filled, rfl⟩ :=
      update_eq_ok made
    have generates : Generates t d extra .update _ p := .update keyed condition read written filled
    have allotted := generates.allotted
    have conditional := (begun.insert (show "Key" ∉ placeholderKeys by decide)
      (.attributes (some key))).condition allotted.ascendingNames allotted.ascendingValues condition
      (show "ConditionExpression" ∉ placeholderKeys by decide)
    refine ⟨_, _, _, generates, conditional.attach ?_ allotted.ascendingNames allotted.ascendingValues
      (by decide) filled, unindexed rfl _⟩
    cases d with
    | nil => exact .inl rfl
    | cons => exact .inr rfl
  | replace =>
    obtain ⟨whole, made, done⟩ := Outcome.ok_of_bind built
    obtain ⟨c, condition, made⟩ := Outcome.ok_of_bind made
    obtain ⟨item, encoded, made⟩ := Outcome.ok_of_bind made
    cases made
    cases done
    have generated := begun.own_condition condition (show "ConditionExpression" ∉ placeholderKeys by decide)
    rw [List.append_nil] at generated
    exact ⟨_, _, _, .replace (encode_of_item encoded) condition, generated.insert (by decide) _,
      unindexed rfl _⟩
  | other _ => cases built

/-- What a built request holds: what is generated, what it starts from and the default index, as far as the
operation accepts it. -/
structure BuiltOn (t : TableSchema) (start : Params) (d extra : Document) (op : Operation) (params : Params)
    (p : Placeholders) (request : Request) : Prop where
  generates : Generates t d extra op params p
  contains : ∀ key, Keyed.contains key request = true ↔ op.allows key = true ∧
    (Keyed.contains key (params ++ p.params) = true ∨ Keyed.contains key start = true ∨
      Keyed.contains key (op.defaultIndex t d) = true)
  lookup : ∀ key ∉ placeholderKeys, op.allows key = true → Keyed.lookup key request =
    (Keyed.lookup key params).or ((Keyed.lookup key start).or (Keyed.lookup key (op.defaultIndex t d)))
  names : ∀ token, Keyed.lookup token (Params.names request) =
    (Keyed.lookup token p.names).or (Keyed.lookup token start.names)
  values : ∀ token, Keyed.lookup token (Params.values request) =
    (Keyed.lookup token p.values).or (Keyed.lookup token start.values)
  typed : start.IsTyped → Params.IsTyped request

theorem builtOn_of_build (built : build op t start d extra = .ok request) :
    ∃ params p, BuiltOn t start d extra op params p request := by
  obtain ⟨params, p, whole, generates, generated, lookup⟩ := generated_of_build built
  have kept : ∀ key ∈ placeholderKeys, Keyed.lookup key request = Keyed.lookup key whole := by
    intro key known
    rw [lookup, if_pos (generates.allows key known), op.bare_defaultIndex t d key known, Option.or_none]
  refine ⟨params, p, generates, fun key => ?_, fun key plain allowed => ?_, fun token => ?_, fun token => ?_,
    fun typed => (generated.typed typed).congr (kept _ (by decide)) (kept _ (by decide))⟩
  · rw [Keyed.contains, lookup]
    split
    · rename_i allowed
      rw [Option.isSome_or, Bool.or_eq_true, and_iff_right allowed, ← or_assoc]
      exact or_congr_left (generated.contains_iff key)
    · rename_i refused
      exact ⟨fun there => absurd there Bool.false_ne_true, fun both => absurd both.1 refused⟩
  · rw [lookup, if_pos allowed, generated.lookup key plain, Option.or_assoc]
  · rw [Params.names_congr (kept _ (by decide)), generated.names]
  · rw [Params.values_congr (kept _ (by decide)), generated.values]

end Request

end DocTable
