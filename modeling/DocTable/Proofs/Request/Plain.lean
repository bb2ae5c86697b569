import DocTable.Proofs.Request.ReadBack
import DocTable.Request.Typed
import DocTable.Store.Basic

/-!
# Plain requests

A request to which no caller adds parameters of its own is plain: its parameters are texts, attributes
in the order of their names, and the names of placeholders (`Params.Plain`).  Such a request always has
a typed form, which repeats its parameters one by one (`TypedRequest.ofParams_of_plain`).

`Request.Built` says once what building a request does, operation by operation.  That building keeps
a request plain, which parameters it leaves alone and what it sets the others to is read off it.
-/

namespace DocTable

set_option autoImplicit false

/-! ## Plain parameters -/

namespace Params

/-- The text of a parameter, if it is one. -/
def text? (p : Params) (key : String) : Option String := (Keyed.lookup key p).bind Value.text?

theorem text?_of_text_ne_empty {p : Params} {key : String} (filled : p.text key ≠ "") :
    p.text? key = some (p.text key) := by
  rw [text] at filled
  rw [text?, text]
  cases found : (Keyed.lookup key p).bind Value.text? with
  | none =>
    rw [found] at filled
    exact absurd rfl filled
  | some t => rfl

/-- The parameters that the compiler sets to texts. -/
def textKeys : List String :=
  ["TableName", "ConditionExpression", "FilterExpression", "KeyConditionExpression",
    "UpdateExpression", "IndexName"]

/-- The parameters that the compiler sets to attributes. -/
def itemKeys : List String := ["Item", "Key", valuesKey]

/-- The parameters that the compiler sets. -/
def plainKeys : List String := namesKey :: (textKeys ++ itemKeys)

/-- A parameter as the compiler sets it. -/
inductive PlainEntry : String × Value → Prop where
  | text {key t : String} (known : key ∈ textKeys) : PlainEntry (key, .text t)
  | item {key : String} {item : Item} (known : key ∈ itemKeys)
      (ascending : Keyed.Ascending item) : PlainEntry (key, .attributes (some item))
  | names {names : Fields String} : PlainEntry (namesKey, .textMap names)

/-- Parameters that are all as the compiler sets them. -/
def Plain (p : Params) : Prop := ∀ entry ∈ p, PlainEntry entry

namespace Plain

variable {p : Params} {key : String}

theorem of_tableName (name : String) : Plain [("TableName", .text name)] := by
  intro entry member
  rw [List.mem_singleton.mp member]
  exact .text (by decide)

theorem insert (plain : Plain p) {value : Value} (entry : PlainEntry (key, value)) :
    Plain (Keyed.insert key value p) := by
  intro other member
  rcases Keyed.mem_insert member with here | there
  · exact here ▸ entry
  · exact plain other there

theorem allowed (plain : Plain p) (op : Operation) : Plain (op.allowed p) :=
  fun entry member => plain entry (List.mem_of_mem_filter member)

theorem lookup_text (plain : Plain p) (known : key ∈ textKeys) :
    Keyed.lookup key p = (p.text? key).map .text := by
  rw [text?]
  cases found : Keyed.lookup key p with
  | none => rfl
  | some value =>
    cases plain _ (Keyed.mem_of_lookup found) with
    | text => rfl
    | item other =>
      simp only [itemKeys, List.mem_cons, List.not_mem_nil, or_false] at other
      rcases other with rfl | rfl | rfl <;> exact absurd known (by decide)
    | names => exact absurd known (by decide)

theorem lookup_item (plain : Plain p) (known : key ∈ itemKeys) :
    Keyed.lookup key p = (p.attributes? key).map fun item => .attributes (some item) := by
  rw [attributes?]
  cases found : Keyed.lookup key p with
  | none => rfl
  | some value =>
    cases plain _ (Keyed.mem_of_lookup found) with
    | item => rfl
    | text other =>
      simp only [itemKeys, List.mem_cons, List.not_mem_nil, or_false] at known
      rcases known with rfl | rfl | rfl <;> exact absurd other (by decide)
    | names => exact absurd known (by decide)

theorem ascending_attributes (plain : Plain p) {item : Item}
    (found : p.attributes? key = some item) : Keyed.Ascending item := by
  rw [attributes?] at found
  split at found
  · rename_i item? there
    cases found
    cases plain _ (Keyed.mem_of_lookup there) with
    | item _ ascending => exact ascending
  · cases found

theorem lookup_other (plain : Plain p) (other : key ∉ plainKeys) : Keyed.lookup key p = none := by
  refine Keyed.lookup_eq_none fun entry member same => other ?_
  subst same
  cases plain entry member with
  | text known => exact List.mem_cons_of_mem _ (List.mem_append_left _ known)
  | item known => exact List.mem_cons_of_mem _ (List.mem_append_right _ known)
  | names => exact List.mem_cons_self

end Plain

end Params

/-! ## The typed form of plain parameters -/

namespace Conversion

variable {p : Params} {key : String}

theorem optional_text (plain : p.Plain) (known : key ∈ Params.textKeys) :
    optional p key (fun name v => text name "string" v) = (p.text? key, []) := by
  rw [optional, plain.lookup_text known]
  cases p.text? key <;> rfl

theorem item_of_plain (plain : p.Plain) (known : key ∈ Params.itemKeys) :
    item p key = (p.attributes? key, []) := by
  rw [item, plain.lookup_item known]
  cases found : p.attributes? key with
  | none => rfl
  | some attributes =>
    have inOrder := Keyed.insertAll_of_ascending
      (show Keyed.Ascending ([] ++ attributes) from plain.ascending_attributes found)
    simp only [Option.map_some, Conversion.attributes, Option.getD_none, inOrder, List.nil_append]

theorem optional_of_missing {α : Type} (missing : Keyed.lookup key p = none)
    (convert : String → Value → Except ConversionFault α) :
    optional p key convert = (none, []) := by
  rw [optional, missing]

theorem choice_of_missing (missing : Keyed.lookup key p = none) (want : String) :
    choice p key want = ("", []) := by
  rw [choice, missing]

theorem item_of_missing (missing : Keyed.lookup key p = none) : item p key = (none, []) := by
  rw [item, missing]

end Conversion

namespace TypedRequest

open Conversion

/-- The typed form of plain parameters. -/
def ofPlain (p : Params) : TypedRequest where
  tableName? := p.text? "TableName"
  item? := p.attributes? "Item"
  key? := p.attributes? "Key"
  names? := Conversion.names p
  values? := p.attributes? Params.valuesKey
  condition? := p.text? "ConditionExpression"
  filter? := p.text? "FilterExpression"
  keyCondition? := p.text? "KeyConditionExpression"
  update? := p.text? "UpdateExpression"
  indexName? := p.text? "IndexName"

/-- Plain parameters have their typed form. -/
theorem ofParams_of_plain {p : Params} (plain : p.Plain) (op : Operation) :
    ofParams op p = .ok (ofPlain p) := by
  have texts : ∀ {key : String}, key ∈ Params.textKeys →
      optional p key (fun name v => text name "string" v) = (p.text? key, []) :=
    optional_text plain
  have items : ∀ {key : String}, key ∈ Params.itemKeys → item p key = (p.attributes? key, []) :=
    item_of_plain plain
  have missing : ∀ {key : String}, key ∉ Params.plainKeys → Keyed.lookup key p = none :=
    plain.lookup_other
  unfold ofParams
  dsimp -iota only
  rw [texts (show "TableName" ∈ _ by decide), texts (show "ConditionExpression" ∈ _ by decide),
    texts (show "FilterExpression" ∈ _ by decide),
    texts (show "KeyConditionExpression" ∈ _ by decide),
    texts (show "UpdateExpression" ∈ _ by decide), texts (show "IndexName" ∈ _ by decide),
    items (show "Item" ∈ _ by decide), items (show "Key" ∈ _ by decide),
    items (show Params.valuesKey ∈ _ by decide),
    item_of_missing (missing (show "ExclusiveStartKey" ∉ _ by decide)),
    optional_of_missing (missing (show "ProjectionExpression" ∉ _ by decide)),
    optional_of_missing (missing (show "ConsistentRead" ∉ _ by decide)),
    optional_of_missing (missing (show "ScanIndexForward" ∉ _ by decide)),
    optional_of_missing (missing (show "Limit" ∉ _ by decide)),
    optional_of_missing (missing (show "Segment" ∉ _ by decide)),
    optional_of_missing (missing (show "TotalSegments" ∉ _ by decide)),
    choice_of_missing (missing (show "ReturnConsumedCapacity" ∉ _ by decide)),
    choice_of_missing (missing (show "ReturnItemCollectionMetrics" ∉ _ by decide)),
    choice_of_missing (missing (show "ReturnValues" ∉ _ by decide)),
    choice_of_missing (missing (show "Select" ∉ _ by decide))]
  rfl

theorem context_ofPlain (p : Params) : (ofPlain p).context = Request.context p := by
  have names : (Conversion.names p).getD [] = Params.names p := by
    rw [Conversion.names, Params.names]
    rcases Keyed.lookup Params.namesKey p with _ | value
    · rfl
    · cases value <;> rfl
  have values : (p.attributes? Params.valuesKey).getD [] = Params.values p := by
    rw [Params.attributes?, Params.values]
    rcases Keyed.lookup Params.valuesKey p with _ | value
    · rfl
    · cases value with
      | attributes item? => cases item? <;> rfl
      | _ => rfl
  rw [context, Request.context]
  exact congrArg₂ Context.mk names values

end TypedRequest

/-! ## Built requests -/

/-- The parameters that building a request of an operation sets. -/
def Operation.builtKeys : Operation → List String
  | .insert => ["Item"]
  | .query => "KeyConditionExpression" :: "IndexName" :: Request.placeholderKeys
  | .scan => "FilterExpression" :: Request.placeholderKeys
  | .delete => "Key" :: "ConditionExpression" :: Request.placeholderKeys
  | .update => "Key" :: "ConditionExpression" :: "UpdateExpression" :: Request.placeholderKeys
  | .replace => "Item" :: "ConditionExpression" :: Request.placeholderKeys
  | .other _ => []

namespace Request

/-- What building a request does to the parameters that it starts from. -/
inductive Built (t : TableSchema) (r : Request) (d extra : Document) : Operation → Request → Prop where
  | insert {item : Item} (encoded : d.encode = .ok item) :
      Built t r d extra .insert
        (Operation.insert.allowed (Keyed.insert "Item" (.attributes (some item)) r))
  | query {c : Clause} (condition : d.condition = .ok c) :
      Built t r d extra .query (Operation.query.allowed
        ((r.attach "KeyConditionExpression" c.condition c.placeholders).withIndex (t.accessPath d)))
  | scan {c : Clause} (condition : d.condition = .ok c) :
      Built t r d extra .scan
        (Operation.scan.allowed (r.attach "FilterExpression" c.condition c.placeholders))
  | delete {key : Item} {c : Clause} (keyed : t.keyOf d = .ok key)
      (condition : d.condition = .ok c) :
      Built t r d extra .delete (Operation.delete.allowed
        (Request.attach (Keyed.insert "Key" (.attributes (some key)) r) "ConditionExpression"
          c.condition c.placeholders))
  | update {key : Item} {c : Clause} {p : Placeholders} {expression : String}
      (keyed : t.keyOf d = .ok key) (condition : d.condition = .ok c) :
      Built t r d extra .update (Operation.update.allowed
        (Request.attach (Request.attach (Keyed.insert "Key" (.attributes (some key)) r)
          "ConditionExpression" c.condition p) "UpdateExpression" expression p))
  | replace {item : Item} {c : Clause} (encoded : extra.encode = .ok item)
      (condition : d.condition = .ok c) :
      Built t r d extra .replace (Operation.replace.allowed
        (Keyed.insert "Item" (.attributes (some item))
          (r.attach "ConditionExpression" c.condition c.placeholders)))

variable {t : TableSchema} {r request : Request} {d extra : Document} {op : Operation}

theorem encode_of_item {item : Item} (made : d.item = .ok item) : d.encode = .ok item := by
  rw [Document.item] at made
  split at made
  · cases made
    assumption
  · cases made

theorem built_of_build (built : Request.build op t r d extra = .ok request) :
    Built t r d extra op request := by
  cases op with
  | insert =>
    obtain ⟨whole, made, done⟩ := Outcome.ok_of_bind built
    obtain ⟨item, encoded, made⟩ := Outcome.ok_of_bind made
    cases made
    cases done
    exact .insert (encode_of_item encoded)
  | query =>
    obtain ⟨whole, made, done⟩ := Outcome.ok_of_bind built
    obtain ⟨c, condition, made⟩ := Outcome.ok_of_bind made
    cases made
    cases done
    exact .query condition
  | scan =>
    obtain ⟨whole, made, done⟩ := Outcome.ok_of_bind built
    obtain ⟨c, condition, made⟩ := Outcome.ok_of_bind made
    cases made
    cases done
    exact .scan condition
  | delete =>
    obtain ⟨whole, made, done⟩ := Outcome.ok_of_bind built
    obtain ⟨key, keyed, made⟩ := Outcome.ok_of_bind made
    obtain ⟨c, condition, made⟩ := Outcome.ok_of_bind made
    cases made
    cases done
    exact .delete keyed condition
  | update =>
    obtain ⟨whole, made, done⟩ := Outcome.ok_of_bind built
    cases done
    obtain ⟨key, directives, c, p, expression, keyed, _, condition, _, _, rfl⟩ := update_eq_ok made
    exact .update keyed condition
  | replace =>
    obtain ⟨whole, made, done⟩ := Outcome.ok_of_bind built
    obtain ⟨c, condition, made⟩ := Outcome.ok_of_bind made
    obtain ⟨item, encoded, made⟩ := Outcome.ok_of_bind made
    cases made
    cases done
    exact .replace (encode_of_item encoded) condition
  | other _ => cases built

theorem plain_attach (plain : Params.Plain r) {parameter : String} (known : parameter ∈ Params.textKeys)
    (expression : String) (p : Placeholders) : Params.Plain (r.attach parameter expression p) := by
  have ascending : ∀ {s : Request}, Params.Plain s → Keyed.Ascending (Params.values s) := by
    intro s plain
    rw [Params.values]
    split
    · rename_i values found
      have attributes : s.attributes? Params.valuesKey = some values := by
        rw [Params.attributes?, found]
      exact plain.ascending_attributes attributes
    · exact List.Pairwise.nil
  have withNames : ∀ {s : Request}, Params.Plain s → Params.Plain (if p.names.isEmpty then s else
      Keyed.insert Params.namesKey (.textMap (Keyed.insertAll (Params.names s) p.names)) s) := by
    intro s plain
    split
    · exact plain
    · exact plain.insert .names
  rw [attach]
  split
  · exact plain
  · have named := withNames (plain.insert (.text (t := expression) known))
    dsimp only
    split
    · exact named
    · exact named.insert (.item (by decide) ((ascending named).insertAll _))

theorem ascending_encode {item : Item} (encoded : d.encode = .ok item) : Keyed.Ascending item := by
  obtain ⟨fields, _, done⟩ := Outcome.ok_of_bind encoded
  cases done
  exact Keyed.Ascending.insertAll List.Pairwise.nil _

theorem ascending_keyValues {keys : List KeyDefinition} {key : Item}
    (made : t.keyValues d keys = .ok key) : Keyed.Ascending key := by
  induction keys generalizing key with
  | nil =>
    cases made
    exact List.Pairwise.nil
  | cons k rest ih =>
    obtain ⟨value, _, made⟩ := Outcome.ok_of_bind made
    obtain ⟨others, madeRest, made⟩ := Outcome.ok_of_bind made
    cases made
    exact (ih madeRest).insert _ _

namespace Built

/-- Building keeps a request plain. -/
theorem plain (built : Built t r d extra op request) (plain : Params.Plain r) :
    Params.Plain request := by
  have withKey : ∀ {key : Item}, t.keyOf d = .ok key →
      Params.Plain (Keyed.insert "Key" (.attributes (some key)) r) :=
    fun keyed => plain.insert (.item (by decide) (ascending_keyValues keyed))
  cases built with
  | insert encoded =>
    exact (plain.insert (.item (by decide) (ascending_encode encoded))).allowed _
  | query =>
    refine Params.Plain.allowed ?_ _
    have attached := fun c : Clause => plain_attach plain
      (show "KeyConditionExpression" ∈ Params.textKeys by decide) c.condition c.placeholders
    rw [withIndex.eq_def]
    split
    · split
      · exact attached _
      · exact (attached _).insert (.text (by decide))
    · exact attached _
  | scan => exact (plain_attach plain (by decide) _ _).allowed _
  | delete keyed => exact (plain_attach (withKey keyed) (by decide) _ _).allowed _
  | update keyed =>
    exact (plain_attach (plain_attach (withKey keyed) (by decide) _ _) (by decide) _ _).allowed _
  | replace encoded =>
    exact ((plain_attach plain (by decide) _ _).insert
      (.item (by decide) (ascending_encode encoded))).allowed _

theorem lookup_withIndex {key : String} (other : key ≠ "IndexName") (path : AccessPath) :
    Keyed.lookup key (r.withIndex path) = Keyed.lookup key r := by
  rw [withIndex.eq_def]
  split
  · split
    · rfl
    · exact Keyed.lookup_insert_of_ne _ _ (Ne.symm other)
  · rfl

/-- A parameter that building does not set stays as it is. -/
theorem lookup_other (built : Built t r d extra op request) {key : String}
    (allowed : op.allows key = true) (other : key ∉ op.builtKeys) :
    Keyed.lookup key request = Keyed.lookup key r := by
  have set : ∀ {name : String} {value : Value} {s : Request}, key ≠ name →
      Keyed.lookup key (Keyed.insert name value s) = Keyed.lookup key s :=
    fun distinct => Keyed.lookup_insert_of_ne _ _ (Ne.symm distinct)
  cases built with
  | insert =>
    have notItem : key ≠ "Item" := by simpa [Operation.builtKeys] using other
    exact (Keyed.lookup_filter allowed).trans (set notItem)
  | query =>
    simp only [Operation.builtKeys, List.mem_cons, not_or] at other
    obtain ⟨notCondition, notIndex, notPlaceholders⟩ := other
    exact (Keyed.lookup_filter allowed).trans
      ((lookup_withIndex notIndex _).trans (lookup_attach notCondition notPlaceholders))
  | scan =>
    simp only [Operation.builtKeys, List.mem_cons, not_or] at other
    obtain ⟨notFilter, notPlaceholders⟩ := other
    exact (Keyed.lookup_filter allowed).trans (lookup_attach notFilter notPlaceholders)
  | delete =>
    simp only [Operation.builtKeys, List.mem_cons, not_or] at other
    obtain ⟨notKey, notCondition, notPlaceholders⟩ := other
    exact (Keyed.lookup_filter allowed).trans
      ((lookup_attach notCondition notPlaceholders).trans (set notKey))
  | update =>
    simp only [Operation.builtKeys, List.mem_cons, not_or] at other
    obtain ⟨notKey, notCondition, notUpdate, notPlaceholders⟩ := other
    exact (Keyed.lookup_filter allowed).trans ((lookup_attach notUpdate notPlaceholders).trans
      ((lookup_attach notCondition notPlaceholders).trans (set notKey)))
  | replace =>
    simp only [Operation.builtKeys, List.mem_cons, not_or] at other
    obtain ⟨notItem, notCondition, notPlaceholders⟩ := other
    exact (Keyed.lookup_filter allowed).trans
      ((set notItem).trans (lookup_attach notCondition notPlaceholders))

/-- A delete and an update have the key of their document. -/
theorem attributes_key (built : Built t r d extra op request) (addresses : op = .delete ∨ op = .update) :
    ∃ key, t.keyOf d = .ok key ∧ Params.attributes? request "Key" = some key := by
  have kept : ∀ {key : Item} {s : Request}, op.allows "Key" = true →
      Keyed.lookup "Key" s = some (.attributes (some key)) →
      Params.attributes? (op.allowed s) "Key" = some key := by
    intro key s allowed found
    have there : Keyed.lookup "Key" (op.allowed s) = some (.attributes (some key)) :=
      (Keyed.lookup_filter allowed).trans found
    rw [Params.attributes?, there]
  cases built with
  | delete keyed =>
    refine ⟨_, keyed, kept (by decide) ?_⟩
    rw [lookup_attach (by decide) (by decide)]
    exact Keyed.lookup_insert_self _ _ _
  | update keyed =>
    refine ⟨_, keyed, kept (by decide) ?_⟩
    rw [lookup_attach (by decide) (by decide), lookup_attach (by decide) (by decide)]
    exact Keyed.lookup_insert_self _ _ _
  | _ => simp at addresses

/-- An insert has the item of its document, a replacement that of its second one. -/
theorem attributes_item (built : Built t r d extra op request) :
    (op = .insert → ∃ item, d.encode = .ok item ∧ Params.attributes? request "Item" = some item) ∧
    (op = .replace → ∃ item, extra.encode = .ok item ∧
      Params.attributes? request "Item" = some item) := by
  have kept : ∀ {item : Item} {s : Request}, op.allows "Item" = true →
      Params.attributes? (op.allowed (Keyed.insert "Item" (.attributes (some item)) s)) "Item" =
        some item := by
    intro item s allowed
    have there : Keyed.lookup "Item"
        (op.allowed (Keyed.insert "Item" (.attributes (some item)) s)) =
          some (.attributes (some item)) :=
      (Keyed.lookup_filter allowed).trans (Keyed.lookup_insert_self _ _ _)
    rw [Params.attributes?, there]
  cases built with
  | insert encoded => exact ⟨fun _ => ⟨_, encoded, kept (by decide)⟩, by simp⟩
  | replace encoded => exact ⟨by simp, fun _ => ⟨_, encoded, kept (by decide)⟩⟩
  | _ => simp

end Built

end Request

end DocTable
