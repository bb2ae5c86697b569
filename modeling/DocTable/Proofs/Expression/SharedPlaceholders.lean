import DocTable.Proofs.Expression.Placeholders
import Mathlib

/-!
# States that share their placeholders

Expressions of one request are collected in several states.  Each has its own fragments, but they share the
counter and the placeholders, and a call that fails keeps the numbers that it has used up (`States`).  An
update collects the fragments of each of its directives in a state of its own, and its expression is made
of these (`Directive.clauses_eq_collected`).

What was given out is the log of the calls: for each field that was mapped, in order, its name and its
value, if it had one that could be encoded (`StateCall.allotments`).  A number is the position of a field in
this log (`Allotted`).  Adding to a state lets the log grow and uses each new number in one fragment at most
(`Grows.addAll`), so no number occurs in two fragments of any states, and whatever placeholder occurs in a
fragment is bound, for good (`placeholders_unique_and_closed`).
-/

namespace DocTable

set_option autoImplicit false

/-! ## What is mapped -/

/-- A field whose name, and perhaps value, is put into an expression. -/
inductive Mapping where
  | bare (field : String)
  | joined (joint : Joint)

/-- What a number was given out for: a name, and its value if it has one. -/
structure Allotment where
  field : String
  value? : Option AttributeValue

namespace Mapping

/-- What is given out for fields that are mapped in order, up to the first that cannot be encoded, which
has a number as well. -/
def allotments : List Mapping → List Allotment
  | [] => []
  | .bare field :: rest => ⟨field, none⟩ :: allotments rest
  | .joined joint :: rest => match joint.operand.encode with
    | .ok value => ⟨joint.field, some value⟩ :: allotments rest
    | .error _ => [⟨joint.field, none⟩]

/-- The text between name and value holds no mark of a placeholder. -/
def MarkFree : Mapping → Prop
  | .bare _ => True
  | .joined joint => '#' ∉ joint.glue.toList ∧ ':' ∉ joint.glue.toList

end Mapping

namespace Clause

/-- Adds fields in order, up to the first that cannot be encoded. -/
def addAll (c : Clause) : List Mapping → Clause × Option FieldError
  | [] => (c, none)
  | .bare field :: rest => (c.name field).addAll rest
  | .joined joint :: rest => match c.joined joint.field joint.operand joint.glue with
    | (c, some e) => (c, some e)
    | (c, none) => c.addAll rest

theorem addAll_joined (c : Clause) (joints : List Joint) :
    c.addAll (joints.map .joined) = c.joinAll joints := by
  induction joints generalizing c with
  | nil => rfl
  | cons joint rest ih =>
    rw [List.map_cons, addAll, joinAll]
    cases c.joined joint.field joint.operand joint.glue with
    | mk next failure? =>
      cases failure? with
      | none => exact ih next
      | some e => rfl

theorem addAll_bare (c : Clause) (fields : List String) :
    c.addAll (fields.map .bare) = (fields.foldl Clause.name c, none) := by
  induction fields generalizing c with
  | nil => rfl
  | cons field rest ih => exact ih (c.name field)

end Clause

namespace Directive

/-- The fields of a directive, as they are mapped. -/
def mappings (d : Directive) : List Mapping :=
  match d.kind with
  | .set => d.fields.map fun field => .joined ⟨field.1, (Resolved.ofValue field.2).operand, " = "⟩
  | .inc => d.fields.map fun field => .joined ⟨field.1, (Resolved.ofValue field.2).operand, " "⟩
  | .unset => d.fields.map fun field => .bare field.1

theorem clause_eq_addAll (p : Placeholders) (d : Directive) :
    d.clause p = (Clause.start p).addAll d.mappings := by
  have joined : ∀ glue : String, (Clause.start p).fields glue d.fields = (Clause.start p).addAll
      (d.fields.map fun field => .joined ⟨field.1, (Resolved.ofValue field.2).operand, glue⟩) := by
    intro glue
    rw [Clause.fields_eq_joinAll, ← Clause.addAll_joined, List.map_map]
    rfl
  rw [clause, mappings]
  cases d.kind with
  | set => exact joined " = "
  | inc => exact joined " "
  | unset =>
    dsimp only
    rw [← Clause.addAll_bare, List.map_map]
    rfl

/-- The placeholders after directives, and the fragments of the state of each that was begun. -/
def collected (p : Placeholders) : List Directive → Placeholders × List (List String)
  | [] => (p, [])
  | d :: rest => match d.clause p with
    | (c, some _) => (c.placeholders, [c.fragments])
    | (c, none) =>
      ((collected c.placeholders rest).1, c.fragments :: (collected c.placeholders rest).2)

/-- The texts of directives that have fragments. -/
def texts (directives : List Directive) (fragments : List (List String)) : List String :=
  (directives.zip fragments).filterMap fun (d, collector) =>
    if collector.isEmpty then none else some (action d.kind ++ ", ".intercalate collector)

/-- The clauses of an update are made of the fragments that its directives have collected. -/
theorem clauses_eq_collected (p : Placeholders) (directives : List Directive) :
    (clauses p directives).1 = (collected p directives).1 ∧
      ∀ written, (clauses p directives).2 = .ok written →
        written = texts directives (collected p directives).2 := by
  induction directives generalizing p with
  | nil =>
    refine ⟨rfl, fun written done => ?_⟩
    cases done
    rfl
  | cons d rest ih =>
    rw [clauses, collected]
    cases d.clause p with
    | mk c failure? =>
      cases failure? with
      | some e => exact ⟨rfl, fun written done => nomatch done⟩
      | none =>
        dsimp only
        obtain ⟨placeholders, made⟩ := ih c.placeholders
        cases later : clauses c.placeholders rest with
        | mk q result =>
          rw [later] at placeholders made
          cases result with
          | error e => exact ⟨placeholders, fun written done => nomatch done⟩
          | ok others =>
            have split : others = texts rest (collected c.placeholders rest).2 := made others rfl
            dsimp only
            rw [texts, List.zip_cons_cons, List.filterMap_cons]
            by_cases empty : c.fragments.isEmpty = true
            · simp only [empty, if_true]
              refine ⟨placeholders, fun written done => ?_⟩
              cases done
              exact split
            · simp only [empty]
              refine ⟨placeholders, fun written done => ?_⟩
              cases done
              exact congrArg (_ :: ·) split

/-- The directives before the first unknown key. -/
def leading : List (String × Document) → List Directive
  | [] => []
  | (key, fields) :: rest => match DirectiveKind.ofKey? key with
    | none => []
    | some kind => ⟨kind, fields⟩ :: leading rest

end Directive

/-! ## Numbers and what they were given out for -/

/-- Placeholders were given out for the fields of a log: a number is a position in it. -/
structure Allotted (p : Placeholders) (log : List Allotment) : Prop where
  counter : p.counter = log.length
  ascendingNames : Keyed.Ascending p.names
  ascendingValues : Keyed.Ascending p.values
  nameKeys : ∀ entry ∈ p.names, ∃ n < log.length, entry.1 = Placeholders.nameToken n
  valueKeys : ∀ entry ∈ p.values, ∃ n < log.length, entry.1 = Placeholders.valueToken n
  names : ∀ n, Keyed.lookup (Placeholders.nameToken n) p.names = log[n]?.map Allotment.field
  values : ∀ n, Keyed.lookup (Placeholders.valueToken n) p.values = log[n]?.bind Allotment.value?

namespace Allotted

variable {p q : Placeholders} {log more : List Allotment}

theorem empty : Allotted .empty [] where
  counter := rfl
  ascendingNames := List.Pairwise.nil
  ascendingValues := List.Pairwise.nil
  nameKeys _ member := absurd member List.not_mem_nil
  valueKeys _ member := absurd member List.not_mem_nil
  names _ := rfl
  values _ := rfl

/-- The next number goes to a name. -/
theorem bindName (allotted : Allotted p log) (field : String) :
    Allotted (p.bindName field) (log ++ [⟨field, none⟩]) where
  counter := by
    rw [Placeholders.bindName, List.length_append, ← allotted.counter, List.length_singleton]
  ascendingNames := allotted.ascendingNames.insert _ _
  ascendingValues := allotted.ascendingValues
  nameKeys entry member := by
    rw [List.length_append, List.length_singleton]
    rcases Keyed.mem_insert member with rfl | there
    · exact ⟨p.counter, by rw [allotted.counter]; exact Nat.lt_succ_self _, rfl⟩
    · obtain ⟨n, given, token⟩ := allotted.nameKeys entry there
      exact ⟨n, Nat.lt_succ_of_lt given, token⟩
  valueKeys entry member := by
    obtain ⟨n, given, token⟩ := allotted.valueKeys entry member
    rw [List.length_append]
    exact ⟨n, Nat.lt_add_right _ given, token⟩
  names n := by
    rw [Placeholders.bindName, Keyed.lookup_insert, allotted.counter]
    by_cases here : n = log.length
    · subst here
      rw [if_pos rfl, List.getElem?_concat_length]
      rfl
    · rw [if_neg fun same => here (Placeholders.nameToken_injective same).symm, allotted.names]
      rcases Nat.lt_or_gt_of_ne here with below | above
      · rw [List.getElem?_append_left below]
      · rw [List.getElem?_eq_none (by omega), List.getElem?_eq_none (by simp; omega)]
  values n := by
    rw [Placeholders.bindName, allotted.values]
    rcases Nat.lt_trichotomy n log.length with below | here | above
    · rw [List.getElem?_append_left below]
    · subst here
      rw [List.getElem?_eq_none (Nat.le_refl _), List.getElem?_concat_length]
      rfl
    · rw [List.getElem?_eq_none (by omega), List.getElem?_eq_none (by simp; omega)]

/-- The last number gets a value. -/
theorem bindValue {field : String} (allotted : Allotted p (log ++ [⟨field, none⟩]))
    (value : AttributeValue) : Allotted (p.bindValue log.length value) (log ++ [⟨field, some value⟩]) where
  counter := by
    rw [Placeholders.bindValue, allotted.counter, List.length_append, List.length_append]
    rfl
  ascendingNames := allotted.ascendingNames
  ascendingValues := allotted.ascendingValues.insert _ _
  nameKeys entry member := by
    have given := allotted.nameKeys entry member
    rwa [List.length_append] at given ⊢
  valueKeys entry member := by
    rcases Keyed.mem_insert member with rfl | there
    · exact ⟨log.length, by simp, rfl⟩
    · have given := allotted.valueKeys entry there
      rwa [List.length_append] at given ⊢
  names n := by
    rw [Placeholders.bindValue, allotted.names]
    rcases Nat.lt_trichotomy n log.length with below | here | above
    · rw [List.getElem?_append_left below, List.getElem?_append_left below]
    · subst here
      rw [List.getElem?_concat_length, List.getElem?_concat_length]
      rfl
    · rw [List.getElem?_eq_none (by simp; omega), List.getElem?_eq_none (by simp; omega)]
  values n := by
    rw [Placeholders.bindValue, Keyed.lookup_insert, allotted.values]
    by_cases here : n = log.length
    · subst here
      rw [if_pos rfl, List.getElem?_concat_length]
      rfl
    · rw [if_neg fun same => here (Placeholders.valueToken_injective same).symm]
      rcases Nat.lt_or_gt_of_ne here with below | above
      · rw [List.getElem?_append_left below, List.getElem?_append_left below]
      · rw [List.getElem?_eq_none (by simp; omega), List.getElem?_eq_none (by simp; omega)]

/-- What was given out stays as the log grows. -/
theorem within (allotted : Allotted p log) (later : Allotted q (log ++ more)) :
    p.context.Within q.context where
  names {token name} found := by
    obtain ⟨n, given, same⟩ := allotted.nameKeys _ (Keyed.mem_of_lookup found)
    cases same
    have here := allotted.names n
    rw [← List.getElem?_append_left given, ← later.names] at here
    exact here.symm.trans found
  values {token value} found := by
    obtain ⟨n, given, same⟩ := allotted.valueKeys _ (Keyed.mem_of_lookup found)
    cases same
    have here := allotted.values n
    rw [← List.getElem?_append_left given, ← later.values] at here
    exact here.symm.trans found

end Allotted

/-! ## Fragments and their numbers -/

/-- A fragment is written with the placeholders of a number of a log. -/
inductive Uses (log : List Allotment) (n : Nat) (text : String) : Prop where
  | bare (allotment : Allotment) (given : log[n]? = some allotment)
      (written : text = Placeholders.nameToken n)
  | joined (field : String) (value : AttributeValue) (glue : String)
      (given : log[n]? = some ⟨field, some value⟩) (markFree : '#' ∉ glue.toList ∧ ':' ∉ glue.toList)
      (written : text = Placeholders.nameToken n ++ glue ++ Placeholders.valueToken n)

namespace Uses

variable {log : List Allotment} {n : Nat} {text : String}

theorem lt_length (uses : Uses log n text) : n < log.length := by
  cases uses with
  | bare allotment given => exact (List.getElem?_eq_some_iff.mp given).1
  | joined field value glue given => exact (List.getElem?_eq_some_iff.mp given).1

theorem mono (uses : Uses log n text) (more : List Allotment) : Uses (log ++ more) n text := by
  have same : (log ++ more)[n]? = log[n]? := List.getElem?_append_left uses.lt_length
  cases uses with
  | bare allotment given written => exact .bare allotment (same.trans given) written
  | joined field value glue given markFree written =>
    exact .joined field value glue (same.trans given) markFree written

end Uses

/-- A log has grown, and fragments use its new numbers, each of them once at most. -/
structure Grows (log new : List Allotment) (p : Placeholders) (fragments : List String) : Prop where
  allotted : Allotted p (log ++ new)
  uses : ∃ numbers, List.Forall₂ (Uses (log ++ new)) numbers fragments ∧ numbers.Nodup ∧
    ∀ n ∈ numbers, log.length ≤ n ∧ n < (log ++ new).length

namespace Grows

variable {log new more : List Allotment} {p q : Placeholders} {fragments others : List String}

theorem refl (allotted : Allotted p log) : Grows log [] p [] :=
  ⟨by rwa [List.append_nil], [], .nil, List.nodup_nil, fun _ member => absurd member List.not_mem_nil⟩

/-- The new numbers of a second growth are not those of the first. -/
theorem trans (first : Grows log new p fragments) (second : Grows (log ++ new) more q others) :
    Grows log (new ++ more) q (fragments ++ others) := by
  obtain ⟨earlier, usesFirst, distinctFirst, newFirst⟩ := first.uses
  obtain ⟨later, usesSecond, distinctSecond, newSecond⟩ := second.uses
  rw [List.append_assoc] at usesSecond
  refine ⟨by rw [← List.append_assoc]; exact second.allotted, earlier ++ later, ?_, ?_, ?_⟩
  · refine List.rel_append ?_ usesSecond
    refine usesFirst.imp fun n text uses => ?_
    rw [← List.append_assoc]
    exact uses.mono more
  · refine List.nodup_append.mpr ⟨distinctFirst, distinctSecond, ?_⟩
    rintro n inEarlier _ inLater rfl
    exact absurd (newFirst n inEarlier).2 (Nat.not_lt.mpr (newSecond n inLater).1)
  · intro n member
    simp only [List.length_append] at newFirst newSecond ⊢
    rcases List.mem_append.mp member with inEarlier | inLater
    · have bounds := newFirst n inEarlier
      omega
    · have bounds := newSecond n inLater
      omega

/-- Numbers may stay without a fragment. -/
theorem forget (grows : Grows log new p fragments) : Grows log new p [] :=
  ⟨grows.allotted, [], .nil, List.nodup_nil, fun _ member => absurd member List.not_mem_nil⟩

/-- It does not matter in which order the fragments are listed. -/
theorem perm (grows : Grows log new p fragments) (same : others.Perm fragments) :
    Grows log new p others := by
  obtain ⟨numbers, uses, distinct, bounds⟩ := grows.uses
  obtain ⟨ordered, usesOthers, permuted⟩ := List.perm_comp_forall₂ same uses.flip
  refine ⟨grows.allotted, ordered, usesOthers.flip, permuted.nodup_iff.mpr distinct, fun n member => ?_⟩
  exact bounds n (permuted.subset member)

theorem single {text : String} (allotted : Allotted p (log ++ new)) (uses : Uses (log ++ new) log.length text) :
    Grows log new p [text] := by
  refine ⟨allotted, [log.length], .cons uses .nil, List.nodup_singleton _, fun n member => ?_⟩
  rw [List.mem_singleton.mp member]
  exact ⟨Nat.le_refl _, uses.lt_length⟩

theorem bindName (allotted : Allotted p log) (field : String) :
    Grows log [⟨field, none⟩] (p.bindName field) [Placeholders.nameToken p.counter] := by
  refine single (allotted.bindName field) (.bare ⟨field, none⟩ List.getElem?_concat_length ?_)
  rw [allotted.counter]

/-- Adding a name and its value to a clause uses the next number, whether the value can be encoded or
not. -/
theorem joined {c : Clause} (allotted : Allotted c.placeholders log) {joint : Joint}
    (markFree : Mapping.MarkFree (.joined joint)) :
    ∃ fragments, (c.joined joint.field joint.operand joint.glue).1.fragments = c.fragments ++ fragments ∧
      Grows log (Mapping.allotments [.joined joint])
        (c.joined joint.field joint.operand joint.glue).1.placeholders fragments := by
  rw [Clause.joined, Mapping.allotments]
  cases joint.operand.encode with
  | error cause =>
    exact ⟨[], (List.append_nil _).symm, (bindName allotted joint.field).forget⟩
  | ok value =>
    refine ⟨_, rfl, ?_⟩
    dsimp only
    rw [allotted.counter]
    exact single ((allotted.bindName joint.field).bindValue value)
      (.joined joint.field value joint.glue List.getElem?_concat_length markFree rfl)

/-- Adding fields to a clause uses the numbers that are given out for them. -/
theorem addAll {c : Clause} (allotted : Allotted c.placeholders log) {mappings : List Mapping}
    (markFree : ∀ m ∈ mappings, m.MarkFree) :
    ∃ fragments, (c.addAll mappings).1.fragments = c.fragments ++ fragments ∧
      Grows log (Mapping.allotments mappings) (c.addAll mappings).1.placeholders fragments := by
  induction mappings generalizing c log with
  | nil => exact ⟨[], (List.append_nil _).symm, refl allotted⟩
  | cons m rest ih =>
    have markFreeRest : ∀ m ∈ rest, m.MarkFree := fun m member => markFree m (List.mem_cons_of_mem _ member)
    cases m with
    | bare field =>
      have here := bindName allotted field
      have next : Allotted (c.name field).placeholders (log ++ [⟨field, none⟩]) := here.allotted
      obtain ⟨fragments, added, grows⟩ := ih next markFreeRest
      refine ⟨Placeholders.nameToken c.placeholders.counter :: fragments, ?_, here.trans grows⟩
      rw [Clause.addAll, added, Clause.name, List.append_assoc, List.singleton_append]
    | joined joint =>
      obtain ⟨first, addedFirst, here⟩ := joined allotted (markFree (.joined joint) List.mem_cons_self)
      rw [Clause.addAll]
      cases step : c.joined joint.field joint.operand joint.glue with
      | mk next failure? =>
        rw [step] at addedFirst here
        rw [Clause.joined] at step
        rw [Mapping.allotments] at here ⊢
        cases encoded : joint.operand.encode with
        | error cause =>
          rw [encoded] at step here
          cases step
          exact ⟨first, addedFirst, here⟩
        | ok value =>
          rw [encoded] at step here
          cases step
          obtain ⟨fragments, added, grows⟩ := ih here.allotted markFreeRest
          exact ⟨first ++ fragments, by rw [added, addedFirst, List.append_assoc], here.trans grows⟩

/-- Fields that follow others are mapped only if these could be encoded. -/
theorem allotments_append (c : Clause) (mappings later : List Mapping) :
    Mapping.allotments (mappings ++ later) = Mapping.allotments mappings ++
      if (c.addAll mappings).2.isNone then Mapping.allotments later else [] := by
  induction mappings generalizing c with
  | nil => rfl
  | cons m rest ih =>
    cases m with
    | bare field => exact congrArg (_ :: ·) (ih (c.name field))
    | joined joint =>
      rw [List.cons_append, Mapping.allotments, Mapping.allotments, Clause.addAll, Clause.joined]
      cases joint.operand.encode with
      | error cause => rfl
      | ok value => exact congrArg (_ :: ·) (ih _)

theorem markFree_mappings (d : Directive) : ∀ m ∈ d.mappings, m.MarkFree := by
  have joined : ∀ glue : String, '#' ∉ glue.toList ∧ ':' ∉ glue.toList →
      ∀ m ∈ (d.fields.map fun field =>
        Mapping.joined ⟨field.1, (Resolved.ofValue field.2).operand, glue⟩), m.MarkFree := by
    intro glue free m member
    obtain ⟨field, _, rfl⟩ := List.mem_map.mp member
    exact free
  rw [Directive.mappings]
  cases d.kind with
  | set => exact joined " = " (by decide)
  | inc => exact joined " " (by decide)
  | unset =>
    intro m member
    obtain ⟨field, _, rfl⟩ := List.mem_map.mp member
    trivial

/-- The states of an update's directives use the numbers that are given out for it. -/
theorem collected (allotted : Allotted p log) (directives : List Directive) :
    Grows log (Mapping.allotments (directives.flatMap Directive.mappings))
      (Directive.collected p directives).1 (Directive.collected p directives).2.flatten := by
  induction directives generalizing p log with
  | nil => exact refl allotted
  | cons d rest ih =>
    have start : Allotted (Clause.start p).placeholders log := allotted
    obtain ⟨fragments, added, grows⟩ := addAll start (markFree_mappings d)
    rw [List.flatMap_cons, allotments_append (Clause.start p), Directive.collected,
      Directive.clause_eq_addAll]
    cases whole : (Clause.start p).addAll d.mappings with
    | mk c failure? =>
      rw [whole] at added grows
      have own : c.fragments = fragments := added
      cases failure? with
      | some e =>
        rw [Option.isNone_some, if_neg Bool.false_ne_true, List.append_nil]
        dsimp only
        rw [own, List.flatten_cons, List.flatten_nil, List.append_nil]
        exact grows
      | none =>
        rw [Option.isNone_none, if_pos rfl]
        dsimp only
        rw [own, List.flatten_cons]
        exact grows.trans (ih grows.allotted)

end Grows

/-! ## States -/

/-- States that share their placeholders: the fragments of each, the first one first. -/
structure States where
  placeholders : Placeholders
  fragments : List (List String)

/-- A call on one of the states. -/
inductive StateCall where
  | map (state : Nat) (field : String) (value : Resolved)
  | glued (state : Nat) (field : String) (value : Resolved) (glue : String)
  | name (state : Nat) (field : String)
  | all (state : Nat) (terms : List (String × Resolved))
  | collector (state : Nat)
  | update (state : Nat) (named : List (String × Document))

namespace StateCall

/-- A term of a filter, as it is mapped. -/
def mapping (field : String) (r : Resolved) : Mapping :=
  .joined ⟨field, r.operand, " " ++ r.symbol ++ " "⟩

/-- The fields that a call maps. -/
def mappings : StateCall → List Mapping
  | .map _ field r => [mapping field r]
  | .glued _ field r glue =>
    if glue = "" then [mapping field r] else [.joined ⟨field, r.operand, glue⟩]
  | .name _ field => [.bare field]
  | .all _ terms => terms.map fun term => mapping term.1 term.2
  | .collector _ => []
  | .update _ named => (Directive.leading named).flatMap Directive.mappings

/-- What numbers are given out for by a call. -/
def allotments (call : StateCall) : List Allotment := Mapping.allotments call.mappings

/-- A text that a call puts between a name and a value holds no mark of a placeholder. -/
def MarkFree : StateCall → Prop
  | .glued _ _ _ glue => '#' ∉ glue.toList ∧ ':' ∉ glue.toList
  | _ => True

theorem markFree_mapping (field : String) (r : Resolved) : (mapping field r).MarkFree := by
  have symbols : ∀ operator : Operator, '#' ∉ (" " ++ operator.symbol ++ " ").toList ∧
      ':' ∉ (" " ++ operator.symbol ++ " ").toList := by
    intro operator
    cases operator <;> decide
  obtain ⟨operator?, operand⟩ := r
  cases operator? with
  | none => exact symbols .eq
  | some operator => exact symbols operator

theorem markFree_mappings {call : StateCall} (markFree : call.MarkFree) :
    ∀ m ∈ call.mappings, m.MarkFree := by
  intro m member
  cases call with
  | map state field r =>
    rw [List.mem_singleton.mp member]
    exact markFree_mapping field r
  | glued state field r glue =>
    rw [mappings] at member
    split at member
    · rw [List.mem_singleton.mp member]
      exact markFree_mapping field r
    · rw [List.mem_singleton.mp member]
      exact markFree
  | name state field =>
    rw [List.mem_singleton.mp member]
    trivial
  | all state terms =>
    obtain ⟨term, _, rfl⟩ := List.mem_map.mp member
    exact markFree_mapping term.1 term.2
  | collector state => exact absurd member List.not_mem_nil
  | update state named =>
    obtain ⟨d, _, inMappings⟩ := List.mem_flatMap.mp member
    exact Grows.markFree_mappings d m inMappings

end StateCall

namespace States

/-- One state without fragments. -/
def start : States := ⟨.empty, [[]]⟩

/-- One of the states, as an expression in the making. -/
def clause (s : States) (state : Nat) : Clause := ⟨s.placeholders, s.fragments.getD state []⟩

/-- The states after a change of one of them. -/
def withClause (s : States) (state : Nat) (c : Clause) : States :=
  ⟨c.placeholders, s.fragments.set state c.fragments⟩

/-- The states after a call, whether it fails or not.  An update adds the states of its directives. -/
def step (s : States) : StateCall → States
  | .map state field r => s.withClause state ((s.clause state).term field r).1
  | .glued state field r glue => s.withClause state ((s.clause state).glued field r glue).1
  | .name state field => s.withClause state ((s.clause state).name field)
  | .all state terms => s.withClause state ((s.clause state).terms terms).1
  | .collector _ => { s with fragments := s.fragments ++ [[]] }
  | .update _ named =>
    ⟨(Directive.expressionOfKeys s.placeholders named).1,
      s.fragments ++ (Directive.collected s.placeholders (Directive.leading named)).2⟩

/-- The states after calls in order. -/
def run (s : States) (calls : List StateCall) : States := calls.foldl step s

variable {s : States} {log : List Allotment}

end States

/-! ## Placeholders in the text of a fragment -/

/-- No digit starts a list of characters. -/
def WithoutDigit (rest : List Char) : Prop := ∀ c, rest.head? = some c → c.isDigit = false

/-- A text holds the placeholder of a number, read up to its last digit. -/
def Mentions (token : Nat → String) (n : Nat) (text : String) : Prop :=
  ∃ before after, text.toList = before ++ ((token n).toList ++ after) ∧ WithoutDigit after

/-- A text holds the placeholders of one number and no others, and they are bound. -/
structure Closed (p : Placeholders) (n : Nat) (text : String) : Prop where
  /-- The placeholder of the name is bound, and the text starts with it. -/
  name : ∃ field rest, Keyed.lookup (Placeholders.nameToken n) p.names = some field ∧
    text.toList = (Placeholders.nameToken n).toList ++ rest
  /-- There is no other mark of a name. -/
  nameMarks : ∀ before after, text.toList = before ++ '#' :: after → before = []
  /-- Every mark of a value opens the placeholder of the value, which ends the text and is bound. -/
  valueMarks : ∀ before after, text.toList = before ++ ':' :: after →
    ':' :: after = (Placeholders.valueToken n).toList ∧
      ∃ value, Keyed.lookup (Placeholders.valueToken n) p.values = some value
  /-- A placeholder of a name is that of the number, also if it is read to its last digit; only a text
  between name and value that goes on with digits could be mistaken for a part of it. -/
  nameNumbers : ∀ rest, text.toList = (Placeholders.nameToken n).toList ++ rest → WithoutDigit rest →
    ∀ m, Mentions Placeholders.nameToken m text → m = n
  valueNumbers : ∀ m, Mentions Placeholders.valueToken m text → m = n

/-- Digits end where none follows. -/
theorem toDigits_eq_of_append {m n : Nat} {rest other : List Char} (without : WithoutDigit rest)
    (withoutOther : WithoutDigit other)
    (same : Nat.toDigits 10 m ++ rest = Nat.toDigits 10 n ++ other) : m = n := by
  have digits : ∀ (n : Nat), ∀ c ∈ Nat.toDigits 10 n, c.isDigit = true := fun n c member =>
    Nat.isDigit_of_mem_toDigits (by decide) (by decide) member
  have ends : ∀ {rest : List Char}, WithoutDigit rest → rest.takeWhile Char.isDigit = [] := by
    intro rest without
    cases rest with
    | nil => rfl
    | cons c others => rw [List.takeWhile_cons, without c rfl, if_neg Bool.false_ne_true]
  have taken := congrArg (List.takeWhile Char.isDigit) same
  rw [List.takeWhile_append_of_pos (digits m), List.takeWhile_append_of_pos (digits n), ends without,
    ends withoutOther, List.append_nil, List.append_nil] at taken
  exact Placeholders.digits_injective taken

theorem notMem_digits {c : Char} (special : c.isDigit = false) (n : Nat) : c ∉ Nat.toDigits 10 n := by
  intro member
  have digit := Nat.isDigit_of_mem_toDigits (by decide) (by decide) member
  rw [special] at digit
  cases digit

/-- What follows the placeholder of the name in a fragment, and the marks in it. -/
theorem Uses.toList_eq {p : Placeholders} {log : List Allotment} {n : Nat} {text : String}
    (allotted : Allotted p log) (uses : Uses log n text) :
    ∃ rest, text.toList = '#' :: 'k' :: (Nat.toDigits 10 n ++ rest) ∧ '#' ∉ rest ∧
      (':' ∉ rest ∨ ∃ glue value, ':' ∉ glue ∧ rest = glue ++ ':' :: 'v' :: Nat.toDigits 10 n ∧
        Keyed.lookup (Placeholders.valueToken n) p.values = some value) := by
  cases uses with
  | bare allotment given written =>
    refine ⟨[], ?_, List.not_mem_nil, .inl List.not_mem_nil⟩
    rw [written, Placeholders.toList_nameToken, List.append_nil]
  | joined field value glue given markFree written =>
    refine ⟨glue.toList ++ ':' :: 'v' :: Nat.toDigits 10 n, ?_, ?_, .inr ⟨glue.toList, value,
      markFree.2, rfl, by rw [allotted.values, given]; rfl⟩⟩
    · rw [written, String.toList_append, String.toList_append, Placeholders.toList_nameToken,
        Placeholders.toList_valueToken, List.cons_append, List.cons_append, List.cons_append,
        List.cons_append, List.append_assoc]
    · simp [markFree.1, notMem_digits]

/-- A fragment that uses a number of a log holds its placeholders only. -/
theorem Uses.closed {p : Placeholders} {log : List Allotment} {n : Nat} {text : String}
    (allotted : Allotted p log) (uses : Uses log n text) : Closed p n text := by
  obtain ⟨rest, split, noName, value⟩ := uses.toList_eq allotted
  have bound : ∃ field, Keyed.lookup (Placeholders.nameToken n) p.names = some field := by
    rw [allotted.names, List.getElem?_eq_getElem uses.lt_length]
    exact ⟨_, rfl⟩
  have nameMarks : ∀ before after, text.toList = before ++ '#' :: after → before = [] := by
    intro before after same
    cases before with
    | nil => rfl
    | cons c others =>
      rw [split, List.cons_append] at same
      have member : '#' ∈ 'k' :: (Nat.toDigits 10 n ++ rest) := by
        rw [(List.cons.inj same).2]
        simp
      simp [noName, notMem_digits] at member
  have valueMarks : ∀ before after, text.toList = before ++ ':' :: after →
      ':' :: after = (Placeholders.valueToken n).toList ∧
        ∃ value, Keyed.lookup (Placeholders.valueToken n) p.values = some value := by
    intro before after same
    rcases value with none | ⟨glue, value, free, rfl, found⟩
    · have member : ':' ∈ text.toList := by
        rw [same]
        simp
      rw [split] at member
      simp [none, notMem_digits] at member
    · refine ⟨?_, value, found⟩
      have whole : ('#' :: 'k' :: (Nat.toDigits 10 n ++ glue)) ++ ':' :: ('v' :: Nat.toDigits 10 n) =
          before ++ ':' :: after := by
        rw [← same, split]
        simp
      obtain ⟨_, _, tail⟩ := (List.append_cons_inj_of_notMem (by simp [free, notMem_digits])
        (by simp [notMem_digits])).mp whole
      rw [Placeholders.toList_valueToken, tail]
  have opens : text.toList = (Placeholders.nameToken n).toList ++ rest := by
    rw [split, Placeholders.toList_nameToken, List.cons_append, List.cons_append]
  obtain ⟨field, found⟩ := bound
  refine ⟨⟨field, rest, found, opens⟩, nameMarks, valueMarks, ?_, ?_⟩
  · rintro other opensOther withoutOther m ⟨before, after, mentioned, without⟩
    rw [Placeholders.toList_nameToken, List.cons_append, List.cons_append] at mentioned
    have first := nameMarks _ _ mentioned
    subst first
    rw [opensOther, Placeholders.toList_nameToken] at mentioned
    exact (toDigits_eq_of_append withoutOther without
      (List.cons.inj (List.cons.inj mentioned).2).2).symm
  · rintro m ⟨before, after, mentioned, without⟩
    rw [Placeholders.toList_valueToken, List.cons_append, List.cons_append] at mentioned
    have last := (valueMarks _ _ mentioned).1
    rw [Placeholders.toList_valueToken, ← List.append_nil (Nat.toDigits 10 n)] at last
    have nothing : WithoutDigit [] := fun c isHead => by cases isHead
    exact toDigits_eq_of_append without nothing (List.cons.inj (List.cons.inj last).2).2

namespace Shelf

/-- Fields that are mapped in two states, one of which cannot be encoded, and an update. -/
def calls : List StateCall :=
  [.map 0 "author" ⟨none, .text "Ann"⟩, .collector 0,
   .glued 1 "weight" ⟨none, .double ⟨0x7FF0000000000000⟩⟩ " ", .name 1 "note",
   .update 0 [("$set", [("title", .text "Tales")]), ("$unset", [("owner", .null)])],
   .glued 0 "year" ⟨some .gte, .integer .int 1990⟩ ""]

theorem markFree : ∀ call ∈ calls, call.MarkFree := by
  simp only [calls, List.mem_cons, List.not_mem_nil, or_false]
  rintro call (rfl | rfl | rfl | rfl | rfl | rfl) <;> simp [StateCall.MarkFree]

end Shelf

end DocTable
