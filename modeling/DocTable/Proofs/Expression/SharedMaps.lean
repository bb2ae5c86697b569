import DocTable.Proofs.Expression.DirectiveMeaning
import DocTable.Proofs.Expression.EditedMaps
import DocTable.Proofs.Store.Sound

/-!
# Maps that several actions put

The actions of an update mean something for an item of plain values, one after the other, each with the value
that its placeholder stands for in the request (`UpdateAction.onValues`).  An update does what its actions mean,
but not always with maps: the map of a placeholder is put as it is by then, and an action that writes into it
changes it at all its places (`Store.update_writes_into_shared_map`).

What is true is that an action does to a draft what it means for its tree exactly if it is clear
(`Draft.Clear`, `Draft.Unfolds.act_iff`): it puts the map that was given, not one that was changed since, and it
changes no map that stands at two places.  So every update without a map inside itself that is made of clear
actions does what its actions mean, and of all others some first part does something else
(`Store.update_in_turn_iff_clear`).
-/

namespace DocTable

set_option autoImplicit false

namespace Draft

/-- An action puts the map that is given with it, and changes no map that stands at two places. -/
structure Clear (d : Draft) (a : UpdateAction) (after : Draft) : Prop where
  given : ∀ token fields, a.Puts token fields → after.mapOf token = .m fields
  shared : KeepsShared d after

/-! ## The map of a placeholder is put for the first time -/

theorem lookup_holding_of_some {d : Draft} {token other : String} {fields : Item} {inner : Fields Shared}
    (bound : Keyed.lookup other d.maps = some inner) :
    Keyed.lookup other (d.holding token fields).maps = some inner := by
  rw [holding]
  dsimp only
  split
  · exact bound
  · rename_i absent
    have distinct : token ≠ other := by
      rintro rfl
      exact absent (Keyed.contains_iff.mpr ⟨_, bound⟩)
    rw [Keyed.lookup_insert_of_ne _ _ distinct, bound]

theorem lookup_holding_cases {d : Draft} {token other : String} {fields : Item} {inner : Fields Shared}
    (bound : Keyed.lookup other (d.holding token fields).maps = some inner) :
    Keyed.lookup other d.maps = some inner ∨ other = token ∧ inner = Shared.ofFields fields := by
  rw [holding] at bound
  dsimp only at bound
  split at bound
  · exact .inl bound
  · rw [Keyed.lookup_insert] at bound
    split at bound
    · rename_i same
      cases bound
      exact .inr ⟨same.symm, rfl⟩
    · exact .inl bound

theorem exists_lookup_holding (d : Draft) (token : String) (fields : Item) :
    ∃ inner, Keyed.lookup token (d.holding token fields).maps = some inner := by
  rw [holding]
  dsimp only
  split
  · rename_i there
    exact Keyed.contains_iff.mp there
  · exact ⟨_, Keyed.lookup_insert_self _ _ _⟩

namespace Unfolds

variable {d : Draft} {plain fields : Item} {token : String}

theorem holding (unfolds : d.Unfolds plain) (arranged : AttributeValue.Arranged (.m fields)) :
    (d.holding token fields).Unfolds plain := by
  refine ⟨unfolds.reveals.mono lookup_holding_of_some, unfolds.arranged, fun {other inner} bound => ?_⟩
  rcases lookup_holding_cases bound with there | ⟨rfl, rfl⟩
  · obtain ⟨below, inside, arrangedBelow⟩ := unfolds.maps there
    exact ⟨below, inside.mono lookup_holding_of_some, arrangedBelow⟩
  · exact ⟨fields, .ofFields _ fields, arranged⟩

theorem get?_holding (unfolds : d.Unfolds plain) (path : Path) :
    (d.holding token fields).get? path = d.get? path := by
  rw [get?_eq_find, get?_eq_find]
  exact unfolds.reveals.find_mono lookup_holding_of_some path

theorem keepsShared_holding_iff {after : Draft} (unfolds : d.Unfolds plain)
    (arranged : AttributeValue.Arranged (.m fields)) :
    KeepsShared (d.holding token fields) after ↔ KeepsShared d after := by
  have same : ∀ {path other}, d.get? path = some (.link other) →
      (d.holding token fields).mapOf other = d.mapOf other := by
    intro path other found
    rw [get?_eq_find] at found
    obtain ⟨inner, below, bound, inside, _⟩ := unfolds.reveals.bound found
    rw [unfolds.mapOf_eq ⟨inner, below, bound, rfl, inside⟩]
    exact (unfolds.holding arranged).mapOf_eq
      ⟨inner, below, lookup_holding_of_some bound, rfl, inside.mono lookup_holding_of_some⟩
  constructor
  · intro keeps other p q distinct atP atQ
    rw [← same atP]
    exact keeps other p q distinct ((unfolds.get?_holding p).trans atP) ((unfolds.get?_holding q).trans atQ)
  · intro keeps other p q distinct atP atQ
    rw [unfolds.get?_holding] at atP atQ
    rw [same atP]
    exact keeps other p q distinct atP atQ

end Unfolds

/-! ## Actions -/

/-- The value of an action is arranged. -/
def IsArranged (a : UpdateAction) : Prop :=
  ∀ operand, a.operand? = some operand → operand.value.Arranged

/-- Putting the link to the map of a placeholder puts the map that is given exactly if the placeholder stands
for this map by now, and no map that stands at two places is changed. -/
theorem Unfolds.link_iff {d after : Draft} {plain fields : Item} {token : String} {path : Path}
    (unfolds : d.Unfolds plain) (arranged : AttributeValue.Arranged (.m fields)) (nonempty : path ≠ [])
    (done : (d.holding token fields).edit path (.put (.link token)) = .ok after) (loopless : after.Loopless) :
    ∃ new, after.Unfolds new ∧ ((PathEdit.put (.m fields)).run plain path = .ok new ↔
      after.mapOf token = .m fields ∧ KeepsShared d after) := by
  obtain ⟨inner, bound⟩ := exists_lookup_holding d token fields
  have unfoldsHolding := @Unfolds.holding _ _ _ token unfolds arranged
  obtain ⟨below, inside, arrangedBelow⟩ := unfoldsHolding.maps bound
  have same : PathEdit.Unfolds (d.holding token fields).maps (.put (.link token)) (.put (.m below)) :=
    .put ⟨inner, below, bound, rfl, inside⟩
  obtain ⟨new, unfoldsAfter, sameAfter, ran⟩ :=
    unfoldsHolding.edit_iff same arrangedBelow nonempty done loopless
  refine ⟨new, unfoldsAfter, ?_⟩
  rw [ran (.put _ _), unfolds.keepsShared_holding_iff arranged]
  refine and_congr_left fun _ => ?_
  cases sameAfter with
  | put link =>
    constructor
    · intro meant
      cases meant with
      | put linkFields => exact unfoldsAfter.mapOf_eq linkFields
    · intro given
      have value := (unfoldsAfter.mapOf_eq link).symm.trans given
      exact .put (value ▸ link)

/-- **An action does to a draft what it means for its tree** exactly if it is clear. -/
theorem Unfolds.act_iff {d after : Draft} {plain : Item} {a : UpdateAction} (unfolds : d.Unfolds plain)
    (arranged : IsArranged a) (nonempty : a.path ≠ []) (done : d.act a = .ok after)
    (loopless : after.Loopless) :
    ∃ new, after.Unfolds new ∧ (a.onValues plain = .ok new ↔ Clear d a after) := by
  cases act_cases unfolds.reveals done with
  | kept noMap meant =>
    have clear : Clear d a d :=
      ⟨fun token fields puts => absurd puts (noMap token fields), fun _ _ _ _ _ _ => rfl⟩
    exact ⟨plain, unfolds, fun _ => clear, fun _ => meant⟩
  | @edited e e' _ noMap same arrangedEdit edited meant =>
    obtain ⟨new, unfoldsAfter, sameAfter, ran⟩ :=
      unfolds.edit_iff (same d.maps) arrangedEdit nonempty edited loopless
    have alike : e.Alike e' := by
      cases sameAfter with
      | put => exact .put _ _
      | take => exact .take
    refine ⟨new, unfoldsAfter, ?_⟩
    rw [meant, Outcome.mapError_eq_ok_iff, ran alike]
    exact ⟨fun ⟨_, keeps⟩ => ⟨fun token fields puts => absurd puts (noMap token fields), keeps⟩,
      fun clear => ⟨sameAfter, clear.shared⟩⟩
  | @linked token fields _ puts edited meant =>
    obtain ⟨new, unfoldsAfter, ran⟩ := unfolds.link_iff (arranged _ puts.1) nonempty edited loopless
    refine ⟨new, unfoldsAfter, ?_⟩
    rw [meant, Outcome.mapError_eq_ok_iff, ran]
    constructor
    · rintro ⟨given, keeps⟩
      refine ⟨fun other others puts' => ?_, keeps⟩
      cases puts.1.symm.trans puts'.1
      exact given
    · intro clear
      exact ⟨clear.given token fields puts, clear.shared⟩

/-! ## Updates -/

/-- Something holds of every action that is carried out, with the drafts before and after it. -/
def Along (holds : Draft → UpdateAction → Draft → Prop) (d : Draft) : List UpdateAction → Prop
  | [] => True
  | a :: rest => ∀ after, d.act a = .ok after → holds d a after ∧ after.Along holds rest

/-- No action puts a map inside itself. -/
def StaysLoopless (d : Draft) (actions : List UpdateAction) : Prop :=
  d.Along (fun _ _ after => after.Loopless) actions

section Loops

variable {d after : Draft} {plain : Item} {a : UpdateAction} {rest : List UpdateAction}

theorem loopless_of_reveals (reveals : Reveals d.maps d.item plain) : d.Loopless := by
  intro p q token atP below
  rw [get?_eq_find] at atP below
  exact Decidable.byContradiction fun nonempty => reveals.find_below_link_ne atP nonempty below

theorem staysLoopless_cons (acted : d.act a = .ok after) (reveals : Reveals after.maps after.item plain)
    (later : after.StaysLoopless rest) : d.StaysLoopless (a :: rest) := by
  intro other acted'
  cases acted.symm.trans acted'
  exact ⟨loopless_of_reveals reveals, later⟩

end Loops

/-- The actions have done to a draft what they mean for its tree, after each of them, exactly if each is
clear. -/
theorem Unfolds.actAll_iff {d final : Draft} {plain : Item} {actions : List UpdateAction}
    (unfolds : d.Unfolds plain) (arranged : ∀ a ∈ actions, IsArranged a) (named : ∀ a ∈ actions, a.path ≠ [])
    (done : d.actAll actions = .ok final) (loopless : d.StaysLoopless actions) :
    (∀ before, before <+: actions →
        before.foldlM UpdateAction.onValues plain = (d.actAll before).map Draft.finish) ↔
      d.Along Clear actions := by
  induction actions generalizing d plain with
  | nil =>
    refine ⟨fun _ => trivial, fun _ before inside => ?_⟩
    cases List.prefix_nil.mp inside
    exact congrArg Except.ok unfolds.finish.symm
  | cons a rest ih =>
    obtain ⟨after, acted, remaining⟩ := Outcome.ok_of_bind done
    obtain ⟨looplessAfter, looplessRest⟩ := loopless after acted
    obtain ⟨new, unfoldsAfter, meant⟩ := unfolds.act_iff (arranged a List.mem_cons_self)
      (named a List.mem_cons_self) acted looplessAfter
    have later := ih unfoldsAfter (fun b member => arranged b (List.mem_cons_of_mem _ member))
      (fun b member => named b (List.mem_cons_of_mem _ member)) remaining looplessRest
    have step : ∀ before, d.actAll (a :: before) = after.actAll before := by
      intro before
      rw [actAll, acted]
      rfl
    constructor
    · intro agree
      have first : a.onValues plain = .ok new := by
        have single := agree [a] (List.prefix_append [a] rest)
        rw [List.foldlM_cons, step, actAll] at single
        obtain ⟨value, first, last⟩ := Outcome.ok_of_bind single
        cases last
        rw [first, unfoldsAfter.finish]
      intro other acted'
      cases acted.symm.trans acted'
      refine ⟨meant.mp first, later.mp fun before inside => ?_⟩
      have whole := agree (a :: before) (List.cons_prefix_cons.mpr ⟨rfl, inside⟩)
      rw [List.foldlM_cons, first, step] at whole
      exact whole
    · intro clear before inside
      obtain ⟨clearFirst, clearRest⟩ := clear after acted
      cases before with
      | nil => exact congrArg Except.ok unfolds.finish.symm
      | cons b others =>
        obtain ⟨rfl, insideRest⟩ := List.cons_prefix_cons.mp inside
        rw [List.foldlM_cons, meant.mpr clearFirst, step]
        exact later.mpr clearRest others insideRest

end Draft

/-! ## Updates of a store -/

/-- The key of a request is arranged: its attributes are no maps. -/
theorem KeyDefinition.arranged_of_extract {table : String} {item key : Item} {keys : List KeyDefinition}
    (extracted : extract table item keys = .ok key) : AttributeValue.Arranged (.m key) := by
  induction keys generalizing key with
  | nil =>
    cases extracted
    exact .map .nil fun _ member => (nomatch member)
  | cons first rest ih =>
    obtain ⟨value, others, _, checked, extractedRest, rfl⟩ := extract_cons_eq_ok extracted
    exact (ih extractedRest).insert first.name (.leaf (Store.fields?_of_check checked))

/-- After each of its actions an update has made of an item what the actions mean for it, one after the other,
if and only if every action is clear. -/
theorem UpdateAction.apply_iff_clear {text : String} {c : Context} {actions : List UpdateAction}
    {item new : Item} (arranged : AttributeValue.Arranged (.m item))
    (values : ∀ entry ∈ c.values, entry.2.Arranged) (read : UpdateAction.parse text c = .ok actions)
    (done : UpdateAction.apply actions item = .ok new)
    (loopless : (Draft.ofItem item).StaysLoopless actions) :
    (∀ before, before <+: actions → before.foldlM UpdateAction.onValues item = UpdateAction.apply before item) ↔
      (Draft.ofItem item).Along Draft.Clear actions := by
  obtain ⟨final, acted, _⟩ := Outcome.ok_of_bind done
  have arrangedValues : ∀ a ∈ actions, Draft.IsArranged a := fun a member operand given =>
    values _ (Keyed.mem_of_lookup (UpdateAction.bound_of_parse read a member operand given))
  have named : ∀ a ∈ actions, a.path ≠ [] := by
    intro a member
    obtain ⟨item, spells⟩ := UpdateAction.exists_spells_of_parse read a member
    exact spells.path_ne_nil
  exact (Draft.Unfolds.ofItem arranged).actAll_iff arrangedValues named acted loopless

/-- **An update does what its actions mean in turn exactly as long as they are clear.**  Let an update of a
store succeed; the maps that are stored and given have their fields in the order of their names, as maps have.
The update reads actions and addresses a place, and finds an item there, or starts from the key of the request.
If no map is put inside itself, the update has after each of its actions made of this item what the actions so
far mean, one after the other, for an item of plain values, each with the value that was given for its
placeholder, if and only if every action is clear: it puts the map that was given with it, and changes no map
that stands at two places.  Then the item that is stored afterwards is what all actions mean. -/
theorem Store.update_in_turn_iff_clear {s after : Store} {r : TypedRequest} {output : ItemOutput}
    (done : s.update r = .ok (after, output))
    (stored : ∀ place item, s.load place = some item → AttributeValue.Arranged (.m item))
    (values : ∀ entry ∈ r.values?.getD [], entry.2.Arranged) :
    ∃ t key place text actions item new, s.table r.tableName? = .ok t ∧ address t r = .ok (key, place) ∧
      r.update? = some text ∧ UpdateAction.parse text r.context = .ok actions ∧
      item = (s.load place).getD key ∧ after.load place = some new ∧
      ((Draft.ofItem item).StaysLoopless actions →
        ((∀ before, before <+: actions →
            before.foldlM UpdateAction.onValues item = UpdateAction.apply before item) ↔
          (Draft.ofItem item).Along Draft.Clear actions) ∧
        ((Draft.ofItem item).Along Draft.Clear actions →
          actions.foldlM UpdateAction.onValues item = .ok new)) := by
  obtain ⟨t, slot, new?, accepted⟩ := accepts_of_update done
  have loaded := accepted.load_update
  cases accepted with
  | @update _ text key new actions _ given table extracted addressed parsed _ _ applied _ _ =>
    refine ⟨t, key, slot.place, text, actions, _, new, table,
      address_eq_ok_iff.mpr ⟨extracted, slot, addressed, rfl⟩, given, parsed, rfl, loaded, fun loopless => ?_⟩
    have arranged : AttributeValue.Arranged (.m ((s.load slot.place).getD key)) := by
      cases found : s.load slot.place with
      | none => exact KeyDefinition.arranged_of_extract extracted
      | some item => exact stored _ item found
    have turns := UpdateAction.apply_iff_clear arranged values parsed applied loopless
    exact ⟨turns, fun clear => (turns.mpr clear actions (List.prefix_refl _)).trans applied⟩

namespace Users

/-- A table of users. -/
def users : TableSchema := ⟨"users", ⟨"id", "S"⟩, .none, []⟩

/-- A user. -/
def user : Item := [("id", .s "u")]

/-- A store with the user. -/
def store : Store := ⟨[("users", users)], [(Slot.place ⟨"users", .text "u", none⟩, [("id", .text "S" "u")])]⟩

/-- Updates the user, with two maps and a text. -/
def request (text : String) : TypedRequest :=
  { tableName? := some "users", key? := some user, update? := some text,
    values? := some [(":m", .m []), (":n", .m []), (":w", .s "1")] }

/-- An update that puts one map at two places, and writes into another map. -/
def elsewhere : TypedRequest := request "SET a = :m, b = :m, c = :n, c.x = :w"

/-- An update that puts one map at two places, and writes into it. -/
def into : TypedRequest := request "SET a = :m, b = :m, a.x = :w"

/-- Puts the first map at two places. -/
def puts : List UpdateAction :=
  [⟨.set, ["a"], some ⟨":m", .m []⟩⟩, ⟨.set, ["b"], some ⟨":m", .m []⟩⟩]

/-- The actions of the one update. -/
def elsewhereActions : List UpdateAction :=
  puts ++ [⟨.set, ["c"], some ⟨":n", .m []⟩⟩, ⟨.set, ["c", "x"], some ⟨":w", .s "1"⟩⟩]

/-- The actions of the other update. -/
def intoActions : List UpdateAction := puts ++ [⟨.set, ["a", "x"], some ⟨":w", .s "1"⟩⟩]

theorem staysLoopless_puts {rest : List UpdateAction}
    (later : Draft.StaysLoopless
      ⟨[("a", .link ":m"), ("b", .link ":m"), ("id", .leaf (.s "u"))], [(":m", [])]⟩ rest) :
    (Draft.ofItem user).StaysLoopless (puts ++ rest) :=
  Draft.staysLoopless_cons rfl (.link rfl .nil (.leaf rfl .nil))
    (Draft.staysLoopless_cons rfl (.link rfl .nil (.link rfl .nil (.leaf rfl .nil))) later)

end Users

/-- A map at two places stays what it is while another map is written into. -/
theorem Store.update_in_turn_iff_clear_of_user :
    ∃ after output new, Users.store.update Users.elsewhere = .ok (after, output) ∧
      after.load (Slot.place ⟨"users", .text "u", none⟩) = some new ∧
      (Draft.ofItem Users.user).StaysLoopless Users.elsewhereActions ∧
      (Draft.ofItem Users.user).Along Draft.Clear Users.elsewhereActions ∧
      Users.elsewhereActions.foldlM UpdateAction.onValues Users.user = .ok new := by
  have succeeds : (Users.store.update Users.elsewhere).isOk = true := by decide +kernel
  obtain ⟨⟨after, output⟩, done⟩ := Outcome.ok_of_isOk succeeds
  have stored : ∀ place item, Users.store.load place = some item → AttributeValue.Arranged (.m item) := by
    intro place item loaded
    obtain ⟨form, found, read⟩ := Option.bind_eq_some_iff.mp loaded
    cases List.mem_singleton.mp (Keyed.mem_of_lookup found)
    cases read
    exact .singleton "id" (.leaf rfl)
  have values : ∀ entry ∈ Users.elsewhere.values?.getD [], entry.2.Arranged := by
    have empty : AttributeValue.Arranged (.m []) := .map .nil fun _ member => (nomatch member)
    exact List.forall_mem_cons.mpr ⟨empty, List.forall_mem_cons.mpr ⟨empty,
      List.forall_mem_singleton.mpr (.leaf rfl)⟩⟩
  have loopless : (Draft.ofItem Users.user).StaysLoopless Users.elsewhereActions :=
    Users.staysLoopless_puts (Draft.staysLoopless_cons rfl
      (.link rfl .nil (.link rfl .nil (.link rfl .nil (.leaf rfl .nil))))
      (Draft.staysLoopless_cons rfl
        (.link rfl .nil (.link rfl .nil (.link rfl (.leaf rfl .nil) (.leaf rfl .nil)))) trivial))
  obtain ⟨t, key, place, text, actions, item, new, table, located, given, parsed, rfl, loaded, turns⟩ :=
    Store.update_in_turn_iff_clear done stored values
  have tables : Users.store.table Users.elsewhere.tableName? = .ok Users.users := rfl
  cases tables.symm.trans table
  have addressed : Store.address Users.users Users.elsewhere =
      .ok (Users.user, Slot.place ⟨"users", .text "u", none⟩) := rfl
  cases addressed.symm.trans located
  cases given
  have read : UpdateAction.parse "SET a = :m, b = :m, c = :n, c.x = :w" Users.elsewhere.context =
      .ok Users.elsewhereActions := by cbv
  cases read.symm.trans parsed
  have before : Users.store.load (Slot.place ⟨"users", .text "u", none⟩) = some Users.user := by cbv
  rw [before] at turns
  obtain ⟨clearIff, meant⟩ := turns loopless
  have clear : (Draft.ofItem Users.user).Along Draft.Clear Users.elsewhereActions := by
    refine clearIff.mp fun before inside => ?_
    have taken := List.prefix_iff_eq_take.mp inside
    have short : before.length ≤ 4 := inside.length_le
    generalize before.length = n at taken short
    subst taken
    interval_cases n <;> rfl
  exact ⟨after, output, new, done, loaded, loopless, clear, meant clear⟩

/-- Writing below one attribute changes another one that was given the same map, though the actions do not mean
that. -/
theorem Store.update_writes_into_shared_map :
    ∃ after output new meant, Users.store.update Users.into = .ok (after, output) ∧
      UpdateAction.parse "SET a = :m, b = :m, a.x = :w" Users.into.context = .ok Users.intoActions ∧
      (Draft.ofItem Users.user).StaysLoopless Users.intoActions ∧
      Users.store.load (Slot.place ⟨"users", .text "u", none⟩) = some Users.user ∧
      after.load (Slot.place ⟨"users", .text "u", none⟩) = some new ∧
      Users.intoActions.foldlM UpdateAction.onValues Users.user = .ok meant ∧
      Path.get? new ["b", "x"] = some (.s "1") ∧ Path.get? meant ["b", "x"] = none := by
  have done : Users.store.update Users.into =
      .ok (⟨[("users", Users.users)], [(Slot.place ⟨"users", .text "u", none⟩,
        [("a", .fields "M" [("x", .text "S" "1")]), ("b", .fields "M" [("x", .text "S" "1")]),
          ("id", .text "S" "u")])]⟩, ⟨none, none⟩) := by cbv
  have read : UpdateAction.parse "SET a = :m, b = :m, a.x = :w" Users.into.context = .ok Users.intoActions := by
    cbv
  have loopless : (Draft.ofItem Users.user).StaysLoopless Users.intoActions :=
    Users.staysLoopless_puts (Draft.staysLoopless_cons rfl
      (.link rfl (.leaf rfl .nil) (.link rfl (.leaf rfl .nil) (.leaf rfl .nil))) trivial)
  have before : Users.store.load (Slot.place ⟨"users", .text "u", none⟩) = some Users.user := by cbv
  refine ⟨_, _, [("a", .m [("x", .s "1")]), ("b", .m [("x", .s "1")]), ("id", .s "u")],
    [("a", .m [("x", .s "1")]), ("b", .m []), ("id", .s "u")], done, read, loopless, before, ?_, rfl, rfl, rfl⟩
  cbv

end DocTable
