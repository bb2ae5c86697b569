import DocTable.Proofs.Expression.AddedAttribute
import DocTable.Proofs.Expression.NestedPaths
import DocTable.Proofs.Store.Calls
import Mathlib

/-!
# Paths that an update leaves alone

An update changes nothing at a path that is apart from the paths of all its actions, however many actions
there are, in whatever order, and whatever maps of placeholders they share (`UpdateAction.get?_apply`).
Hence an update of a stored item leaves such paths as they were, and every attribute that no action's path
starts with (`Store.update_spares_unrelated_paths`).

What makes this true in spite of shared maps is where the links to them are: an action puts a link at its
own path, so a path apart from it runs through the item itself and never enters a shared map.  That no
link stands on the way, and that the value at the end is the one that was there at first, is what each
action keeps (`Draft.Spares.act`).
-/

namespace DocTable

set_option autoImplicit false

instance : LawfulNested Shared := ⟨fun _ => rfl⟩

namespace Draft

/-! ## What an action does to the item itself -/

/-- What an action at a path can do to the fields of an item: it leaves them, puts a value at the path, or
takes the value there away. -/
inductive Reaches (path : Path) (fields : Fields Shared) : Fields Shared → Prop where
  | kept : Reaches path fields fields
  | put {value : Shared} {changed : Fields Shared} (done : Path.set fields value path = .ok changed) :
      Reaches path fields changed
  | removed : Reaches path fields (Path.remove fields path)

variable {d after : Draft} {path : Path}

theorem reaches_put {value : Shared} (done : d.put path value = .ok after) :
    Reaches path d.item after.item := by
  simp only [put] at done
  cases ends : home d.maps none [] d.item path with
  | mk token? rest =>
    rw [ends] at done
    split at done
    · rename_i fields placed
      cases done
      cases token? with
      | some token => exact .kept
      | none =>
        have whole : rest = path := home_none ends
        exact .put (whole ▸ placed)
    · cases done

theorem reaches_remove : Reaches path d.item (d.remove path).item := by
  simp only [remove]
  cases ends : home d.maps none [] d.item path with
  | mk token? rest =>
    cases token? with
    | some token => exact .kept
    | none =>
      have whole : rest = path := home_none ends
      exact whole ▸ .removed

theorem reaches_putOperand {a : UpdateAction} (done : d.putOperand a = .ok after) :
    Reaches a.path d.item after.item := by
  rw [putOperand] at done
  split at done
  · have reaches := reaches_put done
    exact reaches
  · exact reaches_put done

theorem reaches_act {a : UpdateAction} (done : d.act a = .ok after) :
    Reaches a.path d.item after.item := by
  rw [act] at done
  split at done
  · exact reaches_putOperand done
  · cases done
    exact reaches_remove
  · split at done
    · exact reaches_putOperand done
    · split at done
      · cases done
      · exact reaches_put done
  · split at done
    · cases done
      exact .kept
    · split at done
      · cases done
      · cases done
        exact reaches_remove
      · exact reaches_put done

end Draft

/-! ## Paths through the item itself -/

namespace Shared

/-- A value that a record has by itself: a map of its own, or a value that is no map. -/
def IsOwn : Shared → Prop
  | .leaf value => value.fields? = none
  | .map _ => True
  | .link _ => False

/-- A path meets only values that a record has by itself. -/
def Owned (fields : List (String × Shared)) (q : Path) : Prop :=
  ∀ p, p <+: q → ∀ shared, Path.get? fields p = some shared → shared.IsOwn

variable {q : Path}

theorem isOwn_ofValue (value : AttributeValue) : (ofValue value).IsOwn := by
  cases value <;> trivial

/-- A record without links is read as the record that it was made of. -/
theorem get?_ofFields (fields : List (String × AttributeValue)) :
    Path.get? (ofFields fields) q = (Path.get? fields q).map ofValue := by
  induction q generalizing fields with
  | nil => rfl
  | cons step rest ih =>
    by_cases last : rest = []
    · subst last
      exact lookup_ofFields step fields
    · rw [Path.get?_cons last, Path.get?_cons last, lookup_ofFields]
      cases Keyed.lookup step fields with
      | none => rfl
      | some value =>
        cases value with
        | m inner => exact ih inner
        | _ => rfl

theorem owned_ofFields (fields : List (String × AttributeValue)) : Owned (ofFields fields) q := by
  intro p _ shared found
  rw [get?_ofFields] at found
  obtain ⟨value, _, rfl⟩ := Option.map_eq_some_iff.mp found
  exact isOwn_ofValue value

theorem Owned.inner {fields inner : List (String × Shared)} {step : String}
    (owned : Owned fields (step :: q)) (found : Keyed.lookup step fields = some (.map inner)) :
    Owned inner q := by
  intro p above shared there
  have nonempty : p ≠ [] := by
    rintro rfl
    cases there
  refine owned (step :: p) (List.cons_prefix_cons.mpr ⟨rfl, above⟩) shared ?_
  rw [Path.get?_cons nonempty, found]
  exact there

/-- Along a path through values of its own, a record is read alike with maps in place of its links. -/
theorem get?_revealFields (linked : String → AttributeValue) {fields : List (String × Shared)}
    (owned : Owned fields q) :
    Path.get? (revealFields linked fields) q = (Path.get? fields q).map (reveal linked) := by
  induction q generalizing fields with
  | nil => rfl
  | cons step rest ih =>
    by_cases last : rest = []
    · subst last
      exact lookup_revealFields linked step fields
    · rw [Path.get?_cons last, Path.get?_cons last, lookup_revealFields]
      cases found : Keyed.lookup step fields with
      | none => rfl
      | some shared =>
        have own : shared.IsOwn :=
          owned [step] (List.cons_prefix_cons.mpr ⟨rfl, List.nil_prefix⟩) shared found
        cases shared with
        | leaf value =>
          have noMap : Nested.fields? value = none := own
          rw [Option.map_some, Option.bind_some, reveal, noMap]
          rfl
        | map inner => exact ih (owned.inner found)
        | link token => exact own.elim

/-- What an action can do at a path leaves values of the record's own on a path apart from it. -/
theorem Owned.reaches {path : Path} {fields changed : Fields Shared} (owned : Owned fields q)
    (apart : path.Apart q) (reaches : Draft.Reaches path fields changed) : Owned changed q := by
  intro p above shared there
  have nonempty : p ≠ [] := by
    rintro rfl
    cases there
  -- a path above one that is apart is apart as well, or it is on the way to the place of the action
  have notBelow : ¬path <+: p := fun leads => apart.1 (leads.trans above)
  cases reaches with
  | kept => exact owned p above shared there
  | put done =>
    by_cases onWay : p <+: path
    · obtain ⟨inner, isMap⟩ := Path.get?_set_above nonempty onWay
        (fun same => notBelow (same ▸ List.prefix_refl p)) done
      rw [isMap] at there
      cases there
      trivial
    · rw [Path.get?_set_of_apart ⟨notBelow, onWay⟩ done] at there
      exact owned p above shared there
  | removed =>
    by_cases onWay : p <+: path
    · have proper : p ≠ path := fun same => notBelow (same ▸ List.prefix_refl p)
      rcases @Path.get?_remove_above _ _ _ _ fields _ onWay proper with same | ⟨inner, isMap⟩
      · exact owned p above shared (same ▸ there)
      · rw [isMap] at there
        cases there
        trivial
    · rw [Path.get?_remove_of_apart ⟨notBelow, onWay⟩] at there
      exact owned p above shared there

end Shared

/-! ## Updates -/

namespace Draft

theorem Reaches.get?_eq {path q : Path} {fields changed : Fields Shared}
    (reaches : Reaches path fields changed) (apart : path.Apart q) :
    Path.get? changed q = Path.get? fields q := by
  cases reaches with
  | kept => rfl
  | put done => exact Path.get?_set_of_apart apart done
  | removed => exact Path.get?_remove_of_apart apart

/-- A draft has at a path what an item has there, and all on the way is its own. -/
structure Spares (item : Item) (q : Path) (d : Draft) : Prop where
  read : Path.get? d.item q = (Path.get? item q).map Shared.ofValue
  owned : Shared.Owned d.item q

namespace Spares

variable {d after : Draft} {item : Item} {q : Path}

theorem ofItem (item : Item) (q : Path) : Spares item q (Draft.ofItem item) :=
  ⟨Shared.get?_ofFields item, Shared.owned_ofFields item⟩

/-- An action apart from a path leaves a draft that has there what the item has. -/
theorem act (spares : Spares item q d) {a : UpdateAction} (apart : a.path.Apart q)
    (done : d.act a = .ok after) : Spares item q after :=
  ⟨((reaches_act done).get?_eq apart).trans spares.read, spares.owned.reaches apart (reaches_act done)⟩

theorem actAll (spares : Spares item q d) {actions : List UpdateAction}
    (apart : ∀ a ∈ actions, a.path.Apart q) (done : d.actAll actions = .ok after) :
    Spares item q after := by
  induction actions generalizing d with
  | nil =>
    cases done
    exact spares
  | cons a rest ih =>
    obtain ⟨between, first, remaining⟩ := Outcome.ok_of_bind done
    exact ih (spares.act (apart a List.mem_cons_self) first)
      (fun other member => apart other (List.mem_cons_of_mem _ member)) remaining

theorem get?_finish (spares : Spares item q d) : Path.get? d.finish q = Path.get? item q := by
  rw [finish, Shared.get?_revealFields _ spares.owned, spares.read, Option.map_map]
  cases Path.get? item q with
  | none => rfl
  | some value => exact congrArg some (Shared.reveal_ofValue _ value)

end Spares

end Draft

/-- An update leaves what is read at a path apart from the paths of its actions. -/
theorem UpdateAction.get?_apply {actions : List UpdateAction} {item new : Item} {q : Path}
    (apart : ∀ a ∈ actions, a.path.Apart q) (done : UpdateAction.apply actions item = .ok new) :
    Path.get? new q = Path.get? item q := by
  obtain ⟨d, acted, finished⟩ := Outcome.ok_of_bind done
  cases finished
  exact ((Draft.Spares.ofItem item q).actAll apart acted).get?_finish

/-- What is loaded after an update that was accepted is what the actions have made of the item. -/
theorem Store.Accepts.load_update {s after : Store} {t : TableSchema} {slot : Slot} {r : TypedRequest}
    {new? : Option Item} {output : ItemOutput} (accepted : Accepts s t slot (.update r) new? after output) :
    after.load slot.place = new? := by
  cases accepted with
  | update _ _ _ _ _ _ _ _ stored =>
    rw [load, Keyed.lookup_insert_self, Option.bind_some]
    exact Item.item?_of_stored stored

/-- **An update leaves unrelated paths alone.**  Let an update of a store succeed.  It reads actions and
addresses a place, where there is an item afterwards.  At every path that is apart from the paths of all
actions, that is, none of them leads to the place of the other or through it, this item has the same as the
item before, or the key of the request if there was none: the same value, or no value.  In particular it
has the same value, or none, for every attribute that is not the first step of an action's path. -/
theorem Store.update_spares_unrelated_paths {s after : Store} {r : TypedRequest} {output : ItemOutput}
    (done : s.update r = .ok (after, output)) :
    ∃ t key place text actions new, s.table r.tableName? = .ok t ∧ address t r = .ok (key, place) ∧
      r.update? = some text ∧ UpdateAction.parse text r.context = .ok actions ∧
      after.load place = some new ∧
      (∀ q : Path, (∀ a ∈ actions, ¬a.path <+: q ∧ ¬q <+: a.path) →
        Path.get? new q = Path.get? ((s.load place).getD key) q) ∧
      ∀ name, (∀ a ∈ actions, a.path.head? ≠ some name) →
        Keyed.lookup name new = Keyed.lookup name ((s.load place).getD key) := by
  obtain ⟨t, slot, new?, accepted⟩ := accepts_of_update done
  have loaded := accepted.load_update
  cases accepted with
  | @update _ text key new actions _ given table extracted addressed parsed _ _ applied _ _ =>
    refine ⟨t, key, slot.place, text, actions, new, table,
      address_eq_ok_iff.mpr ⟨extracted, slot, addressed, rfl⟩, given, parsed, loaded, ?_, ?_⟩
    · exact fun q apart => UpdateAction.get?_apply apart applied
    · exact fun name elsewhere => UpdateAction.lookup_apply_of_head elsewhere applied

namespace Tasks

/-- A table of tasks. -/
def tasks : TableSchema := ⟨"tasks", ⟨"id", "S"⟩, .none, []⟩

/-- A task with a count and, in its note, the name and the mail of its author. -/
def task : Item :=
  [("count", .n "1"), ("id", .s "t"), ("note", .m [("by", .m [("mail", .s "m"), ("name", .s "n")])])]

/-- A store with the task. -/
def store : Store :=
  (⟨[("tasks", tasks)], []⟩ : Store).run [.put { tableName? := some "tasks", item? := some task }]

/-- Changes the author's name, puts one map at two places, writes below one and removes below the other. -/
def changes : String := "SET note.by.name = :s, to = :m, note.cc = :m, to.k = :s REMOVE note.cc.k"

/-- Updates the task. -/
def request : TypedRequest :=
  { tableName? := some "tasks", key? := some [("id", .s "t")], update? := some changes,
    values? := some [(":m", .m []), (":s", .s "new")] }

/-- The actions of the update. -/
def actions : List UpdateAction :=
  [⟨.set, ["note", "by", "name"], some ⟨":s", .s "new"⟩⟩, ⟨.set, ["to"], some ⟨":m", .m []⟩⟩,
    ⟨.set, ["note", "cc"], some ⟨":m", .m []⟩⟩, ⟨.set, ["to", "k"], some ⟨":s", .s "new"⟩⟩,
    ⟨.remove, ["note", "cc", "k"], none⟩]

end Tasks

/-- The author's mail and the count of a task stay where they are. -/
theorem Store.update_spares_unrelated_paths_of_tasks :
    ∃ after output new, Tasks.store.update Tasks.request = .ok (after, output) ∧
      after.load (Slot.place ⟨"tasks", .text "t", none⟩) = some new ∧
      Path.get? new ["note", "by", "mail"] = some (.s "m") ∧
      Path.get? new ["note", "by", "phone"] = none ∧ Keyed.lookup "count" new = some (.n "1") := by
  have succeeds : (Tasks.store.update Tasks.request).isOk = true := by decide +kernel
  obtain ⟨⟨after, output⟩, done⟩ := Outcome.ok_of_isOk succeeds
  obtain ⟨t, key, place, text, actions, new, table, located, given, parsed, loaded, spared, kept⟩ :=
    Store.update_spares_unrelated_paths done
  have tables : Tasks.store.table Tasks.request.tableName? = .ok Tasks.tasks := by decide +kernel
  rw [tables] at table
  cases table
  have addressed : Store.address Tasks.tasks Tasks.request =
      .ok ([("id", .s "t")], Slot.place ⟨"tasks", .text "t", none⟩) := rfl
  rw [addressed] at located
  cases located
  cases given
  have read : UpdateAction.parse Tasks.changes Tasks.request.context = .ok Tasks.actions := by cbv
  rw [read] at parsed
  cases parsed
  have before : Tasks.store.load (Slot.place ⟨"tasks", .text "t", none⟩) = some Tasks.task := by cbv
  rw [before] at spared kept
  refine ⟨after, output, new, done, loaded, ?_, ?_, ?_⟩
  · exact (spared ["note", "by", "mail"] (by decide)).trans rfl
  · exact (spared ["note", "by", "phone"] (by decide)).trans rfl
  · exact (kept "count" (by decide)).trans rfl

end DocTable
