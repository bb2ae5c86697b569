import DocTable.Proofs.Expression.PathEdits

/-!
# Edits of a draft with shared maps

An edit whose path leads into the map of a placeholder changes this map (`Draft.Enters`), and with it the tree
at all places where the map stands.  Of a record that leads to a replaced map (`Rebinds`) three things can be
said: it stands for some tree again (`Reveals.rebind`); for the same tree if the map stands for the same as
before (`Reveals.rebind_same`); and for the tree edited at one place if the map is found at this place only
(`Reveals.rebind_alone`).

Hence an edit of a draft is the edit of its tree exactly if it changes no map that stands at two places
(`Draft.Unfolds.edit_iff`).  That the condition is needed is seen at a second place of the map: it is apart from
the path of the edit, so the edited tree has there what it had before (`Draft.Enters.keepsShared_of_run`).  All
this is about drafts in which no map stands inside itself (`Draft.Loopless`).
-/

namespace DocTable

set_option autoImplicit false

namespace Draft

/-- The map of a placeholder as a plain value. -/
def mapOf (d : Draft) (token : String) : AttributeValue := linked d.maps d.maps.length token

/-- No map stands inside itself. -/
def Loopless (d : Draft) : Prop :=
  ∀ p q token, d.get? p = some (.link token) → d.get? (p ++ q) = some (.link token) → q = []

/-- The maps that stand at two places stay as they are. -/
def KeepsShared (d after : Draft) : Prop :=
  ∀ token p q, p ≠ q → d.get? p = some (.link token) → d.get? q = some (.link token) →
    after.mapOf token = d.mapOf token

/-- A draft stands for a tree, and so does every map that it holds, also one that no link leads to by now. -/
structure Unfolds (d : Draft) (plain : Item) : Prop where
  reveals : Reveals d.maps d.item plain
  arranged : AttributeValue.Arranged (.m plain)
  maps : ∀ {token : String} {inner : Fields Shared}, Keyed.lookup token d.maps = some inner →
    ∃ below, Reveals d.maps inner below ∧ AttributeValue.Arranged (.m below)

namespace Unfolds

variable {d : Draft} {plain below : Item} {token : String} {inner : Fields Shared}

theorem ofItem {item : Item} (arranged : AttributeValue.Arranged (.m item)) :
    Unfolds (Draft.ofItem item) item :=
  ⟨.ofFields _ item, arranged, fun bound => nomatch bound⟩

theorem finish (unfolds : d.Unfolds plain) : d.finish = plain :=
  unfolds.reveals.revealFields_all unfolds.arranged

/-- The map of a placeholder is what a link to it stands for. -/
theorem mapOf_eq (unfolds : d.Unfolds plain) {value : AttributeValue}
    (link : (Shared.link token).Unfolds d.maps value) : d.mapOf token = value := by
  obtain ⟨inner, below, bound, rfl, inside⟩ := link
  obtain ⟨_, inside', arranged⟩ := unfolds.maps bound
  cases inside.unique inside'
  -- a record that has nothing but the link
  have single : Reveals d.maps [("", .link token)] [("", .m below)] := .link bound inside .nil
  have revealed := single.revealFields_all (arranged.singleton "")
  rw [Shared.revealFields, Shared.reveal] at revealed
  exact (Prod.mk.inj (List.cons.inj revealed).1).2

/-- Where a link stands, the tree has the map of its placeholder. -/
theorem get?_of_link (unfolds : d.Unfolds plain) {path : Path}
    (found : find d.maps d.item path = some (.link token)) :
    Path.get? plain path = some (d.mapOf token) := by
  obtain ⟨inner, below, bound, inside, there⟩ := unfolds.reveals.bound found
  rw [unfolds.mapOf_eq ⟨inner, below, bound, rfl, inside⟩, there]

end Unfolds

end Draft

/-! ## One map is replaced -/

/-- Maps that are others for one placeholder only, for which they have a map that stands for new fields. -/
structure Rebinds (maps others : Fields (Fields Shared)) (token : String) (new : Item) : Prop where
  same : ∀ {other}, other ≠ token → Keyed.lookup other others = Keyed.lookup other maps
  bound : ∃ inner, Keyed.lookup token others = some inner ∧ Reveals others inner new

theorem Rebinds.unfolds {maps others : Fields (Fields Shared)} {token : String} {new : Item}
    (rebinds : Rebinds maps others token new) : (Shared.link token).Unfolds others (.m new) := by
  obtain ⟨inner, bound, inside⟩ := rebinds.bound
  exact ⟨inner, new, bound, rfl, inside⟩

namespace Reveals

open Draft

variable {maps others : Fields (Fields Shared)} {token : String} {fields inner : Fields Shared}
  {plain below new : Item}

/-- If one map is replaced, a record stands for another tree. -/
theorem rebind (reveals : Reveals maps fields plain) (rebinds : Rebinds maps others token new)
    (arranged : AttributeValue.Arranged (.m plain)) (arrangedNew : AttributeValue.Arranged (.m new)) :
    ∃ changed, Reveals others fields changed ∧ AttributeValue.Arranged (.m changed) := by
  induction reveals with
  | nil => exact ⟨[], .nil, arranged⟩
  | leaf noMap rest ih =>
    obtain ⟨above, here, arrangedRest⟩ := AttributeValue.Arranged.cons_iff.mp arranged
    obtain ⟨changed, revealed, done⟩ := ih arrangedRest
    rw [← rest.keys_eq, revealed.keys_eq] at above
    exact ⟨_, .leaf noMap revealed, AttributeValue.Arranged.cons_iff.mpr ⟨above, here, done⟩⟩
  | map _ rest ihInside ih =>
    obtain ⟨above, here, arrangedRest⟩ := AttributeValue.Arranged.cons_iff.mp arranged
    obtain ⟨changed, revealed, done⟩ := ih arrangedRest
    obtain ⟨inner, inside, doneInside⟩ := ihInside here
    rw [← rest.keys_eq, revealed.keys_eq] at above
    exact ⟨_, .map inside revealed, AttributeValue.Arranged.cons_iff.mpr ⟨above, doneInside, done⟩⟩
  | @link _ other _ _ _ _ bound _ rest ihInside ih =>
    obtain ⟨above, here, arrangedRest⟩ := AttributeValue.Arranged.cons_iff.mp arranged
    obtain ⟨changed, revealed, done⟩ := ih arrangedRest
    rw [← rest.keys_eq, revealed.keys_eq] at above
    by_cases replaced : other = token
    · subst replaced
      obtain ⟨_, boundNew, inside⟩ := rebinds.bound
      exact ⟨_, .link boundNew inside revealed,
        AttributeValue.Arranged.cons_iff.mpr ⟨above, arrangedNew, done⟩⟩
    · obtain ⟨_, inside, doneInside⟩ := ihInside here
      exact ⟨_, .link ((rebinds.same replaced).trans bound) inside revealed,
        AttributeValue.Arranged.cons_iff.mpr ⟨above, doneInside, done⟩⟩

/-- If one map is replaced by one that stands for the same, a record stands for the same tree. -/
theorem rebind_same (reveals : Reveals maps fields plain) (rebinds : Rebinds maps others token below)
    (bound : Keyed.lookup token maps = some inner) (inside : Reveals maps inner below) :
    Reveals others fields plain := by
  induction reveals with
  | nil => exact .nil
  | leaf noMap _ ih => exact .leaf noMap ih
  | map _ _ ihInside ih => exact .map ihInside ih
  | @link _ other _ _ _ _ bound' inside' _ ihInside ih =>
    by_cases replaced : other = token
    · subst replaced
      cases bound.symm.trans bound'
      cases inside.unique inside'
      obtain ⟨_, boundNew, insideNew⟩ := rebinds.bound
      exact .link boundNew insideNew ih
    · exact .link ((rebinds.same replaced).trans bound') ihInside ih

end Reveals

/-- A path that does not go through the map of a placeholder finds the same whatever this map is. -/
theorem Draft.find_around {maps others : Fields (Fields Shared)} {token : String}
    (same : ∀ {other}, other ≠ token → Keyed.lookup other others = Keyed.lookup other maps)
    {fields : Fields Shared} {path : Path}
    (around : ∀ p rest, path = p ++ rest → rest ≠ [] → find maps fields p ≠ some (.link token)) :
    find others fields path = find maps fields path := by
  induction path generalizing fields with
  | nil => rfl
  | cons step rest ih =>
    by_cases last : rest = []
    · subst last
      rfl
    · rw [find_cons last, find_cons last]
      have inside : ∀ inner, ((Keyed.lookup step fields).bind (opened maps)) = some inner →
          find others inner rest = find maps inner rest := by
        intro inner entered
        refine ih fun p others split nonempty found => ?_
        refine around (step :: p) others (by rw [split, List.cons_append]) nonempty ?_
        rw [find_cons (ne_nil_of_find found), entered]
        exact found
      cases there : Keyed.lookup step fields with
      | none => rfl
      | some shared =>
        rw [there] at inside
        cases shared with
        | leaf value => rfl
        | map inner => exact inside inner rfl
        | link other =>
          have distinct : other ≠ token := by
            rintro rfl
            exact around [step] rest rfl last there
          rw [Option.bind_some, Option.bind_some, opened, opened, same distinct]
          exact inside _ rfl

/-- A link stays where it is found if the map of its placeholder is replaced. -/
theorem Reveals.find_link {maps others : Fields (Fields Shared)} {token : String} {fields : Fields Shared}
    {plain : Item} (reveals : Reveals maps fields plain)
    (same : ∀ {other}, other ≠ token → Keyed.lookup other others = Keyed.lookup other maps) {path : Path}
    (found : Draft.find maps fields path = some (.link token)) :
    Draft.find others fields path = some (.link token) := by
  rw [← found]
  refine Draft.find_around same fun p rest split nonempty above => ?_
  exact reveals.find_below_link_ne above nonempty (split ▸ found)

/-- A value that opens a record stands for the map of what the record stands for, also after another map than
its own was replaced. -/
theorem Shared.Unfolds.opened {maps others : Fields (Fields Shared)} {token : String} {new : Item}
    (rebinds : Rebinds maps others token new) {shared : Shared} {value : AttributeValue} {inner : Fields Shared}
    (unfolds : shared.Unfolds maps value) (entered : Draft.opened maps shared = some inner)
    (other : shared ≠ .link token) :
    ∃ below, value = .m below ∧ Reveals maps inner below ∧
      ∀ {changed}, Reveals others inner changed → shared.Unfolds others (.m changed) := by
  cases shared with
  | leaf there => cases entered
  | map inner =>
    cases entered
    obtain ⟨below, rfl, inside⟩ := unfolds
    exact ⟨below, rfl, inside, fun insideNew => ⟨_, rfl, insideNew⟩⟩
  | link name =>
    obtain ⟨_, below, bound, rfl, inside⟩ := unfolds
    rw [Draft.opened, bound] at entered
    cases entered
    have distinct : name ≠ token := fun same => other (congrArg Shared.link same)
    exact ⟨below, rfl, inside, fun insideNew => ⟨_, _, (rebinds.same distinct).trans bound, rfl, insideNew⟩⟩

namespace Keyed.Matches

variable {α β : Type} {related other : α → β → Prop} {first : Fields α} {second : Fields β}

theorem imp_of_mem (matching : Matches related first second)
    (weaker : ∀ {name a b}, (name, a) ∈ first → (name, b) ∈ second → related a b → other a b) :
    Matches other first second := by
  induction matching with
  | nil => exact .nil
  | @cons x y _ _ same _ ih =>
    obtain ⟨name, a⟩ := x
    obtain ⟨name', b⟩ := y
    obtain ⟨keys, values⟩ := same
    have sameKey : name = name' := keys
    subst sameKey
    exact .cons ⟨rfl, weaker List.mem_cons_self List.mem_cons_self values⟩
      (ih fun inFirst inSecond => weaker (List.mem_cons_of_mem _ inFirst) (List.mem_cons_of_mem _ inSecond))

/-- Entries that are related otherwise after one of the ascending values on one side is replaced. -/
theorem replace (matching : Matches related first second) (ascending : Ascending second) {name : String}
    {a : α} {b : β} (found : Keyed.lookup name first = some a) (values : other a b)
    (weaker : ∀ {key c d}, key ≠ name → (key, c) ∈ first → (key, d) ∈ second → related c d → other c d) :
    Matches other first (Keyed.insert name b second) := by
  induction matching with
  | nil => cases found
  | @cons x y rest plain same matching ih =>
    obtain ⟨key, c⟩ := x
    obtain ⟨key', d⟩ := y
    obtain ⟨keys, here⟩ := same
    have sameKey : key = key' := keys
    subst sameKey
    obtain ⟨above, ascendingRest⟩ := List.pairwise_cons.mp ascending
    rw [Keyed.lookup] at found
    rw [Keyed.insert]
    split at found
    · rename_i same
      subst same
      cases found
      rw [if_neg (lt_irrefl key), if_pos rfl]
      refine .cons ⟨rfl, values⟩ (imp_of_mem matching fun inFirst inSecond => ?_)
      exact weaker (above _ inSecond).ne' (List.mem_cons_of_mem _ inFirst) (List.mem_cons_of_mem _ inSecond)
    · rename_i distinct
      have less : key < name := by
        rcases Matches.lookup matching name with ⟨missing, _⟩ | ⟨_, _, _, there, _⟩
        · cases found.symm.trans missing
        · exact above _ (mem_of_lookup there)
      rw [if_neg less.asymm, if_neg (Ne.symm distinct)]
      refine .cons ⟨rfl, weaker distinct List.mem_cons_self List.mem_cons_self here⟩ ?_
      exact ih ascendingRest found fun other inFirst inSecond =>
        weaker other (List.mem_cons_of_mem _ inFirst) (List.mem_cons_of_mem _ inSecond)

end Keyed.Matches

namespace Reveals

open Draft

variable {maps others : Fields (Fields Shared)} {token : String} {fields inner : Fields Shared}
  {plain below new : Item}

/-- If a replaced map is found only behind one attribute, a record stands for the tree in which what is behind
this attribute is another. -/
theorem rebind_entry (reveals : Reveals maps fields plain) (arranged : AttributeValue.Arranged (.m plain))
    (rebinds : Rebinds maps others token new) {step : String}
    (alone : ∀ path, Draft.find maps fields path = some (.link token) → path.head? = some step)
    {shared : Shared} {value : AttributeValue} (found : Keyed.lookup step fields = some shared)
    (unfolds : shared.Unfolds others value) : Reveals others fields (Keyed.insert step value plain) := by
  obtain ⟨ascending, each⟩ := AttributeValue.Arranged.m_iff.mp arranged
  refine matches_iff.mpr ((matches_iff.mp reveals).replace ascending found unfolds ?_)
  intro name shared value distinct inFields inPlain unfolds
  have here : Keyed.lookup name fields = some shared :=
    Keyed.lookup_of_mem (reveals.ascending arranged) inFields
  refine Shared.Unfolds.transfer unfolds (each _ inPlain) fun path other found => rebinds.same ?_
  -- what an entry by another name leads to is not replaced
  rintro rfl
  exact distinct (Option.some.inj (alone (name :: path) ((find_step here).trans found)))

/-- If a replaced map is found at one place only, a record stands for the tree in which the map is another at
this place. -/
theorem rebind_alone (reveals : Reveals maps fields plain) (arranged : AttributeValue.Arranged (.m plain))
    (rebinds : Rebinds maps others token new) {place ending : Path} {e : PathEdit AttributeValue}
    (found : Draft.find maps fields place = some (.link token))
    (alone : ∀ path, Draft.find maps fields path = some (.link token) → path = place)
    (bound : Keyed.lookup token maps = some inner) (inside : Reveals maps inner below) (nonempty : ending ≠ [])
    (edited : e.run below ending = .ok new) :
    ∃ changed, e.run plain (place ++ ending) = .ok changed ∧ Reveals others fields changed := by
  induction place generalizing fields plain with
  | nil => cases found
  | cons step rest ih =>
    have behind : ∀ path, Draft.find maps fields path = some (.link token) → path.head? = some step := by
      intro path isLink
      rw [alone path isLink, List.head?_cons]
    obtain ⟨shared, here⟩ := exists_lookup_of_find found
    obtain ⟨value, herePlain, unfolds⟩ := reveals.lookup_of_some here
    by_cases last : rest = []
    · subst last
      cases here.symm.trans found
      obtain ⟨_, _, bound', rfl, inside'⟩ := unfolds
      cases bound.symm.trans bound'
      cases inside.unique inside'
      obtain ⟨innerNew, boundNew, insideNew⟩ := rebinds.bound
      exact ⟨_, PathEdit.run_cons nonempty herePlain rfl edited,
        reveals.rebind_entry arranged rebinds behind here ⟨innerNew, new, boundNew, rfl, insideNew⟩⟩
    · rw [find_cons last, here, Option.bind_some] at found
      obtain ⟨through, entered, found⟩ := Option.bind_eq_some_iff.mp found
      have aloneInside : ∀ path, Draft.find maps through path = some (.link token) → path = rest := by
        intro path isLink
        have whole : Draft.find maps fields (step :: path) = some (.link token) := by
          rw [find_cons (ne_nil_of_find isLink), here, Option.bind_some, entered]
          exact isLink
        exact (List.cons.inj (alone _ whole)).2
      have longer : rest ++ ending ≠ [] := List.append_ne_nil_of_left_ne_nil last _
      have other : shared ≠ .link token := by
        rintro rfl
        exact last (List.cons.inj (alone [step] here)).2.symm
      obtain ⟨belowHere, rfl, insideHere, becomes⟩ := Shared.Unfolds.opened rebinds unfolds entered other
      obtain ⟨changed, edited', insideNew⟩ := ih insideHere (arranged.lookup herePlain) found aloneInside
      exact ⟨_, PathEdit.run_cons longer herePlain rfl edited',
        reveals.rebind_entry arranged rebinds behind here (becomes insideNew)⟩

end Reveals

/-! ## Edits of a draft -/

/-- An edit that changes nothing of a map changes nothing of what the map stands in. -/
theorem PathEdit.run_of_unchanged {e : PathEdit AttributeValue} {plain below : Item} {place ending : Path}
    (arranged : AttributeValue.Arranged (.m plain)) (found : Path.get? plain place = some (.m below))
    (nonempty : ending ≠ []) (unchanged : e.run below ending = .ok below) :
    e.run plain (place ++ ending) = .ok plain := by
  induction place generalizing plain with
  | nil => cases found
  | cons step rest ih =>
    have ascending := (AttributeValue.Arranged.m_iff.mp arranged).1
    by_cases last : rest = []
    · subst last
      have here : Keyed.lookup step plain = some (.m below) := found
      exact (run_cons nonempty here rfl unchanged).trans (congrArg _ (ascending.insert_of_lookup here))
    · obtain ⟨inner, here, there⟩ := Path.exists_m_of_get?_cons last found
      have inside := ih (arranged.lookup here) there
      exact (run_cons (List.append_ne_nil_of_left_ne_nil last _) here rfl inside).trans
        (congrArg _ (ascending.insert_of_lookup here))

/-- Both edits put a value, or both take one away. -/
inductive PathEdit.Alike : PathEdit Shared → PathEdit AttributeValue → Prop where
  | put (shared : Shared) (value : AttributeValue) : Alike (.put shared) (.put value)
  | take : Alike .take .take

theorem PathEdit.Unfolds.unique {maps : Fields (Fields Shared)} {e : PathEdit Shared}
    {e' other : PathEdit AttributeValue} (unfolds : e.Unfolds maps e') (again : e.Unfolds maps other) :
    other = e' := by
  cases unfolds with
  | put unfolds =>
    cases again with
    | put unfolds' => rw [unfolds.unique unfolds']
  | take =>
    cases again
    rfl

namespace Draft

/-- A path leads into the map of a placeholder, and behind the last link on the way to its end. -/
structure Enters (d : Draft) (token : String) (place ending : Path) (inner : Fields Shared) (below : Item) :
    Prop where
  nonempty : ending ≠ []
  found : find d.maps d.item place = some (.link token)
  bound : Keyed.lookup token d.maps = some inner
  inside : Reveals d.maps inner below
  direct : Direct inner ending

namespace Enters

variable {d : Draft} {plain below : Item} {token : String} {place ending : Path} {inner changed : Fields Shared}
  {e : PathEdit Shared} {e' : PathEdit AttributeValue}

theorem unfolds (enters : Enters d token place ending inner below) :
    (Shared.link token).Unfolds d.maps (.m below) :=
  ⟨inner, below, enters.bound, rfl, enters.inside⟩

theorem find_place (enters : Enters d token place ending inner below) (unfolds : d.Unfolds plain) :
    find (Keyed.insert token changed d.maps) d.item place = some (.link token) :=
  unfolds.reveals.find_link (fun distinct => Keyed.lookup_insert_of_ne _ _ (Ne.symm distinct)) enters.found

/-- What was put is found at its place, also if the place is in the map of a placeholder. -/
theorem find_put (enters : Enters d token place ending inner below) (unfolds : d.Unfolds plain)
    {shared : Shared} (edited : (PathEdit.put shared).run inner ending = .ok changed) :
    find (Keyed.insert token changed d.maps) d.item (place ++ ending) = some shared := by
  rw [find_append (enters.find_place unfolds) enters.nonempty, opened, Keyed.lookup_insert_self]
  exact (find_of_direct (enters.direct.set edited)).trans (Path.get?_set_self enters.nonempty edited)

/-- What is put into the map of a placeholder does not change by that, or a map would stand in itself. -/
theorem unfolds_value (enters : Enters d token place ending inner below) (unfolds : d.Unfolds plain)
    (loopless : Loopless ⟨d.item, Keyed.insert token changed d.maps⟩)
    (same : e.Unfolds d.maps e') (arranged : e'.Arranged) (edited : e.run inner ending = .ok changed) :
    e.Unfolds (Keyed.insert token changed d.maps) e' := by
  cases same with
  | take => exact .take
  | @put shared value unfoldsValue =>
    refine .put (Shared.Unfolds.transfer unfoldsValue arranged fun path other found => ?_)
    refine Keyed.lookup_insert_of_ne _ _ ?_
    rintro rfl
    -- the value would lead back into the map
    have again : follow (Keyed.insert token changed d.maps) shared path = some (.link token) :=
      (Reveals.singleton_iff.mpr unfoldsValue).find_link
        (fun distinct => Keyed.lookup_insert_of_ne _ _ (Ne.symm distinct)) found
    have outer := @find_place _ _ _ _ _ _ _ changed enters unfolds
    have below := (find_append_eq_follow (enters.find_put unfolds edited)).trans again
    rw [List.append_assoc] at below
    have empty := loopless place (ending ++ path) token ((get?_eq_find _ _).trans outer)
      ((get?_eq_find _ _).trans below)
    exact enters.nonempty (List.append_eq_nil_iff.mp empty).1

/-- An edit of the map of a placeholder is the same edit of what the map stands for. -/
theorem rebinds (enters : Enters d token place ending inner below) (unfolds : d.Unfolds plain)
    (loopless : Loopless ⟨d.item, Keyed.insert token changed d.maps⟩)
    (same : e.Unfolds d.maps e') (arranged : e'.Arranged) (edited : e.run inner ending = .ok changed) :
    ∃ new, e'.run below ending = .ok new ∧ AttributeValue.Arranged (.m new) ∧
      Rebinds d.maps (Keyed.insert token changed d.maps) token new := by
  obtain ⟨_, inside, arrangedBelow⟩ := unfolds.maps enters.bound
  cases enters.inside.unique inside
  have kept : Reveals (Keyed.insert token changed d.maps) inner below := by
    refine inside.transfer arrangedBelow fun other leads => Keyed.lookup_insert_of_ne _ _ ?_
    rintro rfl
    exact inside.not_leadsTo_self enters.bound leads
  obtain ⟨new, done, insideNew⟩ :=
    kept.edit enters.direct (enters.unfolds_value unfolds loopless same arranged edited) edited
  exact ⟨new, done, arranged.run arrangedBelow done,
    ⟨fun distinct => Keyed.lookup_insert_of_ne _ _ (Ne.symm distinct), changed,
      Keyed.lookup_insert_self _ _ _, insideNew⟩⟩

end Enters

/-- A draft with one map replaced stands for another tree. -/
theorem Unfolds.rebind {d : Draft} {plain new : Item} {token : String} {maps : Fields (Fields Shared)}
    (unfolds : d.Unfolds plain) (rebinds : Rebinds d.maps maps token new)
    (arrangedNew : AttributeValue.Arranged (.m new)) : ∃ changed, Unfolds ⟨d.item, maps⟩ changed := by
  obtain ⟨changed, reveals, arranged⟩ := unfolds.reveals.rebind rebinds unfolds.arranged arrangedNew
  refine ⟨changed, reveals, arranged, fun {other inner} bound => ?_⟩
  by_cases replaced : other = token
  · subst replaced
    obtain ⟨_, bound', inside⟩ := rebinds.bound
    cases bound'.symm.trans bound
    exact ⟨new, inside, arrangedNew⟩
  · obtain ⟨below, inside, arrangedBelow⟩ := unfolds.maps ((rebinds.same replaced).symm.trans bound)
    exact inside.rebind rebinds arrangedBelow arrangedNew

namespace Enters

variable {d : Draft} {plain below new changed : Item} {token : String} {place ending : Path}
  {inner : Fields Shared} {maps : Fields (Fields Shared)} {e : PathEdit AttributeValue}

/-- An edit of a map is the edit of the tree if the map stands at no other place, or stays as it is. -/
theorem run_of_keepsShared (enters : Enters d token place ending inner below) (unfolds : d.Unfolds plain)
    (rebinds : Rebinds d.maps maps token new) (unfoldsAfter : Unfolds ⟨d.item, maps⟩ changed)
    (edited : e.run below ending = .ok new) (keeps : KeepsShared d ⟨d.item, maps⟩) :
    e.run plain (place ++ ending) = .ok changed := by
  by_cases alone : ∀ path, find d.maps d.item path = some (.link token) → path = place
  · obtain ⟨_, done, reveals⟩ := unfolds.reveals.rebind_alone unfolds.arranged rebinds enters.found alone
      enters.bound enters.inside enters.nonempty edited
    cases unfoldsAfter.reveals.unique reveals
    exact done
  · obtain ⟨other, found, distinct⟩ : ∃ path, find d.maps d.item path = some (.link token) ∧ path ≠ place := by
      simpa using alone
    have kept := keeps token other place distinct ((get?_eq_find _ _).trans found)
      ((get?_eq_find _ _).trans enters.found)
    rw [unfoldsAfter.mapOf_eq rebinds.unfolds, unfolds.mapOf_eq enters.unfolds] at kept
    cases kept
    cases unfoldsAfter.reveals.unique (unfolds.reveals.rebind_same rebinds enters.bound enters.inside)
    refine PathEdit.run_of_unchanged unfolds.arranged ?_ enters.nonempty edited
    rw [unfolds.get?_of_link enters.found, unfolds.mapOf_eq enters.unfolds]

/-- An edit of a map that is the edit of the tree changes no map that stands at two places. -/
theorem keepsShared_of_run (enters : Enters d token place ending inner below) (unfolds : d.Unfolds plain)
    (rebinds : Rebinds d.maps maps token new) (unfoldsAfter : Unfolds ⟨d.item, maps⟩ changed)
    (edited : e.run plain (place ++ ending) = .ok changed) : KeepsShared d ⟨d.item, maps⟩ := by
  intro other p q distinct atP atQ
  rw [get?_eq_find] at atP atQ
  obtain ⟨innerOther, belowOther, boundOther, insideOther, _⟩ := unfolds.reveals.bound atP
  have link : (Shared.link other).Unfolds d.maps (.m belowOther) := ⟨_, _, boundOther, rfl, insideOther⟩
  obtain ⟨_, again, arrangedOther⟩ := unfolds.maps boundOther
  cases insideOther.unique again
  rw [unfolds.mapOf_eq link]
  refine unfoldsAfter.mapOf_eq ?_
  by_cases alone : ∀ path, find d.maps d.item path = some (.link token) → path = place
  · -- a map that led to the changed one would have brought it to two places
    refine Shared.Unfolds.transfer link arrangedOther fun path reached found => rebinds.same ?_
    rintro rfl
    have fromP := alone _ ((find_append_eq_follow atP).trans found)
    have fromQ := alone _ ((find_append_eq_follow atQ).trans found)
    exact distinct (List.append_cancel_right (fromP.trans fromQ.symm))
  · -- the tree has the map unchanged at another place, where the edit did not reach
    obtain ⟨elsewhere, found, distinctPlace⟩ :
        ∃ path, find d.maps d.item path = some (.link token) ∧ path ≠ place := by
      simpa using alone
    have apart := (unfolds.reveals.apart_of_links (Ne.symm distinctPlace) enters.found found).append ending
    have foundAfter := unfolds.reveals.find_link rebinds.same found
    have same := PathEdit.get?_run_of_apart apart edited
    rw [unfoldsAfter.get?_of_link foundAfter, unfolds.get?_of_link found, unfoldsAfter.mapOf_eq rebinds.unfolds,
      unfolds.mapOf_eq enters.unfolds] at same
    cases same
    have single : Reveals d.maps [("", .link other)] [("", .m belowOther)] := Reveals.singleton_iff.mpr link
    exact Reveals.singleton_iff.mp (single.rebind_same rebinds enters.bound enters.inside)

end Enters

variable {d after : Draft} {plain : Item} {path : Path} {e : PathEdit Shared} {e' : PathEdit AttributeValue}

/-- An edit of a draft is one of the item itself, or of the map of a placeholder. -/
theorem Unfolds.edit_cases (unfolds : d.Unfolds plain) (done : d.edit path e = .ok after) :
    (∃ fields, Direct d.item path ∧ e.run d.item path = .ok fields ∧ after = ⟨fields, d.maps⟩) ∨
    ∃ token place ending inner below changed, path = place ++ ending ∧ Enters d token place ending inner below ∧
      e.run inner ending = .ok changed ∧ after = ⟨d.item, Keyed.insert token changed d.maps⟩ := by
  obtain ⟨token?, ending, fields, ends, edited, rfl⟩ := Draft.edit_cases done
  rcases home_cases ends with ⟨rfl, rfl, direct⟩ | ⟨token, place, rfl, rfl, filled, found, direct⟩
  · exact .inl ⟨fields, direct, edited, rfl⟩
  · obtain ⟨inner, below, bound, inside, _⟩ := unfolds.reveals.bound found
    rw [bound] at direct
    rw [fieldsOf, bound] at edited
    exact .inr ⟨token, place, ending, inner, below, fields, rfl, ⟨filled, found, bound, inside, direct⟩,
      edited, rfl⟩

theorem Unfolds.get?_put {shared : Shared} (unfolds : d.Unfolds plain) (nonempty : path ≠ [])
    (done : d.edit path (.put shared) = .ok after) : after.get? path = some shared := by
  rw [get?_eq_find]
  rcases unfolds.edit_cases done with
    ⟨fields, direct, edited, rfl⟩ | ⟨token, place, ending, inner, below, changed, rfl, enters, edited, rfl⟩
  · exact (find_of_direct (direct.set edited)).trans (Path.get?_set_self nonempty edited)
  · exact enters.find_put unfolds edited

/-- A draft that was edited to the tree that was meant has what was meant to be put. -/
theorem Unfolds.of_run {meant : PathEdit AttributeValue} {new : Item} (unfolds : d.Unfolds plain)
    (nonempty : path ≠ []) (done : d.edit path e = .ok after) (unfoldsAfter : after.Unfolds new)
    (alike : e.Alike meant) (ran : meant.run plain path = .ok new) : e.Unfolds after.maps meant := by
  cases alike with
  | take => exact .take
  | put shared value =>
    have found := unfolds.get?_put nonempty done
    rw [get?_eq_find] at found
    rcases unfoldsAfter.reveals.find path with ⟨missing, _⟩ | ⟨_, _, found', there, unfoldsThere⟩
    · cases found.symm.trans missing
    · cases found.symm.trans found'
      cases there.symm.trans (Path.get?_set_self nonempty ran)
      exact .put unfoldsThere

/-- **An edit of a draft is the edit of its tree** exactly if the value that is put stands for the value that
is meant, and no map that stands at two places is changed. -/
theorem Unfolds.edit_iff (unfolds : d.Unfolds plain) (same : e.Unfolds d.maps e') (arranged : e'.Arranged)
    (nonempty : path ≠ []) (done : d.edit path e = .ok after) (loopless : after.Loopless) :
    ∃ new, after.Unfolds new ∧ e.Unfolds after.maps e' ∧ ∀ {meant}, e.Alike meant →
      (meant.run plain path = .ok new ↔ e.Unfolds after.maps meant ∧ KeepsShared d after) := by
  rcases unfolds.edit_cases done with
    ⟨fields, direct, edited, rfl⟩ | ⟨token, place, ending, inner, below, changed, rfl, enters, edited, rfl⟩
  · obtain ⟨new, ran, reveals⟩ := unfolds.reveals.edit direct same edited
    have unfoldsAfter : Unfolds ⟨fields, d.maps⟩ new :=
      ⟨reveals, arranged.run unfolds.arranged ran, unfolds.maps⟩
    refine ⟨new, unfoldsAfter, same, fun {meant} alike => ⟨fun ranMeant => ⟨?_, ?_⟩, fun ⟨sameMeant, _⟩ => ?_⟩⟩
    · exact unfolds.of_run nonempty done unfoldsAfter alike ranMeant
    · exact fun _ _ _ _ _ _ => rfl
    · cases same.unique sameMeant
      exact ran
  · obtain ⟨newBelow, ran, arrangedBelow, rebinds⟩ := enters.rebinds unfolds loopless same arranged edited
    obtain ⟨new, unfoldsAfter⟩ := unfolds.rebind rebinds arrangedBelow
    have sameAfter := enters.unfolds_value unfolds loopless same arranged edited
    refine ⟨new, unfoldsAfter, sameAfter, fun {meant} alike =>
      ⟨fun ranMeant => ⟨?_, ?_⟩, fun ⟨sameMeant, keeps⟩ => ?_⟩⟩
    · exact unfolds.of_run nonempty done unfoldsAfter alike ranMeant
    · exact enters.keepsShared_of_run unfolds rebinds unfoldsAfter ranMeant
    · cases sameAfter.unique sameMeant
      exact enters.run_of_keepsShared unfolds rebinds unfoldsAfter ran keeps

end Draft

end DocTable
