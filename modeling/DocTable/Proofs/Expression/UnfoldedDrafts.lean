import DocTable.Proofs.Expression.NestedPaths
import DocTable.Proofs.Expression.TopLevelUpdate
import Mathlib

/-!
# Drafts as trees

A draft holds the maps of placeholders once and has links to them.  Followed from its item, the links unfold
to a tree of plain values as long as no map stands inside itself; `Reveals` is the relation between records of
a draft and of plain values that says so, and a draft is then finished to that tree
(`Reveals.revealFields_all`).  What is found at a path of the draft is what is found in the tree
(`Reveals.find`).

Which maps a record leads to decides what can change it: a record stands for the same tree under other maps
that agree on those that it leads to (`Reveals.transfer`).  A map never leads to itself, since what is found in
a tree is smaller than the tree (`Reveals.not_leadsTo_self`).
-/

namespace DocTable

set_option autoImplicit false

namespace Draft

/-! ## Paths through links -/

/-- The fields that a path goes on in after a value. -/
def opened (maps : Fields (Fields Shared)) : Shared → Option (Fields Shared)
  | .leaf _ => none
  | .map inner => some inner
  | .link token => some ((Keyed.lookup token maps).getD [])

/-- The value at a path that follows links. -/
def find (maps : Fields (Fields Shared)) (fields : Fields Shared) : Path → Option Shared
  | [] => none
  | [last] => Keyed.lookup last fields
  | step :: rest => ((Keyed.lookup step fields).bind (opened maps)).bind fun inner => find maps inner rest

variable {maps : Fields (Fields Shared)} {fields : Fields Shared} {step : String} {rest path : Path}

theorem find_cons (nonempty : rest ≠ []) : find maps fields (step :: rest) =
    ((Keyed.lookup step fields).bind (opened maps)).bind fun inner => find maps inner rest := by
  cases rest with
  | nil => exact absurd rfl nonempty
  | cons next more => rfl

theorem ne_nil_of_find {value : Shared} (found : find maps fields path = some value) : path ≠ [] := by
  rintro rfl
  cases found

theorem exists_lookup_of_find {value : Shared} (found : find maps fields (step :: rest) = some value) :
    ∃ there, Keyed.lookup step fields = some there := by
  cases here : Keyed.lookup step fields with
  | some there => exact ⟨there, rfl⟩
  | none =>
    cases rest with
    | nil => cases here.symm.trans found
    | cons next more =>
      rw [find_cons (List.cons_ne_nil _ _), here] at found
      cases found

/-- A longer path goes on in the fields of what a shorter one finds. -/
theorem find_append {p : Path} {value : Shared} (found : find maps fields p = some value)
    (nonempty : rest ≠ []) :
    find maps fields (p ++ rest) = (opened maps value).bind fun inner => find maps inner rest := by
  induction p generalizing fields with
  | nil => cases found
  | cons step others ih =>
    rw [List.cons_append, find_cons (List.append_ne_nil_of_right_ne_nil _ nonempty)]
    by_cases last : others = []
    · subst last
      have here : Keyed.lookup step fields = some value := found
      rw [here]
      rfl
    · rw [find_cons last] at found
      obtain ⟨inner, through, there⟩ := Option.bind_eq_some_iff.mp found
      rw [through]
      exact ih there

/-- The value at a path from a value. -/
def follow (maps : Fields (Fields Shared)) (value : Shared) (path : Path) : Option Shared :=
  find maps [("", value)] ("" :: path)

theorem find_step {value : Shared} (here : Keyed.lookup step fields = some value) :
    find maps fields (step :: rest) = follow maps value rest := by
  have single : Keyed.lookup "" [("", value)] = some value := if_pos rfl
  cases rest with
  | nil => exact here.trans single.symm
  | cons next more =>
    rw [follow, find_cons (List.cons_ne_nil _ _), find_cons (List.cons_ne_nil _ _), here, single]

theorem find_append_eq_follow {p : Path} {value : Shared} (found : find maps fields p = some value) :
    find maps fields (p ++ rest) = follow maps value rest := by
  by_cases last : rest = []
  · subst last
    have single : Keyed.lookup "" [("", value)] = some value := if_pos rfl
    rw [List.append_nil, found]
    exact single.symm
  · rw [find_append found last, follow, find_cons last, Keyed.lookup, if_pos rfl, Option.bind_some]

/-- A path meets no link before its end. -/
def Direct : Fields Shared → Path → Prop
  | _, [] => True
  | _, [_] => True
  | fields, step :: rest => (∀ token, Keyed.lookup step fields ≠ some (.link token)) ∧
      ∀ inner, Keyed.lookup step fields = some (.map inner) → Direct inner rest

theorem direct_cons (nonempty : rest ≠ []) : Direct fields (step :: rest) ↔
    (∀ token, Keyed.lookup step fields ≠ some (.link token)) ∧
      ∀ inner, Keyed.lookup step fields = some (.map inner) → Direct inner rest := by
  cases rest with
  | nil => exact absurd rfl nonempty
  | cons next more => exact Iff.rfl

theorem find_of_direct (direct : Direct fields path) : find maps fields path = Path.get? fields path := by
  induction path generalizing fields with
  | nil => rfl
  | cons step rest ih =>
    by_cases last : rest = []
    · subst last
      rfl
    · obtain ⟨noLink, below⟩ := (direct_cons last).mp direct
      rw [find_cons last, Path.get?_cons last]
      cases found : Keyed.lookup step fields with
      | none => rfl
      | some value =>
        cases value with
        | leaf value => rfl
        | map inner => exact ih (below inner found)
        | link token => exact absurd found (noLink token)

/-- A path ends in the item itself, or in the map of the last link on its way. -/
theorem home_cases {token? token?' : Option String} {walked ending : Path}
    (ends : home maps token? walked fields path = (token?', ending)) :
    (token?' = token? ∧ ending = walked ++ path ∧ Direct fields path) ∨
    ∃ token before, token?' = some token ∧ path = before ++ ending ∧ ending ≠ [] ∧
      find maps fields before = some (.link token) ∧
      Direct ((Keyed.lookup token maps).getD []) ending := by
  induction path generalizing token? walked fields with
  | nil =>
    rw [home] at ends
    cases ends
    exact .inl ⟨rfl, (List.append_nil _).symm, trivial⟩
  | cons step rest ih =>
    unfold home at ends
    split at ends
    · rename_i next more inner found
      rcases ih ends with ⟨same, whole, direct⟩ | ⟨token, before, isSome, split, filled, there, direct⟩
      · refine .inl ⟨same, ?_, (direct_cons (List.cons_ne_nil _ _)).mpr ⟨?_, ?_⟩⟩
        · rw [whole, List.append_assoc, List.singleton_append]
        · intro token other
          cases found.symm.trans other
        · intro other here
          cases found.symm.trans here
          exact direct
      · refine .inr ⟨token, step :: before, isSome, by rw [split, List.cons_append], filled, ?_, direct⟩
        rw [find_cons (ne_nil_of_find there), found]
        exact there
    · rename_i next more token found
      rcases ih ends with ⟨same, whole, direct⟩ | ⟨other, before, isSome, split, filled, there, direct⟩
      · rw [List.nil_append] at whole
        rw [whole]
        exact .inr ⟨token, [step], same, rfl, List.cons_ne_nil _ _, found, direct⟩
      · refine .inr ⟨other, step :: before, isSome, by rw [split, List.cons_append], filled, ?_, direct⟩
        rw [find_cons (ne_nil_of_find there), found]
        exact there
    · rename_i others _ _ noMap noLink
      cases ends
      refine .inl ⟨rfl, rfl, ?_⟩
      cases others with
      | nil => trivial
      | cons next more =>
        refine ⟨fun token there => noLink next more token rfl there, fun inner there => ?_⟩
        exact (noMap next more inner rfl there).elim

/-- What is found depends on the attribute that the path starts with. -/
theorem find_congr {others : Fields Shared} (same : Keyed.lookup step fields = Keyed.lookup step others) :
    find maps fields (step :: rest) = find maps others (step :: rest) := by
  cases rest with
  | nil => exact same
  | cons next more => simp only [find, same]

/-- What a draft has at a path is what is found there through its links. -/
theorem get?_eq_find (d : Draft) (path : Path) : d.get? path = find d.maps d.item path := by
  rw [get?]
  cases ends : home d.maps none [] d.item path with
  | mk token? ending =>
    rcases home_cases ends with ⟨rfl, whole, direct⟩ | ⟨token, before, rfl, rfl, filled, there, direct⟩
    · rw [List.nil_append] at whole
      rw [whole]
      exact (find_of_direct direct).symm
    · rw [find_append there filled]
      exact (find_of_direct direct).symm

/-- The link of a placeholder is found in a record. -/
def LeadsTo (maps : Fields (Fields Shared)) (fields : Fields Shared) (token : String) : Prop :=
  ∃ path, find maps fields path = some (.link token)

variable {name token : String} {value : Shared}

theorem LeadsTo.tail (missing : Keyed.lookup name fields = none) (leads : LeadsTo maps fields token) :
    LeadsTo maps ((name, value) :: fields) token := by
  obtain ⟨path, found⟩ := leads
  refine ⟨path, ?_⟩
  cases path with
  | nil => cases found
  | cons step rest =>
    have distinct : name ≠ step := by
      rintro rfl
      obtain ⟨there, here⟩ := exists_lookup_of_find found
      cases missing.symm.trans here
    rw [← found]
    refine find_congr ?_
    rw [Keyed.lookup, if_neg distinct]

theorem leadsTo_head : LeadsTo maps ((name, .link token) :: fields) token :=
  ⟨[name], by rw [find, Keyed.lookup, if_pos rfl]⟩

theorem LeadsTo.head {inner : Fields Shared} (entered : opened maps value = some inner)
    (leads : LeadsTo maps inner token) : LeadsTo maps ((name, value) :: fields) token := by
  obtain ⟨path, found⟩ := leads
  refine ⟨name :: path, ?_⟩
  rw [find_cons (ne_nil_of_find found), Keyed.lookup, if_pos rfl, Option.bind_some, entered]
  exact found

end Draft

/-! ## Arranged values -/

namespace AttributeValue

/-- A value whose maps have their fields in the order of their names, at every depth that paths lead to. -/
inductive Arranged : AttributeValue → Prop where
  | leaf {value : AttributeValue} (noMap : value.fields? = none) : Arranged value
  | map {fields : List (String × AttributeValue)} (ascending : Keyed.Ascending fields)
      (each : ∀ entry ∈ fields, Arranged entry.2) : Arranged (.m fields)

namespace Arranged

variable {fields rest : List (String × AttributeValue)} {name : String} {value : AttributeValue}

theorem m_iff :
    Arranged (.m fields) ↔ Keyed.Ascending fields ∧ ∀ entry ∈ fields, Arranged entry.2 := by
  constructor
  · intro arranged
    cases arranged with
    | leaf noMap => cases noMap
    | map ascending each => exact ⟨ascending, each⟩
  · rintro ⟨ascending, each⟩
    exact .map ascending each

theorem cons_iff : Arranged (.m ((name, value) :: rest)) ↔
    (∀ other ∈ Keyed.keys rest, name < other) ∧ Arranged value ∧ Arranged (.m rest) := by
  rw [m_iff, m_iff, Keyed.Ascending, List.pairwise_cons, List.forall_mem_cons, Keyed.keys, List.forall_mem_map]
  exact and_assoc.trans (and_congr_right' and_left_comm)

theorem singleton (name : String) (here : Arranged value) : Arranged (.m [(name, value)]) :=
  .map (List.pairwise_singleton _ _) (List.forall_mem_singleton.mpr here)

theorem lookup (arranged : Arranged (.m fields)) (found : Keyed.lookup name fields = some value) :
    Arranged value :=
  (m_iff.mp arranged).2 _ (Keyed.mem_of_lookup found)

theorem insert (arranged : Arranged (.m fields)) (name : String) (here : Arranged value) :
    Arranged (.m (Keyed.insert name value fields)) := by
  obtain ⟨ascending, each⟩ := m_iff.mp arranged
  refine .map (ascending.insert name value) fun entry member => ?_
  rcases Keyed.mem_insert member with rfl | there
  · exact here
  · exact each entry there

theorem erase (arranged : Arranged (.m fields)) (name : String) :
    Arranged (.m (Keyed.erase name fields)) := by
  obtain ⟨ascending, each⟩ := m_iff.mp arranged
  exact .map (ascending.erase name) fun entry member =>
    each entry ((Keyed.erase_sublist name fields).subset member)

end Arranged

end AttributeValue

/-- A value at a path is smaller than the map that it is found in. -/
theorem Path.sizeOf_lt_of_get? {fields : Item} {path : Path} {value : AttributeValue}
    (found : Path.get? fields path = some value) : sizeOf value < sizeOf (AttributeValue.m fields) := by
  have entry : ∀ {fields : Item} {step : String} {value : AttributeValue},
      Keyed.lookup step fields = some value → sizeOf value < sizeOf (AttributeValue.m fields) := by
    intro fields step value here
    have member := List.sizeOf_lt_of_mem (Keyed.mem_of_lookup here)
    have pair : sizeOf (step, value) = 1 + sizeOf step + sizeOf value := rfl
    rw [AttributeValue.m.sizeOf_spec]
    omega
  induction path generalizing fields with
  | nil => cases found
  | cons step rest ih =>
    by_cases last : rest = []
    · subst last
      exact entry found
    · obtain ⟨below, here, there⟩ := exists_m_of_get?_cons last found
      exact (ih there).trans (entry here)

/-! ## Trees -/

/-- A record of a draft stands for a record of plain values: with the same names in the same order, a value
that is no map for itself, a map for a map of what its fields stand for, and a link for the map of its
placeholder. -/
inductive Reveals (maps : Fields (Fields Shared)) : Fields Shared → Item → Prop where
  | nil : Reveals maps [] []
  | leaf {name : String} {value : AttributeValue} {rest : Fields Shared} {plain : Item}
      (noMap : value.fields? = none) (others : Reveals maps rest plain) :
      Reveals maps ((name, .leaf value) :: rest) ((name, value) :: plain)
  | map {name : String} {inner rest : Fields Shared} {below plain : Item}
      (inside : Reveals maps inner below) (others : Reveals maps rest plain) :
      Reveals maps ((name, .map inner) :: rest) ((name, .m below) :: plain)
  | link {name token : String} {inner rest : Fields Shared} {below plain : Item}
      (bound : Keyed.lookup token maps = some inner) (inside : Reveals maps inner below)
      (others : Reveals maps rest plain) :
      Reveals maps ((name, .link token) :: rest) ((name, .m below) :: plain)

/-- A value of a draft stands for a plain value. -/
def Shared.Unfolds (maps : Fields (Fields Shared)) : Shared → AttributeValue → Prop
  | .leaf value, plain => plain = value ∧ value.fields? = none
  | .map inner, plain => ∃ below, plain = .m below ∧ Reveals maps inner below
  | .link token, plain =>
    ∃ inner below, Keyed.lookup token maps = some inner ∧ plain = .m below ∧ Reveals maps inner below

namespace Reveals

open Shared Draft

variable {maps : Fields (Fields Shared)} {fields : Fields Shared} {plain : Item}

theorem matches_iff : Reveals maps fields plain ↔ Keyed.Matches (Unfolds maps) fields plain := by
  constructor
  · intro reveals
    induction reveals with
    | nil => exact .nil
    | leaf noMap _ ih => exact .cons ⟨rfl, rfl, noMap⟩ ih
    | map inside _ _ ih => exact .cons ⟨rfl, _, rfl, inside⟩ ih
    | link bound inside _ _ ih => exact .cons ⟨rfl, _, _, bound, rfl, inside⟩ ih
  · intro matching
    induction matching with
    | nil => exact .nil
    | @cons entry other _ _ same _ ih =>
      obtain ⟨name, value⟩ := entry
      obtain ⟨name', value'⟩ := other
      obtain ⟨names, unfolds⟩ := same
      have sameName : name = name' := names
      subst sameName
      cases value with
      | leaf value =>
        obtain ⟨rfl, noMap⟩ := unfolds
        exact .leaf noMap ih
      | map inner =>
        obtain ⟨below, rfl, inside⟩ := unfolds
        exact .map inside ih
      | link token =>
        obtain ⟨inner, below, bound, rfl, inside⟩ := unfolds
        exact .link bound inside ih

theorem singleton_iff {name : String} {shared : Shared} {value : AttributeValue} :
    Reveals maps [(name, shared)] [(name, value)] ↔ shared.Unfolds maps value := by
  rw [matches_iff]
  exact ⟨fun matching => (List.forall₂_cons.mp matching).1.2, fun unfolds => .cons ⟨rfl, unfolds⟩ .nil⟩

theorem keys_eq (reveals : Reveals maps fields plain) : Keyed.keys fields = Keyed.keys plain :=
  (matches_iff.mp reveals).keys_eq

/-- A record stands for one record. -/
theorem unique (reveals : Reveals maps fields plain) {other : Item} (again : Reveals maps fields other) :
    other = plain := by
  induction reveals generalizing other with
  | nil =>
    cases again
    rfl
  | leaf _ _ ih =>
    cases again with
    | leaf _ others => rw [ih others]
  | map _ _ ihInside ih =>
    cases again with
    | map inside others => rw [ihInside inside, ih others]
  | link bound _ _ ihInside ih =>
    cases again with
    | link bound' inside others =>
      cases bound.symm.trans bound'
      rw [ihInside inside, ih others]

theorem lookup_of_some (reveals : Reveals maps fields plain) {name : String} {shared : Shared}
    (found : Keyed.lookup name fields = some shared) :
    ∃ value, Keyed.lookup name plain = some value ∧ shared.Unfolds maps value := by
  rcases (matches_iff.mp reveals).lookup name with ⟨missing, _⟩ | ⟨_, value, found', there, unfolds⟩
  · cases found.symm.trans missing
  · cases found.symm.trans found'
    exact ⟨value, there, unfolds⟩

theorem lookup_of_none (reveals : Reveals maps fields plain) {name : String}
    (missing : Keyed.lookup name fields = none) : Keyed.lookup name plain = none := by
  rcases (matches_iff.mp reveals).lookup name with ⟨_, missing'⟩ | ⟨_, _, found, _⟩
  · exact missing'
  · cases missing.symm.trans found

/-- What is found through links is what is found in the tree. -/
theorem find (reveals : Reveals maps fields plain) (path : Path) :
    (Draft.find maps fields path = none ∧ Path.get? plain path = none) ∨
    ∃ shared value, Draft.find maps fields path = some shared ∧ Path.get? plain path = some value ∧
      Unfolds maps shared value := by
  induction path generalizing fields plain with
  | nil => exact .inl ⟨rfl, rfl⟩
  | cons step rest ih =>
    have here := (matches_iff.mp reveals).lookup step
    by_cases last : rest = []
    · subst last
      exact here
    · rw [find_cons last, Path.get?_cons last]
      rcases here with ⟨missing, missing'⟩ | ⟨shared, value, found, found', unfolds⟩
      · rw [missing, missing']
        exact .inl ⟨rfl, rfl⟩
      · rw [found, found']
        cases shared with
        | leaf value =>
          obtain ⟨rfl, noMap⟩ := unfolds
          have closed : Nested.fields? value = none := noMap
          rw [Option.bind_some, Option.bind_some, closed]
          exact .inl ⟨rfl, rfl⟩
        | map inner =>
          obtain ⟨below, rfl, inside⟩ := unfolds
          exact ih inside
        | link token =>
          obtain ⟨inner, below, bound, rfl, inside⟩ := unfolds
          rw [Option.bind_some, opened, bound]
          exact ih inside

/-- Where a link is found, the tree has what the map of its placeholder stands for. -/
theorem bound (reveals : Reveals maps fields plain) {path : Path} {token : String}
    (found : Draft.find maps fields path = some (.link token)) :
    ∃ inner below, Keyed.lookup token maps = some inner ∧ Reveals maps inner below ∧
      Path.get? plain path = some (.m below) := by
  rcases reveals.find path with ⟨missing, _⟩ | ⟨_, value, found', there, unfolds⟩
  · cases found.symm.trans missing
  · cases found.symm.trans found'
    obtain ⟨inner, below, bound, rfl, inside⟩ := unfolds
    exact ⟨inner, below, bound, inside, there⟩

/-- A record without links stands for the record that it was made of. -/
theorem ofFields (maps : Fields (Fields Shared)) : ∀ plain : Item, Reveals maps (Shared.ofFields plain) plain
  | [] => .nil
  | (_, .m below) :: rest => .map (ofFields maps below) (ofFields maps rest)
  | (_, .s _) :: rest | (_, .raw _) :: rest | (_, .n _) :: rest | (_, .b _) :: rest | (_, .bool _) :: rest
  | (_, .null _) :: rest | (_, .l _) :: rest | (_, .ss _) :: rest | (_, .ns _) :: rest | (_, .bs _) :: rest
  | (_, .unset) :: rest | (_, .unknown) :: rest => .leaf rfl (ofFields maps rest)

theorem ascending (reveals : Reveals maps fields plain) (arranged : AttributeValue.Arranged (.m plain)) :
    Keyed.Ascending fields :=
  (matches_iff.mp reveals).ascending (AttributeValue.Arranged.m_iff.mp arranged).1

/-- Under more maps a record stands for the same. -/
theorem mono {more : Fields (Fields Shared)} (reveals : Reveals maps fields plain)
    (kept : ∀ {token inner}, Keyed.lookup token maps = some inner → Keyed.lookup token more = some inner) :
    Reveals more fields plain := by
  induction reveals with
  | nil => exact .nil
  | leaf noMap _ ih => exact .leaf noMap ih
  | map _ _ ihInside ih => exact .map ihInside ih
  | link bound _ _ ihInside ih => exact .link (kept bound) ihInside ih

/-- Under more maps the same is found. -/
theorem find_mono {more : Fields (Fields Shared)} (reveals : Reveals maps fields plain)
    (kept : ∀ {token inner}, Keyed.lookup token maps = some inner → Keyed.lookup token more = some inner)
    (path : Path) : Draft.find more fields path = Draft.find maps fields path := by
  induction path generalizing fields plain with
  | nil => rfl
  | cons step rest ih =>
    by_cases last : rest = []
    · subst last
      rfl
    · rw [find_cons last, find_cons last]
      cases found : Keyed.lookup step fields with
      | none => rfl
      | some shared =>
        obtain ⟨_, _, unfolds⟩ := reveals.lookup_of_some found
        cases shared with
        | leaf value => rfl
        | map inner =>
          obtain ⟨below, _, inside⟩ := unfolds
          exact ih inside
        | link token =>
          obtain ⟨inner, below, bound, _, inside⟩ := unfolds
          rw [Option.bind_some, Option.bind_some, opened, opened, bound, kept bound]
          exact ih inside

theorem lookup_eq_none (reveals : Reveals maps fields plain) {name : String}
    (above : ∀ other ∈ Keyed.keys plain, name < other) : Keyed.lookup name fields = none := by
  refine Keyed.lookup_eq_none fun entry member same => lt_irrefl name (above name ?_)
  rw [← reveals.keys_eq]
  exact List.mem_map.mpr ⟨entry, member, same⟩

/-- A record stands for the same under other maps that agree on those that it leads to. -/
theorem transfer {others : Fields (Fields Shared)} (reveals : Reveals maps fields plain)
    (arranged : AttributeValue.Arranged (.m plain))
    (agree : ∀ token, LeadsTo maps fields token → Keyed.lookup token others = Keyed.lookup token maps) :
    Reveals others fields plain := by
  induction reveals with
  | nil => exact .nil
  | leaf noMap rest ih =>
    obtain ⟨above, _, arrangedRest⟩ := AttributeValue.Arranged.cons_iff.mp arranged
    exact .leaf noMap (ih arrangedRest fun token leads => agree token (leads.tail (rest.lookup_eq_none above)))
  | map _ rest ihInside ih =>
    obtain ⟨above, arrangedHere, arrangedRest⟩ := AttributeValue.Arranged.cons_iff.mp arranged
    exact .map (ihInside arrangedHere fun token leads => agree token (leads.head rfl))
      (ih arrangedRest fun token leads => agree token (leads.tail (rest.lookup_eq_none above)))
  | @link _ here inner _ _ _ bound _ rest ihInside ih =>
    obtain ⟨above, arrangedHere, arrangedRest⟩ := AttributeValue.Arranged.cons_iff.mp arranged
    have entered : opened maps (.link here) = some inner := by rw [opened, bound, Option.getD_some]
    exact .link ((agree here leadsTo_head).trans bound)
      (ihInside arrangedHere fun token leads => agree token (leads.head entered))
      (ih arrangedRest fun token leads => agree token (leads.tail (rest.lookup_eq_none above)))

/-- The map of a placeholder does not lead to itself: it would be smaller than it is. -/
theorem not_leadsTo_self (reveals : Reveals maps fields plain) {token : String}
    (bound : Keyed.lookup token maps = some fields) : ¬LeadsTo maps fields token := by
  rintro ⟨path, found⟩
  rcases reveals.find path with ⟨missing, _⟩ | ⟨_, value, found', there, unfolds⟩
  · cases found.symm.trans missing
  · cases found.symm.trans found'
    obtain ⟨inner, below, bound', rfl, inside⟩ := unfolds
    cases bound.symm.trans bound'
    cases reveals.unique inside
    exact lt_irrefl _ (Path.sizeOf_lt_of_get? there)

/-- Below a link the same link is not found again. -/
theorem find_below_link_ne (reveals : Reveals maps fields plain) {token : String} {path rest : Path}
    (found : Draft.find maps fields path = some (.link token)) (nonempty : rest ≠ []) :
    Draft.find maps fields (path ++ rest) ≠ some (.link token) := by
  obtain ⟨inner, below, bound, inside, _⟩ := reveals.bound found
  intro again
  rw [find_append found nonempty, opened, bound] at again
  exact inside.not_leadsTo_self bound ⟨rest, again⟩

/-- A link does not stand above another place of its own. -/
theorem apart_of_links (reveals : Reveals maps fields plain) {token : String} {p q : Path} (distinct : p ≠ q)
    (atP : Draft.find maps fields p = some (.link token))
    (atQ : Draft.find maps fields q = some (.link token)) :
    Path.Apart p q := by
  constructor
  · rintro ⟨rest, rfl⟩
    refine reveals.find_below_link_ne atP (fun empty => distinct ?_) atQ
    rw [empty, List.append_nil]
  · rintro ⟨rest, rfl⟩
    refine reveals.find_below_link_ne atQ (fun empty => distinct ?_) atP
    rw [empty, List.append_nil]

/-- A record is revealed as what it stands for with as many links into each other as there are placeholders
that it leads to. -/
theorem revealFields_linked (reveals : Reveals maps fields plain)
    (arranged : AttributeValue.Arranged (.m plain)) {t : Finset String} {depth : Nat}
    (within : ∀ token, LeadsTo maps fields token → token ∈ t) (enough : t.card ≤ depth) :
    revealFields (linked maps depth) fields = plain := by
  induction reveals generalizing t depth with
  | nil => rfl
  | leaf noMap rest ih =>
    obtain ⟨above, _, arrangedRest⟩ := AttributeValue.Arranged.cons_iff.mp arranged
    rw [revealFields, reveal, ih arrangedRest (fun token leads =>
      within token (leads.tail (rest.lookup_eq_none above))) enough]
  | map _ rest ihInside ih =>
    obtain ⟨above, arrangedHere, arrangedRest⟩ := AttributeValue.Arranged.cons_iff.mp arranged
    rw [revealFields, reveal, ihInside arrangedHere (fun token leads => within token (leads.head rfl)) enough,
      ih arrangedRest (fun token leads => within token (leads.tail (rest.lookup_eq_none above))) enough]
  | @link _ here inner _ _ _ bound inside rest ihInside ih =>
    obtain ⟨above, arrangedHere, arrangedRest⟩ := AttributeValue.Arranged.cons_iff.mp arranged
    have entered : opened maps (.link here) = some inner := by rw [opened, bound, Option.getD_some]
    have self : here ∈ t := within here leadsTo_head
    obtain ⟨less, rfl⟩ : ∃ less, depth = less + 1 :=
      Nat.exists_eq_succ_of_ne_zero (Finset.card_pos.mpr ⟨here, self⟩ |>.trans_le enough).ne'
    -- inside its map the placeholder is not met again, so one less is enough
    have others : ∀ token, LeadsTo maps inner token → token ∈ t.erase here := by
      intro token leads
      refine Finset.mem_erase.mpr ⟨?_, within token (leads.head entered)⟩
      rintro rfl
      exact inside.not_leadsTo_self bound leads
    have fewer : (t.erase here).card ≤ less := by
      rw [Finset.card_erase_of_mem self]
      omega
    rw [revealFields, reveal, linked, bound, Option.getD_some, ihInside arrangedHere others fewer,
      ih arrangedRest (fun token leads => within token (leads.tail (rest.lookup_eq_none above))) enough]

theorem revealFields_all (reveals : Reveals maps fields plain)
    (arranged : AttributeValue.Arranged (.m plain)) :
    revealFields (linked maps maps.length) fields = plain := by
  refine reveals.revealFields_linked (t := (Keyed.keys maps).toFinset) arranged ?_ ?_
  · rintro token ⟨path, found⟩
    obtain ⟨inner, _, here, _⟩ := reveals.bound found
    exact List.mem_toFinset.mpr (List.mem_map.mpr ⟨_, Keyed.mem_of_lookup here, rfl⟩)
  · calc (Keyed.keys maps).toFinset.card ≤ (Keyed.keys maps).length := List.toFinset_card_le _
      _ = maps.length := List.length_map _

end Reveals

/-- A value stands for one value. -/
theorem Shared.Unfolds.unique {maps : Fields (Fields Shared)} {shared : Shared} {value other : AttributeValue}
    (unfolds : shared.Unfolds maps value) (again : shared.Unfolds maps other) : other = value := by
  cases shared with
  | leaf there => exact again.1.trans unfolds.1.symm
  | map inner =>
    obtain ⟨below, rfl, inside⟩ := unfolds
    obtain ⟨_, rfl, inside'⟩ := again
    rw [inside.unique inside']
  | link token =>
    obtain ⟨_, below, bound, rfl, inside⟩ := unfolds
    obtain ⟨_, _, bound', rfl, inside'⟩ := again
    cases bound.symm.trans bound'
    rw [inside.unique inside']

/-- A value stands for the same under other maps that agree on those that it leads to. -/
theorem Shared.Unfolds.transfer {maps others : Fields (Fields Shared)} {shared : Shared}
    {value : AttributeValue} (unfolds : shared.Unfolds maps value) (arranged : value.Arranged)
    (agree : ∀ path token, Draft.follow maps shared path = some (.link token) →
      Keyed.lookup token others = Keyed.lookup token maps) : shared.Unfolds others value := by
  have agreeSingle : ∀ token, Draft.LeadsTo maps [("", shared)] token →
      Keyed.lookup token others = Keyed.lookup token maps := by
    rintro token ⟨path, found⟩
    obtain ⟨step, rest, rfl⟩ := List.exists_cons_of_ne_nil (Draft.ne_nil_of_find found)
    obtain ⟨there, here⟩ := Draft.exists_lookup_of_find found
    have same : "" = step :=
      Decidable.byContradiction fun distinct => (nomatch here.symm.trans (if_neg distinct))
    subst same
    exact agree rest token found
  exact Reveals.singleton_iff.mp
    ((Reveals.singleton_iff.mpr unfolds).transfer (.singleton "" arranged) agreeSingle)

end DocTable
