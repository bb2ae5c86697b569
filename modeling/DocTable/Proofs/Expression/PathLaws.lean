import DocTable.Proofs.Expression.PathEdits

/-!
# Laws of reading, writing and taking away at paths

Paths are places in a tree of maps, and the three operations on them agree about what a place is: what was put
is found, what was found and is put again changes nothing, a second value replaces the first one, and neither
writing nor taking away is seen at a place apart.  This makes a path a lens, though a partial one, since a value
cannot be put where something else than a map stands on the way.  It is the only thing that can stand in the way,
and the error names the attribute (`Path.set_eq_error_iff`).

The maps of an item have their fields in order (`AttributeValue.Arranged`).  Without it a field might stand in a
map twice, and putting it again or taking it away would tell.
-/

namespace DocTable

set_option autoImplicit false

namespace Path

variable {α : Type} [Nested α] {fields after : List (String × α)} {value : α} {p : Path}

/-! ## Putting twice -/

/-- The second of two values put at a path replaces the first one. -/
theorem set_set [LawfulNested α] (done : set fields value p = .ok after) (other : α) :
    set after other p = set fields other p := by
  induction p generalizing fields after with
  | nil =>
    cases done
    rfl
  | cons step rest ih =>
    by_cases last : rest = []
    · subst last
      cases done
      exact congrArg Except.ok (Keyed.insert_insert step value other fields)
    · rw [set_eq_bind last] at done
      obtain ⟨below, entered, done⟩ := Outcome.ok_of_bind done
      obtain ⟨inner, placed, returned⟩ := Outcome.ok_of_bind done
      cases returned
      have again : enter (Keyed.insert step (Nested.ofFields inner) fields) step = .ok inner :=
        enter_eq_ok_iff.mpr (.inr ⟨_, Keyed.lookup_insert_self _ _ _, LawfulNested.fields?_ofFields inner⟩)
      rw [set_eq_bind last, set_eq_bind last, entered, again]
      change set inner other rest >>= _ = set below other rest >>= _
      simp only [ih placed, Keyed.insert_insert]

end Path

/-! ## What is there already, and what is not -/

namespace AttributeValue.Arranged

variable {item : Item} {value : AttributeValue} {path : Path}

/-- Putting at a path the value that is there changes nothing. -/
theorem set_of_get? (arranged : Arranged (.m item)) (found : Path.get? item path = some value) :
    Path.set item value path = .ok item := by
  induction path generalizing item with
  | nil => cases found
  | cons step rest ih =>
    have ascending := (m_iff.mp arranged).1
    cases rest with
    | nil => exact congrArg Except.ok (ascending.insert_of_lookup found)
    | cons next more =>
      obtain ⟨below, here, there⟩ := Path.exists_m_of_get?_cons (List.cons_ne_nil _ _) found
      have inside : (PathEdit.put value).run below (next :: more) = .ok below := ih (arranged.lookup here) there
      exact (PathEdit.run_cons (List.cons_ne_nil _ _) here rfl inside).trans
        (congrArg Except.ok (ascending.insert_of_lookup here))

/-- Taking away what is not there changes nothing. -/
theorem remove_of_missing (arranged : Arranged (.m item)) (missing : Path.get? item path = none) :
    Path.remove item path = item := by
  induction path generalizing item with
  | nil => rfl
  | cons step rest ih =>
    by_cases last : rest = []
    · subst last
      exact Keyed.erase_of_lookup missing
    · rw [Path.get?_cons last] at missing
      cases through : (Keyed.lookup step item).bind Nested.fields? with
      | none => exact Path.remove_of_no_map last through
      | some below =>
        rw [through, Option.bind_some] at missing
        have here := Path.lookup_of_fields? through
        rw [Except.ok.inj (PathEdit.run_cons (e := .take) last here rfl rfl), ih (arranged.lookup here) missing]
        exact (m_iff.mp arranged).1.insert_of_lookup here

end AttributeValue.Arranged

/-! ## The laws -/

/-- **Paths obey the laws of a partial lens.**  In an item whose maps have their fields in order, a value can be put
at a path unless something else than a map stands on the way.  It is then found there, nothing is changed at a path
apart, and a second value put there replaces it.  What is taken away is not found any more, again nothing is changed
at a path apart, and nothing at all if there was nothing to take away.  Putting what is there already succeeds and
changes nothing. -/
theorem Path.lens_laws {item : Item} (arranged : AttributeValue.Arranged (.m item)) {p : Path} (nonempty : p ≠ [])
    (value : AttributeValue) :
    ((∃ step, Path.set item value p = .error step) ↔
      ∃ q there, q ≠ [] ∧ q <+: p ∧ q ≠ p ∧ Path.get? item q = some there ∧ there.fields? = none) ∧
    (∀ after, Path.set item value p = .ok after →
      Path.get? after p = some value ∧ (∀ q, p.Apart q → Path.get? after q = Path.get? item q) ∧
        ∀ other, Path.set after other p = Path.set item other p) ∧
    (Path.get? (Path.remove item p) p = none ∧
      (∀ q, p.Apart q → Path.get? (Path.remove item p) q = Path.get? item q) ∧
      (Path.get? item p = none → Path.remove item p = item)) ∧
    (Path.get? item p = some value → Path.set item value p = .ok item) := by
  refine ⟨⟨?_, ?_⟩, fun after done => ⟨?_, fun q apart => ?_, Path.set_set done⟩,
    ⟨Path.get?_remove_self arranged, fun q apart => ?_, arranged.remove_of_missing⟩, arranged.set_of_get?⟩
  · rintro ⟨step, failed⟩
    obtain ⟨q, tail, there, rfl, proper, found, noMap⟩ := Path.set_eq_error_iff.mp failed
    exact ⟨q ++ [step], there, by simp, List.prefix_append _ _, by simpa using proper, found, noMap⟩
  · rintro ⟨q, there, filled, ⟨tail, rfl⟩, proper, found, noMap⟩
    obtain ⟨before, step, rfl⟩ := (List.eq_nil_or_concat' q).resolve_left filled
    have below : tail ≠ [] := by
      rintro rfl
      exact proper (List.append_nil _).symm
    exact ⟨step, Path.set_eq_error_iff.mpr ⟨before, tail, there, rfl, below, found, noMap⟩⟩
  · exact Path.get?_set_self nonempty done
  · exact Path.get?_set_of_apart apart done
  · exact Path.get?_remove_of_apart apart

namespace Addresses

/-- A person with an address. -/
def person : Item := [("name", .s "Ada"), ("place", .m [("city", .s "Bern"), ("road", .m [])])]

theorem arranged_person : AttributeValue.Arranged (.m person) := by
  have road : AttributeValue.Arranged (.m []) := .map List.Pairwise.nil (List.forall_mem_nil _)
  have place : AttributeValue.Arranged (.m [("city", .s "Bern"), ("road", .m [])]) :=
    AttributeValue.Arranged.cons_iff.mpr ⟨by decide, .leaf rfl, .singleton _ road⟩
  exact AttributeValue.Arranged.cons_iff.mpr ⟨by decide, .leaf rfl, .singleton _ place⟩

end Addresses

open Addresses in
/-- A house is put into the empty map of a road, and a short form cannot be put below a name. -/
theorem Path.lens_laws_of_person :
    (∃ step, Path.set person (.s "A.") ["name", "short"] = .error step) ∧
    ∃ after, Path.set person (.n "3") ["place", "road", "house"] = .ok after ∧
      Path.get? after ["place", "road", "house"] = some (.n "3") ∧
      Path.get? after ["place", "city"] = some (.s "Bern") ∧
      Path.set after (.n "4") ["place", "road", "house"] = Path.set person (.n "4") ["place", "road", "house"] ∧
      Path.remove person ["place", "road", "house"] = person := by
  obtain ⟨blocked, -⟩ := Path.lens_laws arranged_person (p := ["name", "short"]) (by decide) (.s "A.")
  obtain ⟨-, put, ⟨-, -, missing⟩, -⟩ :=
    Path.lens_laws arranged_person (p := ["place", "road", "house"]) (by decide) (.n "3")
  obtain ⟨found, apart, again⟩ := put _ rfl
  refine ⟨blocked.mpr ⟨["name"], _, by decide, by simp, by decide, rfl, rfl⟩, _, rfl, found, ?_, again _,
    missing rfl⟩
  exact apart ["place", "city"] ⟨by simp, by simp⟩

end DocTable
