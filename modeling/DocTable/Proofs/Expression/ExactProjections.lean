import DocTable.Expression.Projection
import DocTable.Proofs.Expression.PathLaws
import DocTable.Proofs.Expression.Placeholders

/-!
# Exact projections

A projection shows the values at the paths that it names, with the maps around them, and nothing else
(`Projection.Shows`).  Copying the values one after the other keeps this for the paths copied so far
(`Projection.Shows.keep`): what stands in the way of a value is a map that was copied from the item, or a map
around an earlier value, so there is always room for it, and a value below one that was copied already is
there already.

What a projection shows is determined by the paths that it names (`Projection.Shows.unique`), so neither the
order of its tokens nor their repetition matters (`Item.project_exact`).
-/

namespace DocTable

set_option autoImplicit false

/-! ## Records by what is read in them -/

namespace AttributeValue.Arranged

variable {item other : Item} {value : AttributeValue}

theorem get? {path : Path} (arranged : Arranged (.m item)) (found : Path.get? item path = some value) :
    Arranged value := by
  induction path generalizing item with
  | nil => cases found
  | cons step rest ih =>
    by_cases last : rest = []
    · subst last
      exact arranged.lookup found
    · obtain ⟨below, here, there⟩ := Path.exists_m_of_get?_cons last found
      exact ih (arranged.lookup here) there

/-- Arranged records are equal if what is read at each path is the same, or a map in both. -/
theorem ext_of_get? (arranged : Arranged (.m item)) (arrangedOther : Arranged (.m other))
    (alike : ∀ q, Path.get? item q = Path.get? other q ∨
      ∃ inner inner', Path.get? item q = some (.m inner) ∧ Path.get? other q = some (.m inner')) :
    item = other := by
  -- the records below an attribute are smaller, and alike as well
  induction size : sizeOf (AttributeValue.m item) using Nat.strongRecOn generalizing item other with
  | ind bound ih =>
    refine (m_iff.mp arranged).1.ext (m_iff.mp arrangedOther).1 fun step => ?_
    rcases alike [step] with same | ⟨inner, inner', here, there⟩
    · exact same
    · have same : inner = inner' := by
        refine ih _ (size ▸ Path.sizeOf_lt_of_get? here) (arranged.lookup here) (arrangedOther.lookup there)
          (fun q => ?_) rfl
        by_cases last : q = []
        · subst last
          exact .inl rfl
        · have below := alike ([step] ++ q)
          rw [Path.get?_append (List.cons_ne_nil _ _) last, Path.get?_append (List.cons_ne_nil _ _) last, here,
            there] at below
          exact below
      exact here.trans ((congrArg (fun fields => some (AttributeValue.m fields)) same).trans there.symm)

end AttributeValue.Arranged

namespace Projection

/-! ## What a projection shows -/

section Shows

variable {named other : Path → Prop} {item out out' : Item} {p q : Path}

/-- A path is one of the named ones or leads through one of them. -/
def Covers (named : Path → Prop) (q : Path) : Prop := ∃ p, named p ∧ p <+: q

/-- A path leads towards a named one at which an item has a value. -/
def Encloses (named : Path → Prop) (item : Item) (q : Path) : Prop :=
  ∃ p value, named p ∧ q <+: p ∧ Path.get? item p = some value

/-- A record has exactly the values of an item at the named paths, and maps around them. -/
structure Shows (named : Path → Prop) (item out : Item) : Prop where
  arranged : AttributeValue.Arranged (.m out)
  inside : ∀ q, Covers named q → Path.get? out q = Path.get? item q
  around : ∀ q, q ≠ [] → ¬Covers named q → Encloses named item q → ∃ inner, Path.get? out q = some (.m inner)
  outside : ∀ q, ¬Covers named q → ¬Encloses named item q → Path.get? out q = none

namespace Shows

/-- What is shown is determined by the named paths. -/
theorem unique (shows : Shows named item out) (shows' : Shows named item out') : out = out' := by
  refine shows.arranged.ext_of_get? shows'.arranged fun q => ?_
  by_cases covered : Covers named q
  · exact .inl ((shows.inside q covered).trans (shows'.inside q covered).symm)
  · by_cases enclosing : q ≠ [] ∧ Encloses named item q
    · obtain ⟨inner, here⟩ := shows.around q enclosing.1 covered enclosing.2
      obtain ⟨inner', there⟩ := shows'.around q enclosing.1 covered enclosing.2
      exact .inr ⟨inner, inner', here, there⟩
    · by_cases nonempty : q = []
      · subst nonempty
        exact .inl rfl
      · have apart : ¬Encloses named item q := fun encloses => enclosing ⟨nonempty, encloses⟩
        exact .inl ((shows.outside q covered apart).trans (shows'.outside q covered apart).symm)

theorem congr (shows : Shows named item out) (same : ∀ p, named p ↔ other p) : Shows other item out := by
  have equal : named = other := funext fun p => propext (same p)
  exact equal ▸ shows

/-- No named paths show nothing. -/
theorem nothing (item : Item) : Shows (fun _ => False) item [] where
  arranged := .map List.Pairwise.nil fun _ member => (nomatch member)
  inside := by
    rintro q ⟨p, ⟨⟩, _⟩
  around := by
    rintro q _ _ ⟨p, value, ⟨⟩, _⟩
  outside := fun q _ _ => Path.get?_nil q

/-- All paths show all of the item. -/
theorem everything (arranged : AttributeValue.Arranged (.m item)) : Shows (fun _ => True) item item where
  arranged := arranged
  inside := fun _ _ => rfl
  around := fun q _ uncovered => absurd ⟨q, trivial, List.prefix_refl q⟩ uncovered
  outside := fun q uncovered => absurd ⟨q, trivial, List.prefix_refl q⟩ uncovered

/-! ### One more path -/

theorem covers_or : Covers (fun q => named q ∨ q = p) q ↔ Covers named q ∨ p <+: q := by
  constructor
  · rintro ⟨r, here | rfl, leads⟩
    · exact .inl ⟨r, here, leads⟩
    · exact .inr leads
  · rintro (⟨r, here, leads⟩ | leads)
    · exact ⟨r, .inl here, leads⟩
    · exact ⟨p, .inr rfl, leads⟩

theorem encloses_or : Encloses (fun q => named q ∨ q = p) item q ↔
    Encloses named item q ∨ q <+: p ∧ ∃ value, Path.get? item p = some value := by
  constructor
  · rintro ⟨r, value, here | rfl, leads, found⟩
    · exact .inl ⟨r, value, here, leads, found⟩
    · exact .inr ⟨leads, value, found⟩
  · rintro (⟨r, value, here, leads, found⟩ | ⟨leads, value, found⟩)
    · exact ⟨r, value, .inl here, leads, found⟩
    · exact ⟨p, value, .inr rfl, leads, found⟩

/-- A path at which the item has no value adds nothing. -/
theorem of_missing (shows : Shows named item out) (nonempty : p ≠ []) (missing : Path.get? item p = none) :
    Shows (fun q => named q ∨ q = p) item out := by
  have below : ∀ q, p <+: q → Path.get? item q = none := by
    intro q leads
    by_cases last : p = q
    · exact last ▸ missing
    · refine Option.eq_none_iff_forall_ne_some.mpr fun value found => ?_
      obtain ⟨there, _, here, _⟩ := Path.exists_map_above nonempty leads last found
      cases missing.symm.trans here
  -- nothing that encloses a value of the item is below the path
  have outside : ∀ q, p <+: q → ¬Covers named q → Path.get? out q = none := by
    intro q leads uncovered
    refine shows.outside q uncovered ?_
    rintro ⟨r, value, _, leads', found⟩
    cases (below r (leads.trans leads')).symm.trans found
  refine ⟨shows.arranged, fun q covered => ?_, fun q filled uncovered enclosing => ?_,
    fun q uncovered apart => ?_⟩
  · rcases covers_or.mp covered with earlier | leads
    · exact shows.inside q earlier
    · by_cases earlier : Covers named q
      · exact shows.inside q earlier
      · exact (outside q leads earlier).trans (below q leads).symm
  · rcases encloses_or.mp enclosing with earlier | ⟨_, value, found⟩
    · exact shows.around q filled (fun covered => uncovered (covers_or.mpr (.inl covered))) earlier
    · cases missing.symm.trans found
  · exact shows.outside q (fun covered => uncovered (covers_or.mpr (.inl covered)))
      fun enclosing => apart (encloses_or.mpr (.inl enclosing))

/-- A path below a named one adds nothing. -/
theorem of_covered (shows : Shows named item out) {value : AttributeValue} (covered : Covers named p)
    (found : Path.get? item p = some value) : Shows (fun q => named q ∨ q = p) item out := by
  have covers : ∀ q, Covers (fun q => named q ∨ q = p) q ↔ Covers named q := by
    intro q
    refine covers_or.trans ⟨?_, .inl⟩
    rintro (earlier | leads)
    · exact earlier
    · obtain ⟨r, here, leads'⟩ := covered
      exact ⟨r, here, leads'.trans leads⟩
  refine ⟨shows.arranged, fun q inside => shows.inside q ((covers q).mp inside),
    fun q filled uncovered enclosing => ?_, fun q uncovered apart => ?_⟩
  · have uncovered' : ¬Covers named q := fun inside => uncovered ((covers q).mpr inside)
    refine shows.around q filled uncovered' ?_
    rcases encloses_or.mp enclosing with earlier | ⟨leads, _⟩
    · exact earlier
    · -- the path is on the way to the named one, which is above the new one
      obtain ⟨r, here, leads'⟩ := covered
      have between : q <+: r :=
        (List.prefix_or_prefix_of_prefix leads leads').resolve_right fun inside => uncovered' ⟨r, here, inside⟩
      by_cases last : r = p
      · exact ⟨r, value, here, between, last ▸ found⟩
      · have nonempty : r ≠ [] := by
          rintro rfl
          exact uncovered' ⟨[], here, List.nil_prefix⟩
        obtain ⟨there, _, present, _⟩ := Path.exists_map_above nonempty leads' last found
        exact ⟨r, there, here, between, present⟩
  · exact shows.outside q (fun inside => uncovered ((covers q).mpr inside))
      fun enclosing => apart (encloses_or.mpr (.inl enclosing))

/-- There is room for a value that the item has: what stands above it is a map. -/
theorem clear (shows : Shows named item out) {value there : AttributeValue}
    (found : Path.get? item p = some value) (nonempty : q ≠ []) (above : q <+: p) (proper : q ≠ p)
    (here : Path.get? out q = some there) : ∃ inner, Nested.fields? there = some inner := by
  by_cases covered : Covers named q
  · obtain ⟨original, inner, present, isMap⟩ := Path.exists_map_above nonempty above proper found
    rw [shows.inside q covered, present] at here
    exact ⟨inner, Option.some.inj here ▸ isMap⟩
  · by_cases enclosing : Encloses named item q
    · obtain ⟨inner, present⟩ := shows.around q nonempty covered enclosing
      exact ⟨inner, Option.some.inj (present.symm.trans here) ▸ rfl⟩
    · cases (shows.outside q covered enclosing).symm.trans here

/-- A value that was put at a new path is shown there, with maps around it. -/
theorem of_put (shows : Shows named item out) (arranged : AttributeValue.Arranged (.m item))
    {value : AttributeValue} (uncovered : ¬Covers named p) (found : Path.get? item p = some value)
    (done : Path.set out value p = .ok out') : Shows (fun q => named q ∨ q = p) item out' := by
  have nonempty : p ≠ [] := by
    rintro rfl
    cases found
  have here : Path.get? out' p = some value := Path.get?_set_self nonempty done
  have below : ∀ q, p <+: q → Path.get? out' q = Path.get? item q := by
    rintro q ⟨rest, rfl⟩
    by_cases last : rest = []
    · subst last
      rw [List.append_nil, here, found]
    · rw [Path.get?_append nonempty last, Path.get?_append nonempty last, here, found]
  have above : ∀ q, q ≠ [] → q <+: p → ¬p <+: q → ∃ inner, Path.get? out' q = some (.m inner) :=
    fun q filled leads uncovered =>
      Path.get?_set_above filled leads (fun same => uncovered (same ▸ List.prefix_refl p)) done
  have apart : ∀ q, ¬p <+: q → ¬q <+: p → Path.get? out' q = Path.get? out q :=
    fun q notBelow notAbove => Path.get?_set_of_apart ⟨notBelow, notAbove⟩ done
  refine ⟨shows.arranged.set (arranged.get? found) done, fun q covered => ?_,
    fun q filled uncovered' enclosing => ?_, fun q uncovered' notEnclosing => ?_⟩
  · rcases Classical.em (p <+: q) with leads | notBelow
    · exact below q leads
    · have earlier := (covers_or.mp covered).resolve_right notBelow
      -- a path that is covered is not above the new one, which is not
      have notAbove : ¬q <+: p := by
        intro leads
        obtain ⟨r, named, leads'⟩ := earlier
        exact uncovered ⟨r, named, leads'.trans leads⟩
      exact (apart q notBelow notAbove).trans (shows.inside q earlier)
  · have notBelow : ¬p <+: q := fun leads => uncovered' (covers_or.mpr (.inr leads))
    by_cases leads : q <+: p
    · exact above q filled leads notBelow
    · rw [apart q notBelow leads]
      refine shows.around q filled (fun covered => uncovered' (covers_or.mpr (.inl covered))) ?_
      exact (encloses_or.mp enclosing).resolve_right fun ⟨leads', _⟩ => leads leads'
  · have notBelow : ¬p <+: q := fun leads => uncovered' (covers_or.mpr (.inr leads))
    have notAbove : ¬q <+: p := fun leads => notEnclosing (encloses_or.mpr (.inr ⟨leads, value, found⟩))
    rw [apart q notBelow notAbove]
    exact shows.outside q (fun covered => uncovered' (covers_or.mpr (.inl covered)))
      fun enclosing => notEnclosing (encloses_or.mpr (.inl enclosing))

/-- Copying the value at one more path shows that path as well. -/
theorem keep (shows : Shows named item out) (arranged : AttributeValue.Arranged (.m item)) (nonempty : p ≠ []) :
    ∃ after, Projection.keep item out p = .ok after ∧ Shows (fun q => named q ∨ q = p) item after := by
  cases found : Path.get? item p with
  | none => exact ⟨out, by rw [Projection.keep, found], shows.of_missing nonempty found⟩
  | some value =>
    by_cases covered : Covers named p
    · have same := shows.arranged.set_of_get? ((shows.inside p covered).trans found)
      exact ⟨out, by simp only [Projection.keep, found, same], shows.of_covered covered found⟩
    · obtain ⟨after, done⟩ : ∃ after, Path.set out value p = .ok after :=
        Path.exists_set fun q there filled above proper here =>
          shows.clear found filled above proper here
      exact ⟨after, by simp only [Projection.keep, found, done], shows.of_put arranged covered found done⟩

end Shows

end Shows

/-! ## The paths of a projection -/

/-- The tokens of a projection: what stands between its commas, without blanks at both ends.  A missing or
blank projection has none. -/
def tokens (text? : Option String) : List String := ((texts? text?).getD []).map Text.trim

/-- A projection names the paths that its tokens stand for; one without tokens names every path. -/
def Names (text? : Option String) (c : Context) (p : Path) : Prop :=
  tokens text? = [] ∨ ∃ token ∈ tokens text?, c.path token = .ok p

/-- Every token of a projection stands for a path. -/
def Resolves (text? : Option String) (c : Context) : Prop :=
  ∀ token ∈ tokens text?, ∃ p, c.path token = .ok p

variable {text? other? : Option String} {c : Context} {item out : Item}

theorem tokens_eq_nil_iff : tokens text? = [] ↔ texts? text? = none := by
  rw [tokens, List.map_eq_nil_iff]
  cases given : texts? text? with
  | none => simp
  | some texts =>
    have filled : texts ≠ [] := by
      cases text? with
      | none => cases given
      | some text =>
        rw [texts?] at given
        split at given
        · cases given
        · cases given
          exact Text.split_ne_nil ',' text
    simpa using filled

/-- Copying the values at the paths of texts shows those paths as well. -/
theorem Shows.keepAll {named : Path → Prop} {texts : List String} (shows : Shows named item out)
    (arranged : AttributeValue.Arranged (.m item))
    (resolves : ∀ text ∈ texts, ∃ p, c.path (Text.trim text) = .ok p) :
    ∃ after, Projection.keepAll c item out texts = .ok after ∧
      Shows (fun p => named p ∨ ∃ text ∈ texts, c.path (Text.trim text) = .ok p) item after := by
  induction texts generalizing named out with
  | nil => exact ⟨out, rfl, shows.congr fun p => by simp⟩
  | cons text rest ih =>
    obtain ⟨⟨path, read⟩, resolvesRest⟩ := List.forall_mem_cons.mp resolves
    obtain ⟨next, kept, showsNext⟩ := shows.keep arranged (Context.path_ne_nil read)
    obtain ⟨after, done, showsAfter⟩ := ih showsNext resolvesRest
    refine ⟨after, ?_, showsAfter.congr fun p => ?_⟩
    · rw [Projection.keepAll, read]
      exact (congrArg (· >>= fun out => Projection.keepAll c item out rest) kept).trans done
    · rw [List.exists_mem_cons_iff, read, or_assoc, Except.ok.injEq, eq_comm (a := path)]

/-- A projection whose tokens stand for paths succeeds and shows the paths that it names. -/
theorem exists_shows (arranged : AttributeValue.Arranged (.m item)) (resolves : Resolves text? c) :
    ∃ out, item.project text? c = .ok out ∧ Shows (Names text? c) item out := by
  cases given : texts? text? with
  | none =>
    have without : tokens text? = [] := tokens_eq_nil_iff.mpr given
    refine ⟨item, by rw [Item.project, given], (Shows.everything arranged).congr fun p => ?_⟩
    exact ⟨fun _ => .inl without, fun _ => trivial⟩
  | some texts =>
    have listed : tokens text? = texts.map Text.trim := by rw [tokens, given, Option.getD_some]
    have filled : tokens text? ≠ [] := by
      rw [Ne, tokens_eq_nil_iff, given]
      simp
    rw [Resolves, listed, List.forall_mem_map] at resolves
    obtain ⟨out, done, shows⟩ := (Shows.nothing item).keepAll arranged resolves
    refine ⟨out, by rw [Item.project, given]; exact done, shows.congr fun p => ?_⟩
    rw [Names, or_iff_right filled, false_or, listed]
    simp

/-- Projections with the same tokens name the same paths, and stand for paths alike. -/
theorem names_congr (same : ∀ token, token ∈ tokens other? ↔ token ∈ tokens text?) :
    (Resolves other? c ↔ Resolves text? c) ∧ ∀ p, Names other? c p ↔ Names text? c p := by
  have empty : tokens other? = [] ↔ tokens text? = [] := by
    simp [List.eq_nil_iff_forall_not_mem, same]
  simp [Resolves, Names, same, empty]

end Projection

/-- **Projections are exact.**  Let every token of a projection stand for a path, and let the maps of an item
have their fields in the order of their names, as maps have.  The projection succeeds.  At every path that is a
named one or leads through one, what it gives has the same as the item: the same value, or none.  At any other
path that leads towards a named one at which the item has a value, it has a map; and at all other paths it has
nothing.  A projection with the same tokens, in whatever order and however often, gives the same.

The item stays as it is although its maps are not copied: what is put at a path is what the item has there. -/
theorem Item.project_exact {item : Item} (arranged : AttributeValue.Arranged (.m item)) {c : Context}
    {text? : Option String} (resolves : ∀ token ∈ Projection.tokens text?, ∃ p, c.path token = .ok p) :
    ∃ out, item.project text? c = .ok out ∧
      (∀ q, (∃ p, Projection.Names text? c p ∧ p <+: q) → Path.get? out q = Path.get? item q) ∧
      (∀ q, q ≠ [] → (¬∃ p, Projection.Names text? c p ∧ p <+: q) →
        (∃ p value, Projection.Names text? c p ∧ q <+: p ∧ Path.get? item p = some value) →
        ∃ inner, Path.get? out q = some (.m inner)) ∧
      (∀ q, (¬∃ p, Projection.Names text? c p ∧ p <+: q) →
        (¬∃ p value, Projection.Names text? c p ∧ q <+: p ∧ Path.get? item p = some value) →
        Path.get? out q = none) ∧
      (∀ other?, (∀ token, token ∈ Projection.tokens other? ↔ token ∈ Projection.tokens text?) →
        item.project other? c = .ok out) ∧
      ∀ p value, Path.get? item p = some value → Path.set item value p = .ok item := by
  obtain ⟨out, done, shows⟩ := Projection.exists_shows arranged resolves
  refine ⟨out, done, shows.inside, shows.around, shows.outside, fun other? same => ?_, fun p value found =>
    arranged.set_of_get? found⟩
  obtain ⟨resolve, names⟩ := Projection.names_congr (c := c) same
  obtain ⟨out', done', shows'⟩ := Projection.exists_shows arranged (resolve.mpr resolves)
  rw [done', (shows'.congr names).unique shows]

namespace Profiles

/-- A member with an address inside its contact, and a mark. -/
def member : Item :=
  [("contact", .m [("mail", .s "m"), ("place", .m [("city", .s "Bern"), ("road", .s "Gasse")])]),
    ("flags", .m [("new", .bool true)]), ("id", .s "u")]

/-- Names the place, before and after it the city inside it, and a flag that the member does not have. -/
def shown : String := "#0.#1.city, #0.#1,flags.old ,#0.#1.city"

/-- The same without the repetition, in another order. -/
def reordered : String := "flags.old,#0.#1,  #0.#1.city"

/-- What the placeholders stand for. -/
def context : Context := ⟨[("#0", "contact"), ("#1", "place")], []⟩

theorem arranged_member : AttributeValue.Arranged (.m member) := by
  have flags : AttributeValue.Arranged (.m [("new", .bool true)]) := .singleton _ (.leaf rfl)
  have place : AttributeValue.Arranged (.m [("city", .s "Bern"), ("road", .s "Gasse")]) :=
    AttributeValue.Arranged.cons_iff.mpr ⟨by decide, .leaf rfl, .singleton _ (.leaf rfl)⟩
  have contact : AttributeValue.Arranged
      (.m [("mail", .s "m"), ("place", .m [("city", .s "Bern"), ("road", .s "Gasse")])]) :=
    AttributeValue.Arranged.cons_iff.mpr ⟨by decide, .leaf rfl, .singleton _ place⟩
  exact AttributeValue.Arranged.cons_iff.mpr ⟨by decide, contact,
    AttributeValue.Arranged.cons_iff.mpr ⟨by decide, flags, .singleton _ (.leaf rfl)⟩⟩

theorem tokens_shown : Projection.tokens (some shown) =
    ["#0.#1.city", "#0.#1", "flags.old", "#0.#1.city"] := by
  decide +kernel

theorem tokens_reordered : Projection.tokens (some reordered) = ["flags.old", "#0.#1", "#0.#1.city"] := by
  decide +kernel

theorem path_city : context.path "#0.#1.city" = .ok ["contact", "place", "city"] := by decide +kernel

theorem path_place : context.path "#0.#1" = .ok ["contact", "place"] := by decide +kernel

theorem path_old : context.path "flags.old" = .ok ["flags", "old"] := by decide +kernel

theorem names_shown (p : Path) : Projection.Names (some shown) context p ↔
    p = ["contact", "place", "city"] ∨ p = ["contact", "place"] ∨ p = ["flags", "old"] := by
  simp only [Projection.Names, tokens_shown, List.cons_ne_nil, false_or, List.exists_mem_cons_iff, path_city,
    path_place, path_old, Except.ok.injEq, List.not_mem_nil, false_and, exists_false, or_false,
    eq_comm (b := p)]
  tauto

end Profiles

/-- A member's place is shown as a whole although its city is named twice as well. -/
theorem Item.project_exact_of_member :
    ∃ out inner, Profiles.member.project (some Profiles.shown) Profiles.context = .ok out ∧
      Path.get? out ["contact", "place", "road"] = some (.s "Gasse") ∧
      Path.get? out ["contact"] = some (.m inner) ∧ Path.get? out ["flags"] = none ∧
      Profiles.member.project (some Profiles.reordered) Profiles.context = .ok out := by
  have resolves : ∀ token ∈ Projection.tokens (some Profiles.shown),
      ∃ p, Profiles.context.path token = .ok p := by
    simp only [Profiles.tokens_shown, List.forall_mem_cons]
    exact ⟨⟨_, Profiles.path_city⟩, ⟨_, Profiles.path_place⟩, ⟨_, Profiles.path_old⟩,
      ⟨_, Profiles.path_city⟩, List.forall_mem_nil _⟩
  obtain ⟨out, done, inside, around, outside, same, _⟩ := Item.project_exact Profiles.arranged_member resolves
  simp only [Profiles.names_shown] at inside around outside
  obtain ⟨inner, contact⟩ := around ["contact"] (List.cons_ne_nil _ _) (by simp)
    ⟨["contact", "place"], _, by simp, by simp, rfl⟩
  refine ⟨out, inner, done, ?_, contact, ?_, same _ fun token => ?_⟩
  · exact inside ["contact", "place", "road"] ⟨["contact", "place"], by simp, by simp⟩
  · refine outside ["flags"] (by simp) ?_
    rintro ⟨p, value, rfl | rfl | rfl, leads, found⟩
    · simp at leads
    · simp at leads
    · cases found
  · rw [Profiles.tokens_shown, Profiles.tokens_reordered]
    simp only [List.mem_cons, List.not_mem_nil, or_false]
    tauto

end DocTable
