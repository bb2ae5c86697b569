import Mathlib.Data.List.Forall2

/-!
# Outcomes of computations that can fail

What the steps of a computation have given when the whole has succeeded.  A reader of lists that reads one item
after the other succeeds if each item can be read (`Outcome.each_eq_ok_iff`, `exists_forall₂_iff`).
-/

namespace DocTable

set_option autoImplicit false

variable {ε δ α β : Type}

namespace Outcome

theorem ok_of_bind {first : Except ε α} {second : α → Except ε β} {result : β}
    (done : first >>= second = .ok result) :
    ∃ value, first = .ok value ∧ second value = .ok result := by
  cases first with
  | error cause => cases done
  | ok value => exact ⟨value, rfl, done⟩

theorem error_of_bind {first : Except ε α} {second : α → Except ε β} {cause : ε}
    (failed : first >>= second = .error cause) :
    first = .error cause ∨ ∃ value, first = .ok value ∧ second value = .error cause := by
  cases first with
  | error other =>
    cases failed
    exact .inl rfl
  | ok value => exact .inr ⟨value, rfl, failed⟩

theorem ok_of_map {first : Except ε α} {change : α → β} {result : β}
    (done : first.map change = .ok result) : ∃ value, first = .ok value ∧ change value = result := by
  cases first with
  | error cause => cases done
  | ok value =>
    cases done
    exact ⟨value, rfl, rfl⟩

theorem ok_of_mapError {first : Except ε α} {wrap : ε → δ} {value : α}
    (done : first.mapError wrap = .ok value) : first = .ok value := by
  cases first with
  | error cause => cases done
  | ok found =>
    cases done
    rfl

theorem mapError_eq_ok_iff {first : Except ε α} {wrap : ε → δ} {value : α} :
    first.mapError wrap = .ok value ↔ first = .ok value := by
  constructor
  · exact ok_of_mapError
  · rintro rfl
    rfl

theorem error_of_isOk {first : Except ε α} (failed : first.isOk = false) : ∃ cause, first = .error cause := by
  cases first with
  | error cause => exact ⟨cause, rfl⟩
  | ok value => cases failed

theorem ok_of_isOk {first : Except ε α} (done : first.isOk = true) : ∃ value, first = .ok value := by
  cases first with
  | error cause => cases done
  | ok value => exact ⟨value, rfl⟩

theorem ok_of_toOption {first : Except ε α} {value : α} (done : first.toOption = some value) :
    first = .ok value := by
  cases first with
  | error cause => cases done
  | ok found =>
    cases done
    rfl

/-- A reader of items in order has read each of them. -/
theorem each_eq_ok_iff (read : α → Except ε β) (readAll : List α → Except ε (List β)) {R : α → β → Prop}
    (nil : readAll [] = .ok [])
    (cons : ∀ item rest, readAll (item :: rest) = do
      let first ← read item
      let tail ← readAll rest
      return first :: tail)
    (each : ∀ item result, read item = .ok result ↔ R item result) {items : List α} {results : List β} :
    readAll items = .ok results ↔ List.Forall₂ R items results := by
  induction items generalizing results with
  | nil => simp [nil, eq_comm]
  | cons item rest ih =>
    rw [cons]
    constructor
    · intro done
      obtain ⟨first, here, done⟩ := ok_of_bind done
      obtain ⟨tail, there, done⟩ := ok_of_bind done
      cases done
      exact .cons ((each _ _).mp here) (ih.mp there)
    · rintro (_ | ⟨here, there⟩)
      rw [(each _ _).mpr here, ih.mpr there]
      rfl

end Outcome

/-- Items go with results if each of them goes with one. -/
theorem exists_forall₂_iff {R : α → β → Prop} {items : List α} :
    (∃ results, List.Forall₂ R items results) ↔ ∀ item ∈ items, ∃ result, R item result := by
  induction items with
  | nil => simp
  | cons item rest ih =>
    rw [List.forall_mem_cons, ← ih]
    constructor
    · rintro ⟨_, _ | ⟨here, there⟩⟩
      exact ⟨⟨_, here⟩, _, there⟩
    · rintro ⟨⟨_, here⟩, _, there⟩
      exact ⟨_, .cons here there⟩

/-- Two lists of items go with results if the results are those of the one and of the other. -/
theorem forall₂_append_left_iff {R : α → β → Prop} {items more : List α} {results : List β} :
    List.Forall₂ R (items ++ more) results ↔
      ∃ first later, results = first ++ later ∧ List.Forall₂ R items first ∧ List.Forall₂ R more later := by
  constructor
  · intro all
    induction items generalizing results with
    | nil => exact ⟨[], results, rfl, .nil, all⟩
    | cons item items ih =>
      obtain ⟨result, others, here, there, rfl⟩ := List.forall₂_cons_left_iff.mp all
      obtain ⟨first, later, rfl, before, after⟩ := ih there
      exact ⟨result :: first, later, rfl, .cons here before, after⟩
  · rintro ⟨first, later, rfl, before, after⟩
    exact List.rel_append before after

/-- Items go with results through others that they go with in turn. -/
theorem forall₂_exists_iff {γ : Type} {R : α → γ → Prop} {S : γ → β → Prop} {items : List α}
    {results : List β} : List.Forall₂ (fun item result => ∃ middle, R item middle ∧ S middle result) items results ↔
      ∃ middles, List.Forall₂ R items middles ∧ List.Forall₂ S middles results := by
  constructor
  · intro all
    induction all with
    | nil => exact ⟨[], .nil, .nil⟩
    | cons here _ ih =>
      obtain ⟨middle, first, second⟩ := here
      obtain ⟨middles, firsts, seconds⟩ := ih
      exact ⟨middle :: middles, .cons first firsts, .cons second seconds⟩
  · rintro ⟨middles, firsts, seconds⟩
    induction firsts generalizing results with
    | nil =>
      cases seconds
      exact .nil
    | cons first _ ih =>
      obtain _ | ⟨second, later⟩ := seconds
      exact .cons ⟨_, first, second⟩ (ih later)

/-- What each result has is what each item has, if it is so for every two that go together. -/
theorem forall_mem_iff_of_forall₂ {P : β → Prop} {Q : α → Prop} {items : List α} {results : List β}
    (all : List.Forall₂ (fun item result => P result ↔ Q item) items results) :
    (∀ result ∈ results, P result) ↔ ∀ item ∈ items, Q item := by
  induction all with
  | nil => exact iff_of_true (List.forall_mem_nil _) (List.forall_mem_nil _)
  | cons here _ ih => rw [List.forall_mem_cons, List.forall_mem_cons, here, ih]

end DocTable
