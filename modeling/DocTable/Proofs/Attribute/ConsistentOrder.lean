import DocTable.Proofs.Attribute.Order
import DocTable.Proofs.Number.DecimalOrder

/-!
# The comparators are one order

Equality of two values and their order are computed in different ways, and numbers are compared after
rounding.  Still the six comparators agree: of the ordered values of one kind each comparator says what its
symbol says of their ranks (`Comparator.holds_iff_relates`), and ranks are linearly ordered.  So the laws of
a linear order hold of them (`Comparator.Consistent`), among numbers that are no decimals or that rounding
makes equal too.

For plain decimals of at most 55 places the order is that of their exact values, as far as rounding leaves it:
what is less by the comparator is less exactly (`PlainNumeral.value_lt_of_holds`).  Values of different kinds
have no order and are just different (`Comparator.holds_of_tag_ne`).  `comparators_form_one_order` puts this
together.
-/

namespace DocTable

set_option autoImplicit false

open Number

/-! ## Comparators on ranks -/

namespace AttributeValue

variable {kind : String} {a b : AttributeValue}

/-- Texts are equal if they are the same. -/
theorem equal_texts {x y : Bytes} (octetsA : a.textOctets? = some x) (octetsB : b.textOctets? = some y) :
    a.equal b = true ↔ a = b := by
  cases a <;> cases octetsA <;> cases b <;> cases octetsB <;> simp [equal]

/-- Ordered values are equal if neither comes first. -/
theorem equal_iff_compare? (orderedA : a.IsOrdered kind) (orderedB : b.IsOrdered kind) :
    a.equal b = true ↔ a.compare? b = some .eq := by
  have kinds : a.keyKind? = b.keyKind? := orderedA.1.trans orderedB.1.symm
  have octets : ∀ x y : Bytes, compareBytes x y = .eq ↔ x = y := fun x y =>
    (compares_bytes x y).eq_eq.trans (List.map_injective_iff.mpr fun _ _ => UInt8.toNat_inj.mp).eq_iff
  by_cases text : a.keyKind? = some "S"
  · obtain ⟨x, octetsA⟩ := textOctets?_of_keyKind? text
    obtain ⟨y, octetsB⟩ := textOctets?_of_keyKind? (kinds.symm.trans text)
    rw [equal_texts octetsA octetsB, eq_iff_of_textOctets? octetsA octetsB,
      (compares_texts octetsA octetsB).1, Option.some_inj, octets]
  · cases a with
    | n x =>
      cases b with
      | n y => rw [equal, compare?, beq_iff_eq]
      | _ => simp [keyKind?] at kinds
    | b x =>
      cases b with
      | b y => rw [equal, compare?, beq_iff_eq, Option.some_inj, octets]
      | _ => simp [keyKind?] at kinds
    | s | raw => exact absurd rfl text
    | _ => cases orderedA.1

theorem isOrdered_of_textOctets? {x : Bytes} (octets : a.textOctets? = some x) : a.IsOrdered "S" := by
  cases a <;> cases octets <;> exact ⟨rfl, nofun⟩

theorem isOrdered_of_compare? {order : Ordering} (compared : a.compare? b = some order) :
    ∃ kind, a.IsOrdered kind ∧ b.IsOrdered kind := by
  by_cases text : a.keyKind? = some "S"
  · obtain ⟨x, octetsA⟩ := textOctets?_of_keyKind? text
    have octetsB : ∃ y, b.textOctets? = some y := by
      cases a <;> cases octetsA <;> cases b <;> first | exact ⟨_, rfl⟩ | cases compared
    obtain ⟨y, octetsB⟩ := octetsB
    exact ⟨"S", isOrdered_of_textOctets? octetsA, isOrdered_of_textOctets? octetsB⟩
  cases a with
  | s | raw => exact absurd rfl text
  | n x =>
    cases b with
    | n y =>
      obtain ⟨readX, foundX, rest⟩ := Option.bind_eq_some_iff.mp compared
      obtain ⟨readY, foundY, _⟩ := Option.bind_eq_some_iff.mp rest
      refine ⟨"N", ⟨rfl, fun text same => ?_⟩, ⟨rfl, fun text same => ?_⟩⟩
      · cases same
        exact ⟨readX, foundX⟩
      · cases same
        exact ⟨readY, foundY⟩
    | _ => cases compared
  | b x =>
    cases b with
    | b y => exact ⟨"B", ⟨rfl, by simp⟩, ⟨rfl, by simp⟩⟩
    | _ => cases compared
  | _ => cases compared

/-- Compared the other way round, the smaller value is the larger one. -/
theorem compare?_swap (less : a.compare? b = some .lt) : b.compare? a = some .gt := by
  obtain ⟨kind, orderedA, orderedB⟩ := isOrdered_of_compare? less
  obtain ⟨order, compared, ranks⟩ := compares_rank orderedA orderedB
  obtain ⟨swapped, comparedSwapped, ranksSwapped⟩ := compares_rank orderedB orderedA
  cases compared.symm.trans less
  rw [comparedSwapped, ranksSwapped.eq_gt.mpr ranks]

end AttributeValue

namespace Comparator

/-- What the symbol of a comparator says in an order. -/
def Relates {α : Type} [LinearOrder α] (c : Comparator) (a b : α) : Prop :=
  match c with
  | .eq => a = b
  | .ne => a ≠ b
  | .lt => a < b
  | .le => a ≤ b
  | .gt => b < a
  | .ge => b ≤ a

variable {kind : String} {a b : AttributeValue}

/-- A comparator holds of ordered values if their ranks are as its symbol says. -/
theorem holds_iff_relates (c : Comparator) (orderedA : a.IsOrdered kind) (orderedB : b.IsOrdered kind) :
    c.holds a b = true ↔ c.Relates a.rank b.rank := by
  obtain ⟨order, compared, ranks⟩ := AttributeValue.compares_rank orderedA orderedB
  have equal : a.equal b = true ↔ a.rank = b.rank := by
    rw [AttributeValue.equal_iff_compare? orderedA orderedB, compared, Option.some_inj, ranks.eq_eq]
  cases c with
  | eq => exact equal
  | ne =>
    rw [holds, Bool.not_eq_true', ← Bool.not_eq_true]
    exact not_congr equal
  | lt => simpa [holds, compared, accepts, Relates] using ranks.eq_lt
  | gt => simpa [holds, compared, accepts, Relates] using ranks.eq_gt
  | le => simpa [holds, compared, accepts, Relates] using ranks.ne_gt
  | ge => simpa [holds, compared, accepts, Relates] using ranks.ne_lt

/-- The comparators as a linear order on some of the values. -/
structure Consistent (values : AttributeValue → Prop) : Prop where
  /-- Exactly one of the three comparisons holds. -/
  trichotomy : ∀ {a b}, values a → values b →
    (lt.holds a b = true ∧ eq.holds a b = false ∧ gt.holds a b = false) ∨
    (lt.holds a b = false ∧ eq.holds a b = true ∧ gt.holds a b = false) ∨
    (lt.holds a b = false ∧ eq.holds a b = false ∧ gt.holds a b = true)
  le_eq_not_gt : ∀ {a b}, values a → values b → le.holds a b = !gt.holds a b
  ge_eq_not_lt : ∀ {a b}, values a → values b → ge.holds a b = !lt.holds a b
  ne_eq_not_eq : ∀ {a b}, values a → values b → ne.holds a b = !eq.holds a b
  lt_eq_gt_swapped : ∀ {a b}, values a → values b → lt.holds a b = gt.holds b a
  lt_trans : ∀ {a b c}, values a → values b → values c → lt.holds a b = true → lt.holds b c = true →
    lt.holds a c = true
  lt_congr : ∀ {a b c}, values a → values b → values c → eq.holds a b = true →
    lt.holds a c = lt.holds b c ∧ lt.holds c a = lt.holds c b

/-- The ordered values of a kind are linearly ordered. -/
theorem consistent_isOrdered (kind : String) : Consistent (AttributeValue.IsOrdered kind) where
  trichotomy {a b} orderedA orderedB := by
    simp only [← Bool.not_eq_true, holds_iff_relates _ orderedA orderedB, Relates]
    rcases lt_trichotomy a.rank b.rank with less | same | greater
    · exact .inl ⟨less, less.ne, less.not_gt⟩
    · exact .inr (.inl ⟨same.not_lt, same, same.not_gt⟩)
    · exact .inr (.inr ⟨greater.not_gt, greater.ne', greater⟩)
  le_eq_not_gt orderedA orderedB := by
    rw [Bool.eq_iff_iff, Bool.not_eq_true', ← Bool.not_eq_true, holds_iff_relates _ orderedA orderedB,
      holds_iff_relates _ orderedA orderedB]
    exact not_lt.symm
  ge_eq_not_lt orderedA orderedB := by
    rw [Bool.eq_iff_iff, Bool.not_eq_true', ← Bool.not_eq_true, holds_iff_relates _ orderedA orderedB,
      holds_iff_relates _ orderedA orderedB]
    exact not_lt.symm
  ne_eq_not_eq _ _ := rfl
  lt_eq_gt_swapped orderedA orderedB := by
    rw [Bool.eq_iff_iff, holds_iff_relates _ orderedA orderedB, holds_iff_relates _ orderedB orderedA]
    exact Iff.rfl
  lt_trans orderedA orderedB orderedC first second := by
    rw [holds_iff_relates _ orderedA orderedB] at first
    rw [holds_iff_relates _ orderedB orderedC] at second
    rw [holds_iff_relates _ orderedA orderedC]
    exact LT.lt.trans first second
  lt_congr orderedA orderedB orderedC same := by
    rw [holds_iff_relates _ orderedA orderedB] at same
    have ranks : _ = _ := same
    constructor
    · rw [Bool.eq_iff_iff, holds_iff_relates _ orderedA orderedC, holds_iff_relates _ orderedB orderedC, ranks]
    · rw [Bool.eq_iff_iff, holds_iff_relates _ orderedC orderedA, holds_iff_relates _ orderedC orderedB, ranks]

/-- Values of different kinds are different and nothing else. -/
theorem holds_of_tag_ne (c : Comparator) {a b : AttributeValue} (kinds : a.tag ≠ b.tag) :
    c.holds a b = decide (c = .ne) := by
  have unequal : a.equal b = false := by
    cases a <;> cases b <;> first | rfl | exact absurd rfl kinds
  have incomparable : a.compare? b = none := by
    cases a <;> cases b <;> first | rfl | exact absurd rfl kinds
  cases c <;> simp [holds, unequal, incomparable]

end Comparator

/-! ## Decimals -/

namespace Number.PlainNumeral

variable {d e : PlainNumeral}

/-- An order of two decimals other than equality is that of their exact values. -/
theorem value_order_of_compareNumbers? {order : Ordering} (few : d.places ≤ 55) (few' : e.places ≤ 55)
    (compared : compareNumbers? d.text e.text = some order) :
    (order = .lt → d.value < e.value) ∧ (order = .gt → e.value < d.value) := by
  obtain ⟨x, read, rest⟩ := Option.bind_eq_some_iff.mp compared
  obtain ⟨y, read', ordered⟩ := Option.bind_eq_some_iff.mp rest
  have ranks := Extended.compares_rank x y
  rw [Option.some_inj.mp ordered] at ranks
  constructor
  · intro less
    have below : x.rank < y.rank := ranks.eq_lt.mp less
    exact not_le.mp fun le => below.not_ge (rank_le_of_value_le few' few read' read le)
  · intro greater
    have above : y.rank < x.rank := ranks.eq_gt.mp greater
    exact not_le.mp fun le => above.not_ge (rank_le_of_value_le few few' read read' le)

theorem value_lt_of_holds (few : d.places ≤ 55) (few' : e.places ≤ 55)
    (less : Comparator.lt.holds (.n d.text) (.n e.text) = true) : d.value < e.value := by
  cases compared : compareNumbers? d.text e.text with
  | none =>
    simp only [Comparator.holds, AttributeValue.compare?, compared] at less
    cases less
  | some order =>
    simp only [Comparator.holds, AttributeValue.compare?, compared] at less
    exact (value_order_of_compareNumbers? few few' compared).1 (beq_iff_eq.mp less)

end Number.PlainNumeral

/-- The comparators are a linear order of the ordered values of each kind; on plain decimals of at most 55
places it is the exact order, as far as it tells them apart; and values of different kinds are only
different. -/
theorem comparators_form_one_order :
    (∀ kind, Comparator.Consistent (AttributeValue.IsOrdered kind)) ∧
    (∀ d e : PlainNumeral, d.places ≤ 55 → e.places ≤ 55 →
      Comparator.lt.holds (.n d.text) (.n e.text) = true → d.value < e.value) ∧
    (∀ (c : Comparator) (a b : AttributeValue), a.tag ≠ b.tag → c.holds a b = decide (c = .ne)) :=
  ⟨Comparator.consistent_isOrdered, fun _ _ => PlainNumeral.value_lt_of_holds, fun c _ _ => c.holds_of_tag_ne⟩

namespace Amounts

/-- A negative amount with a fraction. -/
def debt : PlainNumeral :=
  ⟨['-'], ['7'], some ['2', '5'], by decide, List.all_eq_true.mp rfl, List.all_eq_true.mp rfl, by decide⟩

/-- A whole amount. -/
def credit : PlainNumeral :=
  ⟨[], ['1', '0'], none, by decide, List.all_eq_true.mp rfl, List.all_eq_true.mp rfl, by decide⟩

end Amounts

open Amounts in
/-- Of two amounts the comparators and the exact values say the same; neither has an order with a text. -/
theorem comparators_form_one_order_of_amounts :
    debt.text = "-7.25" ∧ credit.text = "10" ∧ debt.value < credit.value ∧
      Comparator.gt.holds (.n credit.text) (.n debt.text) = true ∧
      Comparator.ge.holds (.n debt.text) (.n credit.text) = false ∧
      Comparator.lt.holds (.n debt.text) (.s credit.text) = false := by
  obtain ⟨consistent, exactly, apart⟩ := comparators_form_one_order
  have less : Comparator.lt.holds (.n debt.text) (.n credit.text) = true := by decide +kernel
  have debtOrdered : (AttributeValue.n debt.text).IsOrdered "N" :=
    ⟨rfl, fun text same => ⟨.finite true (29 * 2 ^ 59) (-61), by cases same; decide +kernel⟩⟩
  have creditOrdered : (AttributeValue.n credit.text).IsOrdered "N" :=
    ⟨rfl, fun text same => ⟨.finite false (5 * 2 ^ 61) (-60), by cases same; decide +kernel⟩⟩
  refine ⟨by decide +kernel, by decide +kernel, exactly debt credit (by decide) (by decide) less, ?_, ?_, ?_⟩
  · rw [← (consistent "N").lt_eq_gt_swapped debtOrdered creditOrdered, less]
  · rw [(consistent "N").ge_eq_not_lt debtOrdered creditOrdered, less]
    rfl
  · rw [apart .lt _ _ (by decide)]
    rfl

end DocTable
