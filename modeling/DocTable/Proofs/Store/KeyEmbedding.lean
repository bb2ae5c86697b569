import DocTable.Proofs.Store.KeyOrder

/-!
# Key values are embedded in their octets

The octets of two values of one key compare as the values do, in both directions: texts by their octets, byte strings
as they are, numbers by their doubles.  The only doubles that stand for one number and have different octets are the
two zeros, and the one with a sign comes first.

No octets of a value hold the separator, so octets with a separator behind them are never the start of others
(`StorageKey.eq_of_leads`): the values of a partition are told apart before their octets end.
-/

namespace DocTable

set_option autoImplicit false

attribute [local instance] Number.corePower

open Number

namespace StorageKey

variable {a b : Bytes}

theorem escape_lt_escape_iff : escape a < escape b ↔ a < b := by
  refine ⟨fun less => ?_, escape_lt_escape⟩
  rcases Std.lt_trichotomy a b with smaller | rfl | larger
  · exact smaller
  · exact absurd less (List.lt_irrefl _)
  · exact absurd less (List.lt_asymm (escape_lt_escape larger))

theorem escape_eq_escape_iff : escape a = escape b ↔ a = b := ⟨escape_injective, congrArg escape⟩

/-- Octets with a separator behind them are the start of no others. -/
theorem eq_of_leads (noneA : separator ∉ a) (noneB : separator ∉ b)
    (leads : a ++ [separator] <+: b ++ [separator]) : a = b := by
  obtain ⟨rest, whole⟩ := leads
  rw [List.append_assoc, List.singleton_append] at whole
  exact (eq_of_append_separator noneA noneB whole).1

/-- The octets of doubles are in the order of the numbers that they stand for, and the zero with a sign is below the
zero without. -/
theorem number_lt_iff_value_lt {x y : Binary64} (numberX : x.isNaN = false) (numberY : y.isNaN = false) :
    number x < number y ↔ x.value < y.value ∨ x.bits = 0x8000000000000000 ∧ y.bits = 0 := by
  rw [number_lt_number_iff numberX numberY, Binary64.value_lt_iff numberX numberY, ← UInt64.toNat_inj,
    ← UInt64.toNat_inj]
  exact Iff.rfl

end StorageKey

/-- The octets of a text are written for the part that it is. -/
theorem KeyPart.exists_octets {v : AttributeValue} {p : KeyPart} (part : v.keyPart? = some p) (text : p.kind = "S") :
    ∃ octets, v.textOctets? = some octets ∧ p.written = StorageKey.escape octets := by
  cases p with
  | text x =>
    obtain rfl := AttributeValue.keyPart?_eq_text_iff.mp part
    exact ⟨_, rfl, rfl⟩
  | raw x =>
    obtain rfl := AttributeValue.keyPart?_eq_raw_iff.mp part
    exact ⟨_, rfl, rfl⟩
  | _ => exact absurd text (by simp [kind])

/-- **Key values are embedded in their octets, in order and none as the start of another.**  Of two values that are
written for one key, both are texts, byte strings or numbers, as the key wants.  The octets of texts are in the order
of the texts' own octets, those of byte strings in the order of the byte strings, and those of numbers in the order of
the doubles, unless one is not a number, with the negative zero below the positive one; and they are the same only for
the same texts, byte strings or doubles.  They hold no separator, and with one behind them are not the start of
others. -/
theorem StorageKey.value_embeds {k : KeyDefinition} {v w : AttributeValue} {a b : Bytes}
    (writtenV : StorageKey.value k v = .ok a) (writtenW : StorageKey.value k w = .ok b) :
    ((∃ x y, k.kind = "S" ∧ v.textOctets? = some x ∧ w.textOctets? = some y ∧ (a < b ↔ x < y) ∧ (a = b ↔ v = w)) ∨
      (∃ x y, k.kind = "B" ∧ v = .b x ∧ w = .b y ∧ (a < b ↔ x < y) ∧ (a = b ↔ x = y)) ∨
      ∃ s t x y, k.kind = "N" ∧ v = .n s ∧ w = .n t ∧ Binary64.read s = .ok x ∧ Binary64.read t = .ok y ∧
        (x.isNaN = false → y.isNaN = false →
          (a < b ↔ x.value < y.value ∨ x.bits = 0x8000000000000000 ∧ y.bits = 0)) ∧
        (a = b ↔ x.bits = y.bits)) ∧
    separator ∉ a ∧ (a ++ [separator] <+: b ++ [separator] → a = b) := by
  obtain ⟨p, partV, rfl⟩ := value_eq_ok_iff.mp writtenV
  obtain ⟨q, partW, rfl⟩ := value_eq_ok_iff.mp writtenW
  refine ⟨?_, p.separator_notMem_written, eq_of_leads p.separator_notMem_written q.separator_notMem_written⟩
  have kind := KeyDefinition.kind_of_part? partV
  have kinds : q.kind = p.kind := (KeyDefinition.kind_of_part? partW).trans kind.symm
  have partOfV := (KeyDefinition.part?_eq_some_iff.mp partV).2
  have partOfW := (KeyDefinition.part?_eq_some_iff.mp partW).2
  by_cases text : p.kind = "S"
  · obtain ⟨x, octetsV, octets⟩ := KeyPart.exists_octets partOfV text
    obtain ⟨y, octetsW, octets'⟩ := KeyPart.exists_octets partOfW (kinds.trans text)
    rw [octets, octets', escape_lt_escape_iff, escape_eq_escape_iff,
      ← AttributeValue.eq_iff_of_textOctets? octetsV octetsW]
    exact .inl ⟨x, y, kind.symm.trans text, octetsV, octetsW, Iff.rfl, Iff.rfl⟩
  cases p with
  | text | raw => exact absurd rfl text
  | octets x =>
    cases q with
    | octets y =>
      exact .inr (.inl ⟨x, y, kind.symm, AttributeValue.keyPart?_eq_octets_iff.mp partOfV,
        AttributeValue.keyPart?_eq_octets_iff.mp partOfW, escape_lt_escape_iff, escape_eq_escape_iff⟩)
    | _ => exact absurd kinds (by simp [KeyPart.kind])
  | number x =>
    cases q with
    | number y =>
      obtain ⟨s, isNumber, read⟩ := AttributeValue.keyPart?_eq_number_iff.mp partOfV
      obtain ⟨t, isNumber', read'⟩ := AttributeValue.keyPart?_eq_number_iff.mp partOfW
      refine .inr (.inr ⟨s, t, x, y, kind.symm, isNumber, isNumber', read, read', fun numberX numberY => ?_, ?_⟩)
      · exact escape_lt_escape_iff.trans (number_lt_iff_value_lt numberX numberY)
      · refine escape_eq_escape_iff.trans ⟨fun same => congrArg Binary64.bits (number_injective same), fun same => ?_⟩
        cases x
        cases y
        exact congrArg StorageKey.number (congrArg Binary64.mk same)
    | _ => exact absurd kinds (by simp [KeyPart.kind])

/-- The zero with a sign is written below the zero without, and one below its successor, from which it differs first
in an octet that is escaped. -/
theorem StorageKey.value_embeds_of_levels :
    let level : KeyDefinition := ⟨"level", "N"⟩
    (∃ a b, StorageKey.value level (.n "-0") = .ok a ∧ StorageKey.value level (.n "0") = .ok b ∧ a < b) ∧
    ∃ a b, StorageKey.value level (.n "1") = .ok a ∧
      StorageKey.value level (.n "1.0000000000000002") = .ok b ∧ a < b ∧ separator ∉ a ∧
      ¬a ++ [separator] <+: b ++ [separator] := by
  intro level
  have texts : level.kind ≠ "S" := by decide
  have octets : level.kind ≠ "B" := by decide
  refine ⟨?_, ?_⟩
  · have negative : Binary64.read "-0" = .ok ⟨0x8000000000000000⟩ := rfl
    have positive : Binary64.read "0" = .ok ⟨0⟩ := rfl
    have writtenA : StorageKey.value level (.n "-0") = .ok (escape (number ⟨0x8000000000000000⟩)) := rfl
    have writtenB : StorageKey.value level (.n "0") = .ok (escape (number ⟨0⟩)) := rfl
    refine ⟨_, _, writtenA, writtenB, ?_⟩
    obtain ⟨⟨_, _, kind, -⟩ | ⟨_, _, kind, -⟩ | ⟨s, t, x, y, -, isNumber, isNumber', read, read', order, -⟩, -⟩ :=
      StorageKey.value_embeds writtenA writtenB
    · exact absurd kind texts
    · exact absurd kind octets
    · cases isNumber
      cases isNumber'
      obtain rfl := Except.ok.inj (negative.symm.trans read)
      obtain rfl := Except.ok.inj (positive.symm.trans read')
      exact (order (by decide) (by decide)).mpr (.inr ⟨rfl, rfl⟩)
  · have one : Binary64.read "1" = .ok ⟨0x3FF0000000000000⟩ := rfl
    have next : Binary64.read "1.0000000000000002" = .ok ⟨0x3FF0000000000001⟩ := rfl
    have writtenA : StorageKey.value level (.n "1") = .ok (escape (number ⟨0x3FF0000000000000⟩)) := rfl
    have writtenB : StorageKey.value level (.n "1.0000000000000002") = .ok (escape (number ⟨0x3FF0000000000001⟩)) :=
      rfl
    refine ⟨_, _, writtenA, writtenB, ?_⟩
    obtain ⟨⟨_, _, kind, -⟩ | ⟨_, _, kind, -⟩ | ⟨s, t, x, y, -, isNumber, isNumber', read, read', order, same⟩, absent,
      leads⟩ := StorageKey.value_embeds writtenA writtenB
    · exact absurd kind texts
    · exact absurd kind octets
    · cases isNumber
      cases isNumber'
      obtain rfl := Except.ok.inj (one.symm.trans read)
      obtain rfl := Except.ok.inj (next.symm.trans read')
      have less := (Binary64.value_lt_iff (x := ⟨0x3FF0000000000000⟩) (y := ⟨0x3FF0000000000001⟩) rfl rfl).mpr
        (by decide)
      exact ⟨(order rfl rfl).mpr (.inl less), absent, fun start => absurd (same.mp (leads start)) (by decide)⟩

end DocTable
