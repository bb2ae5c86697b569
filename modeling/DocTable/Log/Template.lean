import DocTable.Value.Display

/-!
# Message templates

A template is a text with conversions: a percent sign, flags, a width, a precision and a verb.  Each
conversion takes the next argument, or the one that a number in brackets chooses, and writes it as
its verb asks.  A star in place of a width or a precision takes it from an argument.  Nothing is
refused: a verb that does not fit its argument, a missing argument, a number that chooses none, an
unfinished conversion and superfluous arguments are all reported inside the written text.
-/

namespace DocTable.Log

set_option autoImplicit false

open Text

/-! ## Arguments -/

/-- Whether an argument is a place that something is stored at. -/
def isPlace : Value → Bool
  | .bytes _ | .document _ | .map _ | .list _ | .texts _ | .doubles _ | .byteStrings _ => true
  | .textMap _ | .numberedMap | .keyedMap _ | .attributes _ | .attributeValue _ => true
  | .reference _ | .nullReference | .function | .channel => true
  | _ => false

/-- Whether an argument is a single number, text or truth value, or a byte string. -/
def isPlain : Value → Bool
  | .bool _ | .text _ | .raw _ | .integer _ _ | .double _ | .single _ | .complex | .bytes _ => true
  | _ => false

/-- An argument by a verb.  Its type and its place are asked for by verbs of their own; places are
all alike, since values have none here. -/
def written (l : Layout) (verb : Char) (v : Value) : String :=
  match v, verb with
  | .null, 'T' | .null, 'v' => l.pad "<nil>"
  | .null, verb => "%!" ++ String.singleton verb ++ "(<nil>)"
  | v, 'T' => l.pad (l.cut v.typeName)
  | v, 'p' =>
    if isPlace v then Layout.fit v.typeName (l.nowhere? v.typeName) 'p'
    else Layout.misfit 'p' v.typeName (v.write l 'v')
  | .bytes octets, 'v' => l.bytes (if l.source then "[]byte" else "[]uint8") octets 'v'
  | v, 'w' => if isPlain v then v.write l 'w' else Layout.misfit 'w' v.typeName (v.write l 'v')
  | v, verb => v.write l verb

/-- An argument with its type. -/
def typed : Value → String
  | .null => "<nil>"
  | v => v.typeName ++ "=" ++ written {} 'v' v

/-- A report of arguments that no conversion has taken. -/
def superfluous : List Value → String
  | [] => ""
  | arguments => "%!(EXTRA " ++ ", ".intercalate (arguments.map typed) ++ ")"

/-- The greatest number that may be a width or a precision, or be followed by another digit of
one. -/
def countLimit : Nat := 1000000

/-- The width or precision that an argument gives. -/
def count? : Value → Option Int
  | .integer _ n | .namedInteger n => if n.natAbs ≤ countLimit then some n else none
  | .namedUnsigned n => some n
  | _ => none

/-! ## Conversions -/

/-- A conversion that is being read. -/
structure Conversion where
  layout : Layout := {}
  /-- The position of the next argument. -/
  next : Nat
  /-- Whether any argument so far was chosen by a number. -/
  reordered : Bool
  /-- Whether all numbers of the conversion choose an argument. -/
  sound : Bool := true
  /-- Whether a number in brackets was read last. -/
  chosen : Bool := false
  reports : String := ""
  rest : List Char

/-- A layout with one more flag, if the character is one. -/
def withFlag? (l : Layout) (c : Char) : Option Layout :=
  if c = '#' then some { l with alternate := true }
  else if c = '0' then some { l with zero := true }
  else if c = '+' then some { l with plus := true }
  else if c = '-' then some { l with left := true }
  else if c = ' ' then some { l with space := true }
  else none

/-- The number that digits stand for; none if there are too many of them. -/
def number? (digits : List Char) : Option Nat :=
  digits.foldl
    (fun n? c => n?.bind fun n =>
      if countLimit < n then none else some (10 * n + (c.toNat - '0'.toNat)))
    (some 0)

/-- The layout for a verb.  The verb for every value reads two of the flags in its own way. -/
def layoutFor (l : Layout) (verb : Char) : Layout :=
  if verb = 'v' ∨ verb = 'w' then
    { l with source := l.alternate, alternate := false, labelled := l.plus, plus := false }
  else l

namespace Conversion

/-- Reads flags. -/
def readFlagsFrom (l : Layout) : List Char → Layout × List Char
  | [] => (l, [])
  | c :: rest => match withFlag? l c with
    | some l => readFlagsFrom l rest
    | none => (l, c :: rest)

/-- Reads the flags of a conversion. -/
def readFlags (c : Conversion) : Conversion :=
  let (layout, rest) := readFlagsFrom c.layout c.rest
  { c with layout := layout, rest := rest }

/-- The conversion after a number in brackets, which is none if it is not written in digits. -/
def choose (c : Conversion) (count : Nat) (n? : Option Nat) (rest : List Char) : Conversion :=
  match n? with
  | none => { c with reordered := true, sound := false, chosen := false, rest := rest }
  | some n =>
    if 1 ≤ n ∧ n ≤ count then
      { c with reordered := true, next := n - 1, chosen := true, rest := rest }
    else { c with reordered := true, sound := false, chosen := true, rest := rest }

/-- Reads a number in brackets that chooses one of `count` arguments. -/
def readChoice (count : Nat) (c : Conversion) : Conversion :=
  match c.rest with
  | '[' :: inner =>
    let digits := inner.takeWhile (· != ']')
    match inner.dropWhile (· != ']') with
    | [] => c.choose count none inner
    | _ :: rest =>
      if digits.isEmpty ∧ rest.isEmpty then c.choose count none inner
      else if digits.isEmpty ∨ digits.any (!Char.isDigit ·) then c.choose count none rest
      else c.choose count (number? digits) rest
  | _ => { c with chosen := false }

/-- The number that the next argument gives, and the conversion behind that argument. -/
def takeCount (arguments : List Value) (c : Conversion) : Option Int × Conversion :=
  match arguments[c.next]? with
  | some v => (count? v, { c with next := c.next + 1, chosen := false })
  | none => (none, { c with chosen := false })

/-- The conversion with a width; a negative one is a width on the other side. -/
def withWidth (c : Conversion) : Option Int → Conversion
  | none => { c with reports := c.reports ++ "%!(BADWIDTH)" }
  | some n =>
    if n < 0 then
      { c with layout := { c.layout with width? := some n.natAbs, left := true, zero := false } }
    else { c with layout := { c.layout with width? := some n.natAbs } }

/-- The conversion with a precision, which is never negative. -/
def withPrecision (c : Conversion) : Option Int → Conversion
  | none => { c with reports := c.reports ++ "%!(BADPREC)" }
  | some n =>
    if n < 0 then { c with reports := c.reports ++ "%!(BADPREC)" }
    else { c with layout := { c.layout with precision? := some n.natAbs } }

/-- Reads a width. -/
def readWidth (arguments : List Value) (c : Conversion) : Conversion :=
  match c.rest with
  | '*' :: rest =>
    let (n?, c) := takeCount arguments { c with rest := rest }
    c.withWidth n?
  | rest =>
    let digits := rest.takeWhile Char.isDigit
    if digits.isEmpty then c
    else match number? digits with
      | none => { c with rest := [] }
      | some n =>
        { c with
          layout := { c.layout with width? := some n }
          sound := c.sound && !c.chosen
          rest := rest.dropWhile Char.isDigit }

/-- Reads a precision behind its point. -/
def readPrecision (arguments : List Value) (c : Conversion) : Conversion :=
  match c.rest with
  | '.' :: rest =>
    let c := readChoice arguments.length { c with sound := c.sound && !c.chosen, rest := rest }
    match c.rest with
    | '*' :: rest =>
      let (n?, c) := takeCount arguments { c with rest := rest }
      c.withPrecision n?
    | rest => match number? (rest.takeWhile Char.isDigit) with
      | none => { c with layout := { c.layout with precision? := some 0 }, rest := [] }
      | some n =>
        { c with
          layout := { c.layout with precision? := some n }
          rest := rest.dropWhile Char.isDigit }
  | _ => c

/-- Reads everything in front of the verb, from behind the percent sign on. -/
def read (arguments : List Value) (next : Nat) (reordered : Bool) (rest : List Char) :
    Conversion :=
  let flagged := readFlags ⟨{}, next, reordered, true, false, "", rest⟩
  let c := readPrecision arguments (readWidth arguments (readChoice arguments.length flagged))
  if c.chosen then c else readChoice arguments.length c

/-! Nothing that is read of a conversion is put back. -/

theorem length_readFlagsFrom_le (l : Layout) (cs : List Char) :
    (readFlagsFrom l cs).2.length ≤ cs.length := by
  fun_induction readFlagsFrom l cs with
  | case1 => exact Nat.le_refl _
  | case2 l c rest l' _ ih => exact Nat.le_succ_of_le ih
  | case3 => exact Nat.le_refl _

theorem length_readFlags_le (c : Conversion) : c.readFlags.rest.length ≤ c.rest.length :=
  length_readFlagsFrom_le c.layout c.rest

theorem rest_choose (c : Conversion) (count : Nat) (n? : Option Nat) (rest : List Char) :
    (c.choose count n? rest).rest = rest := by
  unfold choose
  repeat' split
  all_goals rfl

theorem length_readChoice_le (count : Nat) (c : Conversion) :
    (readChoice count c).rest.length ≤ c.rest.length := by
  unfold readChoice
  split
  · rename_i inner h
    have hd := (List.dropWhile_sublist (l := inner) (· != ']')).length_le
    simp only [h, List.length_cons]
    split
    · rw [rest_choose]; omega
    · rename_i head rest hr
      simp only [hr, List.length_cons] at hd
      repeat' split
      all_goals rw [rest_choose]; omega
  · exact Nat.le_refl _

theorem rest_takeCount (arguments : List Value) (c : Conversion) :
    (takeCount arguments c).2.rest = c.rest := by
  unfold takeCount
  split <;> rfl

theorem rest_withWidth (c : Conversion) (n? : Option Int) : (c.withWidth n?).rest = c.rest := by
  unfold withWidth
  repeat' split
  all_goals rfl

theorem rest_withPrecision (c : Conversion) (n? : Option Int) :
    (c.withPrecision n?).rest = c.rest := by
  unfold withPrecision
  repeat' split
  all_goals rfl

theorem length_readWidth_le (arguments : List Value) (c : Conversion) :
    (readWidth arguments c).rest.length ≤ c.rest.length := by
  unfold readWidth
  split
  · rename_i rest h
    simp only [rest_withWidth, rest_takeCount, h, List.length_cons]
    omega
  · have hd := (List.dropWhile_sublist (l := c.rest) Char.isDigit).length_le
    dsimp only
    repeat' split
    · exact Nat.le_refl _
    · exact Nat.zero_le _
    · exact hd

theorem length_readPrecision_le (arguments : List Value) (c : Conversion) :
    (readPrecision arguments c).rest.length ≤ c.rest.length := by
  unfold readPrecision
  split
  · rename_i rest h
    have hc := length_readChoice_le arguments.length
      { c with sound := c.sound && !c.chosen, rest := rest }
    simp only [h, List.length_cons] at hc ⊢
    split
    · rename_i rest' h'
      simp only [h', List.length_cons] at hc
      simp only [rest_withPrecision, rest_takeCount]
      omega
    · have hd := (List.dropWhile_sublist (l := (readChoice arguments.length
        { c with sound := c.sound && !c.chosen, rest := rest }).rest) Char.isDigit).length_le
      split
      · exact Nat.zero_le _
      · simp only; omega
  · exact Nat.le_refl _

theorem length_read_le (arguments : List Value) (next : Nat) (reordered : Bool)
    (rest : List Char) : (read arguments next reordered rest).rest.length ≤ rest.length := by
  unfold read
  dsimp only
  generalize hs : (⟨{}, next, reordered, true, false, "", rest⟩ : Conversion) = start
  have h0 : start.rest = rest := by rw [← hs]
  have h1 := length_readFlags_le start
  have h2 := length_readChoice_le arguments.length start.readFlags
  have h3 := length_readWidth_le arguments (readChoice arguments.length start.readFlags)
  have h4 := length_readPrecision_le arguments
    (readWidth arguments (readChoice arguments.length start.readFlags))
  have h5 := length_readChoice_le arguments.length (readPrecision arguments
    (readWidth arguments (readChoice arguments.length start.readFlags)))
  rw [h0] at h1
  split <;> omega

end Conversion

/-! ## Filling in -/

/-- What a conversion writes for its verb, and the position of the next argument. -/
def convert (arguments : List Value) (l : Layout) (next : Nat) (sound : Bool) (verb : Char) :
    String × Nat :=
  if verb = '%' then ("%", next)
  else if !sound then ("%!" ++ String.singleton verb ++ "(BADINDEX)", next)
  else match arguments[next]? with
    | none => ("%!" ++ String.singleton verb ++ "(MISSING)", next)
    | some v => (written (layoutFor l verb) verb v, next + 1)

/-- A report of the arguments from a position on, unless arguments were chosen by number. -/
def leftOver (arguments : List Value) (next : Nat) (reordered : Bool) : String :=
  if reordered then "" else superfluous (arguments.drop next)

/-- The parts of a template filled in, from an argument on. -/
def parts (arguments : List Value) (next : Nat) (reordered : Bool) : List Char → List String
  | [] => [leftOver arguments next reordered]
  | '%' :: rest => match _h : Conversion.read arguments next reordered rest with
    | ⟨_, here, chosen, _, _, reports, []⟩ =>
      [reports, "%!(NOVERB)", leftOver arguments here chosen]
    | ⟨layout, here, chosen, sound, _, reports, verb :: after⟩ =>
      let (text, following) := convert arguments layout here sound verb
      reports :: text :: parts arguments following chosen after
  | c :: rest => String.singleton c :: parts arguments next reordered rest
termination_by template => template.length
decreasing_by
  · have hc := Conversion.length_read_le arguments next reordered rest
    rw [_h] at hc
    simp only [List.length_cons] at hc ⊢
    omega
  · simp

/-- A template filled in with arguments. -/
def fill (template : String) (arguments : List Value) : String :=
  String.join (parts arguments 0 false template.toList)

end DocTable.Log
