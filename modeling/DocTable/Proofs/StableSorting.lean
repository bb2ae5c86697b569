import DocTable.Proofs.Sorting

/-!
# Sorting by a weak order is stable

A comparison is a weak order on some values if no two of them precede each other and if "not behind"
is transitive among them (`WeakOrder`).  Sorting values by such a comparison puts them in order and
keeps the order of those that are tied: the values tied with a given one are the same list before
and after (`sort_sortsTo`).

Every step of the procedure is of one kind.  It cuts two sorted lists in two, so that no value of the
first two parts is behind one of the last two, and so that the parts that change places have no tie
(`Divides`); what it makes of the first parts and of the last parts then stands in order one behind the
other (`Divides.join`).  Where the lists are cut is found by halving, and what halving finds is a place
where a property stops to hold, whatever the property is (`bisect_spec`).
-/

namespace DocTable.Sorting

set_option autoImplicit false

variable {α : Type} {less : α → α → Bool} {among : α → Prop}

/-! ## Weak orders -/

/-- A comparison that is a weak order on the values of a class. -/
structure WeakOrder (less : α → α → Bool) (among : α → Prop) : Prop where
  asymm : ∀ {a b : α}, among a → among b → less a b = true → less b a = false
  trans : ∀ {a b c : α}, among a → among b → among c → less b a = false → less c b = false →
    less c a = false

/-- Values of which none is behind a later one. -/
def Sorted (less : α → α → Bool) (xs : List α) : Prop := xs.Pairwise fun a b => less b a = false

/-- Whether neither of two values precedes the other. -/
def tied (less : α → α → Bool) (x y : α) : Bool := !less x y && !less y x

/-- Two lists have the same values tied with any value, in the same order. -/
def SameTies (less : α → α → Bool) (among : α → Prop) (xs ys : List α) : Prop :=
  ∀ x, among x → xs.filter (tied less x) = ys.filter (tied less x)

/-- A list in order that keeps the ties of another. -/
structure SortsTo (less : α → α → Bool) (among : α → Prop) (xs ys : List α) : Prop where
  sorted : Sorted less ys
  ties : SameTies less among ys xs
  perm : ys.Perm xs

namespace WeakOrder

variable (order : WeakOrder less among) {a b c : α}
include order

theorem irrefl (isA : among a) : less a a = false := by
  cases same : less a a with
  | false => rfl
  | true =>
    have other := order.asymm isA isA same
    rw [same] at other
    cases other

/-- What precedes a value precedes those that are not before it. -/
theorem lt_of_lt_of_le (isA : among a) (isB : among b) (isC : among c) (first : less a b = true)
    (second : less c b = false) : less a c = true := by
  cases third : less a c with
  | true => rfl
  | false =>
    have back := order.trans isB isC isA second third
    rw [first] at back
    cases back

theorem lt_of_le_of_lt (isA : among a) (isB : among b) (isC : among c) (first : less b a = false)
    (second : less b c = true) : less a c = true := by
  cases third : less a c with
  | true => rfl
  | false =>
    have back := order.trans isC isA isB third first
    rw [second] at back
    cases back

/-- Of two values of which one precedes the other, at most one is tied with a third. -/
theorem not_both_tied (isA : among a) (isB : among b) (isC : among c) (first : less a b = true)
    (tiedA : tied less c a = true) (tiedB : tied less c b = true) : False := by
  simp only [tied, Bool.and_eq_true, Bool.not_eq_true'] at tiedA tiedB
  have later := order.lt_of_lt_of_le isA isB isC first tiedB.1
  rw [tiedA.2] at later
  cases later

end WeakOrder

/-! ## Putting sorted parts together -/

theorem SortsTo.of_sorted {xs : List α} (sorted : Sorted less xs) : SortsTo less among xs xs :=
  ⟨sorted, fun _ _ => rfl, .refl _⟩

theorem Sorted.sublist {xs ys : List α} (sorted : Sorted less ys) (part : xs.Sublist ys) :
    Sorted less xs :=
  List.Pairwise.sublist part sorted

/-- Values in order, then values that are not before them. -/
theorem Sorted.append {xs ys : List α} (first : Sorted less xs) (second : Sorted less ys)
    (cross : ∀ x ∈ xs, ∀ y ∈ ys, less y x = false) : Sorted less (xs ++ ys) :=
  List.pairwise_append.mpr ⟨first, second, cross⟩

/-- Two lists cut in two: no value of the first parts is behind one of the last parts, and what
changes places has no tie. -/
structure Divides (less : α → α → Bool) (xs₁ xs₂ ys₁ ys₂ : List α) : Prop where
  sortedX : Sorted less (xs₁ ++ xs₂)
  sortedY : Sorted less (ys₁ ++ ys₂)
  kept : ∀ x ∈ xs₁, ∀ y ∈ ys₂, less y x = false
  moved : ∀ y ∈ ys₁, ∀ x ∈ xs₂, less y x = true

/-- The first parts in order, then the last parts in order, are the two lists in order. -/
theorem Divides.join {xs₁ xs₂ ys₁ ys₂ first second : List α} (order : WeakOrder less among)
    (known : ∀ z ∈ (xs₁ ++ xs₂) ++ (ys₁ ++ ys₂), among z)
    (divides : Divides less xs₁ xs₂ ys₁ ys₂)
    (sortsFirst : SortsTo less among (xs₁ ++ ys₁) first)
    (sortsSecond : SortsTo less among (xs₂ ++ ys₂) second) :
    SortsTo less among ((xs₁ ++ xs₂) ++ (ys₁ ++ ys₂)) (first ++ second) := by
  have isX₂ : ∀ x ∈ xs₂, among x := fun x member => known x (by simp [member])
  have isY₁ : ∀ y ∈ ys₁, among y := fun y member => known y (by simp [member])
  refine ⟨sortsFirst.sorted.append sortsSecond.sorted fun a inFirst b inSecond => ?_, ?_, ?_⟩
  · have crossX := (List.pairwise_append.mp divides.sortedX).2.2
    have crossY := (List.pairwise_append.mp divides.sortedY).2.2
    rcases List.mem_append.mp (sortsFirst.perm.subset inFirst) with inX₁ | inY₁
    · rcases List.mem_append.mp (sortsSecond.perm.subset inSecond) with inX₂ | inY₂
      · exact crossX a inX₁ b inX₂
      · exact divides.kept a inX₁ b inY₂
    · rcases List.mem_append.mp (sortsSecond.perm.subset inSecond) with inX₂ | inY₂
      · exact order.asymm (isY₁ a inY₁) (isX₂ b inX₂) (divides.moved a inY₁ b inX₂)
      · exact crossY a inY₁ b inY₂
  · intro z isZ
    -- the parts that change places are not both tied with a value
    have exchanged : ys₁.filter (tied less z) ++ xs₂.filter (tied less z) =
        xs₂.filter (tied less z) ++ ys₁.filter (tied less z) := by
      cases fromY : ys₁.filter (tied less z) with
      | nil => simp
      | cons y others =>
        have fromX : xs₂.filter (tied less z) = [] := by
          refine List.filter_eq_nil_iff.mpr fun x inX₂ tiedX => ?_
          have inFilter : y ∈ ys₁.filter (tied less z) := fromY ▸ List.mem_cons_self
          obtain ⟨inY₁, tiedY⟩ := List.mem_filter.mp inFilter
          exact order.not_both_tied (isY₁ y inY₁) (isX₂ x inX₂) isZ (divides.moved y inY₁ x inX₂)
            tiedY tiedX
        rw [fromX, List.append_nil, List.nil_append]
    calc
      (first ++ second).filter (tied less z) =
          xs₁.filter (tied less z) ++
            (ys₁.filter (tied less z) ++ xs₂.filter (tied less z)) ++ ys₂.filter (tied less z) := by
        rw [List.filter_append, sortsFirst.ties z isZ, sortsSecond.ties z isZ]
        simp only [List.filter_append, List.append_assoc]
      _ = ((xs₁ ++ xs₂) ++ (ys₁ ++ ys₂)).filter (tied less z) := by
        rw [exchanged]
        simp only [List.filter_append, List.append_assoc]
  · have exchanged : ((xs₁ ++ ys₁) ++ (xs₂ ++ ys₂)).Perm ((xs₁ ++ xs₂) ++ (ys₁ ++ ys₂)) := by
      rw [List.append_assoc, List.append_assoc, ← List.append_assoc ys₁, ← List.append_assoc xs₂]
      exact ((List.perm_append_comm.append_right ys₂).append_left xs₁)
    exact (sortsFirst.perm.append sortsSecond.perm).trans exchanged

/-! ## Insertion -/

/-- Inserting a value into values in order, which are listed from the last to the first. -/
theorem insertBack_sortsTo (order : WeakOrder less among) (x : α) (reversed : List α)
    (known : ∀ z ∈ reversed.reverse ++ [x], among z) (sorted : Sorted less reversed.reverse) :
    SortsTo less among (reversed.reverse ++ [x]) (insertBack less x reversed).reverse := by
  induction reversed with
  | nil => exact .of_sorted (List.pairwise_singleton _ _)
  | cons last rest ih =>
    rw [List.reverse_cons] at known sorted ⊢
    obtain ⟨sortedRest, _, cross⟩ := List.pairwise_append.mp sorted
    have isX : among x := known x (by simp)
    have isLast : among last := known last (by simp)
    rw [insertBack]
    split
    · rename_i before
      have divides : Divides less rest.reverse [last] [x] [] :=
        ⟨sorted, List.pairwise_singleton _ _, by simp, by simpa using before⟩
      have inserted := ih (fun z member => known z (by
        rcases List.mem_append.mp member with here | there
        · simp only [List.mem_append, here, true_or]
        · simp only [List.mem_append, there, or_true])) sortedRest
      have joined := divides.join order (by simpa using known) inserted
        (SortsTo.of_sorted (List.pairwise_singleton _ _))
      rw [List.reverse_cons]
      simpa using joined
    · rename_i notBefore
      have behind : less x last = false := by simpa using notBefore
      rw [List.reverse_cons, List.reverse_cons]
      refine .of_sorted (sorted.append (List.pairwise_singleton _ _) fun y inside z isZ => ?_)
      rw [List.mem_singleton.mp isZ]
      rcases List.mem_append.mp inside with inRest | isLastY
      · have isY : among y := known y (by simp [List.mem_reverse.mp inRest])
        exact order.trans isY isLast isX (cross y inRest last List.mem_cons_self) behind
      · rw [List.mem_singleton.mp isLastY]
        exact behind

/-- What is in order behind values that were put in order. -/
theorem SortsTo.append_right {xs ys more zs : List α} (first : SortsTo less among xs ys)
    (second : SortsTo less among (ys ++ more) zs) : SortsTo less among (xs ++ more) zs := by
  refine ⟨second.sorted, fun x isX => ?_, second.perm.trans (first.perm.append_right more)⟩
  rw [second.ties x isX, List.filter_append, first.ties x isX, List.filter_append]

theorem insertion_sortsTo (order : WeakOrder less among) (xs : List α)
    (known : ∀ z ∈ xs, among z) : SortsTo less among xs (insertion less xs) := by
  have inserted : ∀ (xs before reversed : List α), (∀ z ∈ before ++ xs, among z) →
      SortsTo less among before reversed.reverse →
      SortsTo less among (before ++ xs)
        (xs.foldl (fun sorted x => insertBack less x sorted) reversed).reverse := by
    intro xs
    induction xs with
    | nil =>
      intro before reversed _ sorts
      simpa using sorts
    | cons x xs ih =>
      intro before reversed known sorts
      have step := insertBack_sortsTo order x reversed (fun z member => known z (by
        rcases List.mem_append.mp member with here | there
        · exact List.mem_append_left _ (sorts.perm.subset here)
        · rw [List.mem_singleton.mp there]
          simp)) sorts.sorted
      have next := ih (before ++ [x]) (insertBack less x reversed) (by simpa using known)
        (sorts.append_right step)
      simpa using next
  have all := inserted xs [] [] (by simpa using known) (.of_sorted List.Pairwise.nil)
  rwa [List.nil_append] at all

/-! ## Bisection -/

/-- Halving finds a place before which a property holds and at which it does not. -/
theorem bisect_spec (holds : Nat → Bool) (low high : Nat) (nonempty : low ≤ high) :
    low ≤ bisect holds low high ∧ bisect holds low high ≤ high ∧
      (low < bisect holds low high → holds (bisect holds low high - 1) = true) ∧
      (bisect holds low high < high → holds (bisect holds low high) = false) := by
  fun_induction bisect holds low high with
  | case1 low high below middle found ih =>
    obtain ⟨atLeast, atMost, before, after⟩ := ih (by omega)
    refine ⟨by omega, atMost, fun _ => ?_, after⟩
    by_cases here : middle + 1 < bisect holds (middle + 1) high
    · exact before here
    · have same : bisect holds (middle + 1) high - 1 = middle := by omega
      rw [same]
      exact found
  | case2 low high below middle found ih =>
    obtain ⟨atLeast, atMost, before, after⟩ := ih (by omega)
    refine ⟨atLeast, by omega, before, fun _ => ?_⟩
    by_cases here : bisect holds low middle < middle
    · exact after here
    · have same : bisect holds low middle = middle := by omega
      rw [same]
      simpa using found
  | case3 low high empty =>
    refine ⟨Nat.le_refl _, nonempty, fun wrong => ?_, fun wrong => absurd wrong empty⟩
    exact absurd wrong (Nat.lt_irrefl _)

/-! ## Merging -/

theorem Sorted.getElem_le (order : WeakOrder less among) {xs : List α} (sorted : Sorted less xs)
    (known : ∀ z ∈ xs, among z) {a b : Nat} (below : a ≤ b) (bound : b < xs.length) :
    less xs[b] xs[a] = false := by
  rcases Nat.lt_or_eq_of_le below with strict | same
  · exact List.pairwise_iff_getElem.mp sorted a b (by omega) bound strict
  · subst same
    exact order.irrefl (known _ (List.getElem_mem _))

/-- Two sorted lists are divided at two positions if the values next to the positions are in order. -/
theorem Divides.of_positions (order : WeakOrder less among) {xs ys : List α}
    (knownX : ∀ z ∈ xs, among z) (knownY : ∀ z ∈ ys, among z) (sortedX : Sorted less xs)
    (sortedY : Sorted less ys) {i j : Nat} (boundX : i ≤ xs.length) (boundY : j ≤ ys.length)
    (kept : 0 < i → j < ys.length → lessAt less ys xs j (i - 1) = false)
    (moved : 0 < j → i < xs.length → lessAt less ys xs (j - 1) i = true) :
    Divides less (xs.take i) (xs.drop i) (ys.take j) (ys.drop j) := by
  refine ⟨by rwa [List.take_append_drop], by rwa [List.take_append_drop], ?_, ?_⟩
  · intro x inX y inY
    obtain ⟨a, boundA, rfl⟩ := List.mem_take_iff_getElem.mp inX
    obtain ⟨b, boundB, rfl⟩ := List.mem_drop_iff_getElem.mp inY
    have inside : i - 1 < xs.length := by omega
    have first : j < ys.length := by omega
    have ends := kept (by omega) first
    simp only [lessAt, List.getElem?_eq_getElem inside, List.getElem?_eq_getElem first] at ends
    have before := sortedX.getElem_le order knownX (show a ≤ i - 1 by omega) inside
    have after := sortedY.getElem_le order knownY (show j ≤ j + b by omega) (by omega)
    have isX : among xs[a] := knownX _ (List.getElem_mem _)
    have isLast : among xs[i - 1] := knownX _ (List.getElem_mem _)
    have isFirst : among ys[j] := knownY _ (List.getElem_mem _)
    have isY : among ys[j + b] := knownY _ (List.getElem_mem _)
    exact order.trans isX isFirst isY (order.trans isX isLast isFirst before ends) after
  · intro y inY x inX
    obtain ⟨b, boundB, rfl⟩ := List.mem_take_iff_getElem.mp inY
    obtain ⟨a, boundA, rfl⟩ := List.mem_drop_iff_getElem.mp inX
    have inside : j - 1 < ys.length := by omega
    have first : i < xs.length := by omega
    have ends := moved (by omega) first
    simp only [lessAt, List.getElem?_eq_getElem inside, List.getElem?_eq_getElem first] at ends
    have before := sortedY.getElem_le order knownY (show b ≤ j - 1 by omega) inside
    have after := sortedX.getElem_le order knownX (show i ≤ i + a by omega) (by omega)
    have isY : among ys[b] := knownY _ (List.getElem_mem _)
    have isLast : among ys[j - 1] := knownY _ (List.getElem_mem _)
    have isFirst : among xs[i] := knownX _ (List.getElem_mem _)
    have isX : among xs[i + a] := knownX _ (List.getElem_mem _)
    exact order.lt_of_lt_of_le isY isFirst isX
      (order.lt_of_le_of_lt isY isLast isFirst before ends) after

/-- How many values of two blocks stand before the middle of the merged block. -/
theorem share_spec (less : α → α → Bool) (xs ys : List α) {middle : Nat}
    (inside : middle ≤ xs.length + ys.length) :
    share less xs ys middle ≤ xs.length ∧ share less xs ys middle ≤ middle ∧
      middle - share less xs ys middle ≤ ys.length ∧
      (0 < share less xs ys middle → middle - share less xs ys middle < ys.length →
        lessAt less ys xs (middle - share less xs ys middle) (share less xs ys middle - 1) = false) ∧
      (0 < middle - share less xs ys middle → share less xs ys middle < xs.length →
        lessAt less ys xs (middle - share less xs ys middle - 1) (share less xs ys middle) =
          true) := by
  obtain ⟨atLeast, atMost, before, after⟩ := bisect_spec
    (fun i => !lessAt less ys xs (middle - 1 - i) i) (middle - ys.length) (min middle xs.length)
    (by omega)
  rw [← share.eq_def] at atLeast atMost before after
  refine ⟨by omega, by omega, by omega, fun positive bound => ?_, fun positive bound => ?_⟩
  · have previous : middle - 1 - (share less xs ys middle - 1) =
        middle - share less xs ys middle := by omega
    have holds := before (by omega)
    rw [previous] at holds
    simpa using holds
  · have next : middle - 1 - share less xs ys middle = middle - share less xs ys middle - 1 := by
      omega
    have fails := after (by omega)
    rw [next] at fails
    simpa using fails

/-- Merging sorted blocks gives their values in order. -/
theorem merge_sortsTo (order : WeakOrder less among) (xs ys : List α)
    (known : ∀ z ∈ xs ++ ys, among z) (sortedX : Sorted less xs) (sortedY : Sorted less ys) :
    SortsTo less among (xs ++ ys) (merge less xs ys) := by
  fun_induction merge less xs ys with
  | case1 xs ys empty =>
    rw [List.length_eq_zero_iff.mp empty]
    exact .of_sorted sortedY
  | case2 xs ys _ empty =>
    rw [List.length_eq_zero_iff.mp empty, List.append_nil]
    exact .of_sorted sortedX
  | case3 xs ys _ _ single i =>
    obtain ⟨knownX, knownY⟩ := List.forall_mem_append.mp known
    obtain ⟨x, rfl⟩ := List.length_eq_one_iff.mp single
    obtain ⟨_, atMost, before, after⟩ :=
      bisect_spec (fun i => lessAt less ys [x] i 0) 0 ys.length (Nat.zero_le _)
    have divides : Divides less [] [x] (ys.take i) (ys.drop i) :=
      .of_positions order knownX knownY sortedX sortedY (i := 0) (Nat.zero_le _) atMost
        (fun wrong => absurd wrong (Nat.lt_irrefl _)) fun positive _ => before positive
    have behind : Divides less [x] [] (ys.take i) (ys.drop i) :=
      .of_positions order knownX knownY sortedX sortedY (i := 1) (Nat.le_refl _) atMost
        (fun _ bound => after bound) fun _ wrong => absurd wrong (Nat.lt_irrefl _)
    have joined := divides.join order (by simpa using known)
      (.of_sorted (sortedY.sublist (List.take_sublist i ys)))
      (.of_sorted (sortedX.append (sortedY.sublist (List.drop_sublist i ys)) behind.kept))
    simpa using joined
  | case4 xs ys _ _ _ single i =>
    obtain ⟨knownX, knownY⟩ := List.forall_mem_append.mp known
    obtain ⟨y, rfl⟩ := List.length_eq_one_iff.mp single
    obtain ⟨_, atMost, before, after⟩ :=
      bisect_spec (fun i => !lessAt less [y] xs 0 i) 0 xs.length (Nat.zero_le _)
    have divides : Divides less (xs.take i) (xs.drop i) [y] [] :=
      .of_positions order knownX knownY sortedX sortedY (j := 1) atMost (Nat.le_refl _)
        (fun _ wrong => absurd wrong (Nat.lt_irrefl _)) fun _ bound => by simpa using after bound
    have before : Divides less (xs.take i) (xs.drop i) [] [y] :=
      .of_positions order knownX knownY sortedX sortedY (j := 0) atMost (Nat.zero_le _)
        (fun positive _ => by simpa using before positive) fun wrong => absurd wrong (Nat.lt_irrefl _)
    have joined := divides.join order (by simpa using known)
      (.of_sorted ((sortedX.sublist (List.take_sublist i xs)).append sortedY before.kept))
      (.of_sorted (by simpa using sortedX.sublist (List.drop_sublist i xs)))
    simpa using joined
  | case5 xs ys _ _ _ _ middle i first second =>
    obtain ⟨knownX, knownY⟩ := List.forall_mem_append.mp known
    obtain ⟨boundX, _, boundY, kept, moved⟩ :=
      share_spec less xs ys (show middle ≤ xs.length + ys.length by omega)
    have divides : Divides less (xs.take i) (xs.drop i) (ys.take (middle - i))
        (ys.drop (middle - i)) :=
      .of_positions order knownX knownY sortedX sortedY boundX boundY kept moved
    have firsts := first (List.forall_mem_append.mpr
      ⟨fun z member => knownX z (List.mem_of_mem_take member),
        fun z member => knownY z (List.mem_of_mem_take member)⟩)
      (sortedX.sublist (List.take_sublist _ _)) (sortedY.sublist (List.take_sublist _ _))
    have seconds := second (List.forall_mem_append.mpr
      ⟨fun z member => knownX z (List.mem_of_mem_drop member),
        fun z member => knownY z (List.mem_of_mem_drop member)⟩)
      (sortedX.sublist (List.drop_sublist _ _)) (sortedY.sublist (List.drop_sublist _ _))
    have joined := divides.join order (by rwa [List.take_append_drop, List.take_append_drop])
      firsts seconds
    rwa [List.take_append_drop, List.take_append_drop] at joined

/-! ## Rounds -/

/-- Blocks that are in order, each of known values. -/
def AllSorted (less : α → α → Bool) (among : α → Prop) (blocks : List (List α)) : Prop :=
  ∀ block ∈ blocks, Sorted less block ∧ ∀ z ∈ block, among z

theorem SortsTo.known {xs ys : List α} (sorts : SortsTo less among xs ys)
    (known : ∀ z ∈ xs, among z) : ∀ z ∈ ys, among z :=
  fun z member => known z (sorts.perm.subset member)

theorem SameTies.append {xs₁ xs₂ ys₁ ys₂ : List α} (first : SameTies less among xs₁ ys₁)
    (second : SameTies less among xs₂ ys₂) : SameTies less among (xs₁ ++ xs₂) (ys₁ ++ ys₂) := by
  intro x isX
  rw [List.filter_append, List.filter_append, first x isX, second x isX]

/-- Merging neighbours leaves fewer blocks in order, with the same ties. -/
theorem mergeNeighbours_sorted (order : WeakOrder less among) (blocks : List (List α))
    (sorted : AllSorted less among blocks) :
    AllSorted less among (mergeNeighbours less blocks) ∧
      SameTies less among (mergeNeighbours less blocks).flatten blocks.flatten := by
  fun_induction mergeNeighbours less blocks with
  | case1 xs ys rest ih =>
    obtain ⟨sortedX, knownX⟩ := sorted xs (by simp)
    obtain ⟨sortedY, knownY⟩ := sorted ys (by simp)
    have known := List.forall_mem_append.mpr ⟨knownX, knownY⟩
    have merged := merge_sortsTo order xs ys known sortedX sortedY
    obtain ⟨sortedRest, ties⟩ := ih fun block member => sorted block (by simp [member])
    refine ⟨fun block member => ?_, ?_⟩
    · rcases List.mem_cons.mp member with rfl | there
      · exact ⟨merged.sorted, merged.known known⟩
      · exact sortedRest block there
    · rw [List.flatten_cons, List.flatten_cons, List.flatten_cons, ← List.append_assoc]
      exact merged.ties.append ties
  | case2 blocks _ => exact ⟨sorted, fun _ _ => rfl⟩

theorem mergeAll_sortsTo (order : WeakOrder less among) (blocks : List (List α))
    (sorted : AllSorted less among blocks) :
    SortsTo less among blocks.flatten (mergeAll less blocks) := by
  fun_induction mergeAll less blocks with
  | case1 => exact .of_sorted List.Pairwise.nil
  | case2 xs => simpa using SortsTo.of_sorted (sorted xs (by simp)).1
  | case3 xs ys rest ih =>
    -- one round of merging neighbours has taken place
    have round : merge less xs ys :: mergeNeighbours less rest =
        mergeNeighbours less (xs :: ys :: rest) := by
      rw [mergeNeighbours]
    obtain ⟨sortedRound, ties⟩ := mergeNeighbours_sorted order (xs :: ys :: rest) sorted
    rw [round] at ih ⊢
    have merged := ih sortedRound
    refine ⟨merged.sorted, fun x isX => (merged.ties x isX).trans (ties x isX), ?_⟩
    exact merged.perm.trans (mergeNeighbours_perm less _)

theorem mem_blocks {xs block : List α} (member : block ∈ blocks xs) : ∀ z ∈ block, z ∈ xs := by
  intro z inside
  rw [← flatten_blocks xs]
  exact List.mem_flatten_of_mem member inside

/-- Sorting by a weak order puts values in order and keeps the order of ties. -/
theorem sort_sortsTo (order : WeakOrder less among) (xs : List α) (known : ∀ z ∈ xs, among z) :
    SortsTo less among xs (sort less xs) := by
  have inserted : ∀ block ∈ blocks xs, SortsTo less among block (insertion less block) :=
    fun block member =>
      insertion_sortsTo order block fun z inside => known z (mem_blocks member z inside)
  have sorted : AllSorted less among ((blocks xs).map (insertion less)) := by
    intro block member
    obtain ⟨original, inside, rfl⟩ := List.mem_map.mp member
    exact ⟨(inserted original inside).sorted,
      (inserted original inside).known fun z here => known z (mem_blocks inside z here)⟩
  have merged := mergeAll_sortsTo order _ sorted
  refine ⟨merged.sorted, fun x isX => ?_, sort_perm less xs⟩
  have blockwise : ((blocks xs).map (insertion less)).flatten.filter (tied less x) =
      (blocks xs).flatten.filter (tied less x) := by
    rw [List.filter_flatten, List.filter_flatten, List.map_map]
    refine congrArg List.flatten (List.map_congr_left fun block member => ?_)
    exact (inserted block member).ties x isX
  exact (merged.ties x isX).trans (blockwise.trans (by rw [flatten_blocks]))

end DocTable.Sorting
