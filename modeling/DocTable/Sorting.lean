/-!
# Sorting in place of a total order

Values that are compared only in part (numbers beside texts that are no numbers) still have to come
out in one definite sequence.  Where the comparison is a weak order, what is computed here is the
stable sorting: the values in order, and equal ones as they stood.  Where it is not, the sequence is
the outcome of a fixed procedure, in which every question that is asked is determined by the lengths
of the lists and by the answers so far.

The procedure sorts blocks of twenty values by insertion and then merges neighbouring blocks, round
after round.  Two blocks are merged by symmetry: the middle of the merged block is known, so it is
enough to find how many values of the first block stand before it, and to merge both halves.
-/

namespace DocTable.Sorting

set_option autoImplicit false

variable {α : Type} (less : α → α → Bool)

/-! ## Insertion -/

/-- Puts a value behind the last of those, listed from the last to the first, that it does not
precede. -/
def insertBack (x : α) : List α → List α
  | [] => [x]
  | last :: rest => if less x last then last :: insertBack x rest else x :: last :: rest

/-- The values of a block in order. -/
def insertion (xs : List α) : List α :=
  (xs.foldl (fun sorted x => insertBack less x sorted) []).reverse

/-! ## Bisection -/

/-- The position between `low` and `high` before which a property holds, found by halving. -/
def bisect (holds : Nat → Bool) (low high : Nat) : Nat :=
  if low < high then
    let middle := (low + high) / 2
    if holds middle then bisect holds (middle + 1) high else bisect holds low middle
  else low
termination_by high - low

/-- Whether a value of one list precedes a value of another. -/
def lessAt (xs ys : List α) (i j : Nat) : Bool :=
  match xs[i]?, ys[j]? with
  | some x, some y => less x y
  | _, _ => false

/-- How many values of the first of two blocks stand before the middle of the merged block. -/
def share (xs ys : List α) (middle : Nat) : Nat :=
  let low := middle - ys.length
  let high := min middle xs.length
  bisect (fun i => !lessAt less ys xs (middle - 1 - i) i) low high

/-! ## Merging -/

/-- Two sorted blocks as one. -/
def merge (xs ys : List α) : List α :=
  if xs.length = 0 then ys
  else if ys.length = 0 then xs
  else if xs.length = 1 then
    let i := bisect (fun i => lessAt less ys xs i 0) 0 ys.length
    ys.take i ++ xs ++ ys.drop i
  else if ys.length = 1 then
    let i := bisect (fun i => !lessAt less ys xs 0 i) 0 xs.length
    xs.take i ++ ys ++ xs.drop i
  else
    let middle := (xs.length + ys.length) / 2
    let i := share less xs ys middle
    merge (xs.take i) (ys.take (middle - i)) ++ merge (xs.drop i) (ys.drop (middle - i))
termination_by xs.length + ys.length
decreasing_by
  all_goals
    simp only [List.length_take, List.length_drop]
    omega

/-- Every block merged with the one behind it. -/
def mergeNeighbours : List (List α) → List (List α)
  | xs :: ys :: rest => merge less xs ys :: mergeNeighbours rest
  | blocks => blocks

/-- A round leaves no more blocks than there were. -/
theorem length_mergeNeighbours_le (blocks : List (List α)) :
    (mergeNeighbours less blocks).length ≤ blocks.length := by
  fun_induction mergeNeighbours less blocks with
  | case1 xs ys rest ih => simp only [List.length_cons]; omega
  | case2 blocks _ => exact Nat.le_refl _

/-- All blocks merged, round after round. -/
def mergeAll : List (List α) → List α
  | [] => []
  | [xs] => xs
  | xs :: ys :: rest => mergeAll (merge less xs ys :: mergeNeighbours less rest)
termination_by blocks => blocks.length
decreasing_by
  have := length_mergeNeighbours_le less rest
  simp only [List.length_cons]
  omega

/-! ## Sorting -/

/-- How many values a block has. -/
def blockSize : Nat := 20

/-- A list cut into blocks, the last of them perhaps shorter. -/
def blocks (xs : List α) : List (List α) :=
  if xs.length = 0 then [] else xs.take blockSize :: blocks (xs.drop blockSize)
termination_by xs.length
decreasing_by
  simp only [List.length_drop, blockSize]
  omega

/-- Values in order. -/
def sort (xs : List α) : List α := mergeAll less ((blocks xs).map (insertion less))

end DocTable.Sorting
