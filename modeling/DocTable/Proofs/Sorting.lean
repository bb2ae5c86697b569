import DocTable.Sorting

/-!
# Sorting rearranges

Whatever is asked of the values and whatever the answers are, sorting neither loses nor repeats a
value (`sort_perm`).  Every step rearranges: inserting, merging two blocks, and merging neighbours.
-/

namespace DocTable.Sorting

set_option autoImplicit false

variable {α : Type} (less : α → α → Bool)

theorem insertBack_perm (x : α) (xs : List α) : (insertBack less x xs).Perm (x :: xs) := by
  induction xs with
  | nil => exact .refl _
  | cons last rest ih =>
    rw [insertBack]
    split
    · exact (ih.cons last).trans (.swap x last rest)
    · exact .refl _

theorem insertion_perm (xs : List α) : (insertion less xs).Perm xs := by
  have inserted : ∀ (xs sorted : List α),
      (xs.foldl (fun sorted x => insertBack less x sorted) sorted).Perm (xs ++ sorted) := by
    intro xs
    induction xs with
    | nil => exact fun _ => .refl _
    | cons x xs ih =>
      intro sorted
      refine (ih _).trans (((insertBack_perm less x sorted).append_left xs).trans ?_)
      exact List.perm_middle
  have all := inserted xs []
  rw [List.append_nil] at all
  exact (List.reverse_perm _).trans all

theorem merge_perm (xs ys : List α) : (merge less xs ys).Perm (xs ++ ys) := by
  -- what is cut at a position and put together around other values
  have around : ∀ (i : Nat) (zs others : List α),
      (zs.take i ++ others ++ zs.drop i).Perm (others ++ zs) := by
    intro i zs others
    refine (List.perm_append_comm.append_right _).trans ?_
    rw [List.append_assoc, List.take_append_drop]
  fun_induction merge less xs ys with
  | case1 xs ys empty => simp [List.length_eq_zero_iff.mp empty]
  | case2 xs ys _ empty => simp [List.length_eq_zero_iff.mp empty]
  | case3 xs ys _ _ _ i => exact around i ys xs
  | case4 xs ys _ _ _ _ i => exact (around i xs ys).trans List.perm_append_comm
  | case5 xs ys _ _ _ _ middle i first second =>
    have exchanged : (ys.take (middle - i) ++ xs.drop i).Perm
        (xs.drop i ++ ys.take (middle - i)) :=
      List.perm_append_comm
    calc
      List.Perm _ ((xs.take i ++ ys.take (middle - i)) ++ (xs.drop i ++ ys.drop (middle - i))) :=
        first.append second
      _ = xs.take i ++ (ys.take (middle - i) ++ xs.drop i) ++ ys.drop (middle - i) := by
        simp only [List.append_assoc]
      List.Perm _ (xs.take i ++ (xs.drop i ++ ys.take (middle - i)) ++ ys.drop (middle - i)) :=
        (exchanged.append_left _).append_right _
      _ = (xs.take i ++ xs.drop i) ++ (ys.take (middle - i) ++ ys.drop (middle - i)) := by
        simp only [List.append_assoc]
      _ = xs ++ ys := by rw [List.take_append_drop, List.take_append_drop]

theorem mergeNeighbours_perm (blocks : List (List α)) :
    (mergeNeighbours less blocks).flatten.Perm blocks.flatten := by
  fun_induction mergeNeighbours less blocks with
  | case1 xs ys rest ih =>
    rw [List.flatten_cons, List.flatten_cons, List.flatten_cons, ← List.append_assoc]
    exact (merge_perm less xs ys).append ih
  | case2 blocks _ => exact .refl _

theorem mergeAll_perm (blocks : List (List α)) : (mergeAll less blocks).Perm blocks.flatten := by
  fun_induction mergeAll less blocks with
  | case1 => exact .refl _
  | case2 xs => simp
  | case3 xs ys rest ih =>
    refine ih.trans ?_
    rw [List.flatten_cons, List.flatten_cons, List.flatten_cons, ← List.append_assoc]
    exact (merge_perm less xs ys).append (mergeNeighbours_perm less rest)

theorem flatten_blocks (xs : List α) : (blocks xs).flatten = xs := by
  fun_induction blocks xs with
  | case1 xs empty => simp [List.length_eq_zero_iff.mp empty]
  | case2 xs _ ih => rw [List.flatten_cons, ih, List.take_append_drop]

theorem flatten_map_insertion_perm (blocks : List (List α)) :
    (blocks.map (insertion less)).flatten.Perm blocks.flatten := by
  induction blocks with
  | nil => exact .refl _
  | cons block rest ih =>
    rw [List.map_cons, List.flatten_cons, List.flatten_cons]
    exact (insertion_perm less block).append ih

/-- Sorting rearranges. -/
theorem sort_perm (xs : List α) : (sort less xs).Perm xs := by
  refine (mergeAll_perm less _).trans ((flatten_map_insertion_perm less _).trans ?_)
  rw [flatten_blocks]

end DocTable.Sorting
