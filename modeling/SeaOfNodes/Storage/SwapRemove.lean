/-!
# Removal by swapping

Removing an entry from an unordered list without moving the entries behind it: the last entry takes
the place of the removed one.  The order of the result shows which entry was removed, so it is fixed
here exactly; as a multiset the result is that of `List.erase` (`swapRemove_perm`).
-/

namespace SeaOfNodes

variable {α : Type}

/-- The last entry moved to the front. -/
def lastToFront (xs : List α) : List α :=
  match xs.getLast? with
  | some last => last :: xs.dropLast
  | none => []

/-- Remove the first occurrence of `x`, if there is one; the last entry takes its place. -/
def swapRemove [DecidableEq α] (x : α) : List α → List α
  | [] => []
  | y :: ys => if y = x then lastToFront ys else y :: swapRemove x ys

theorem lastToFront_perm (xs : List α) : (lastToFront xs).Perm xs := by
  rcases List.eq_nil_or_concat xs with rfl | ⟨init, last, rfl⟩
  · exact .refl _
  · have h : ([last] ++ init).Perm (init ++ [last]) := List.perm_append_comm
    simpa [lastToFront] using h

/-- Of equal entries it does not show which one was moved. -/
theorem lastToFront_replicate (n : Nat) (x : α) :
    lastToFront (List.replicate n x) = List.replicate n x := by
  rcases n with _ | n
  · rfl
  · rw [lastToFront, List.getLast?_replicate, if_neg (Nat.succ_ne_zero n), List.dropLast_replicate]
    rfl

variable [DecidableEq α]

/-- Up to order, one occurrence of `x` is gone. -/
theorem swapRemove_perm (x : α) (xs : List α) : (swapRemove x xs).Perm (xs.erase x) := by
  induction xs with
  | nil => exact .refl _
  | cons y ys ih =>
    rw [swapRemove, List.erase_cons]
    by_cases h : y = x
    · simpa [h] using lastToFront_perm ys
    · simpa [h] using ih

/-- Multiplicities after a removal. -/
theorem count_swapRemove (x z : α) (xs : List α) :
    (swapRemove x xs).count z = xs.count z - if x = z then 1 else 0 := by
  rw [(swapRemove_perm x xs).count_eq, List.count_erase]
  simp [beq_iff_eq]

/-- Of what was appended to a list in which it did not occur, one entry less is left, and nothing
else has moved. -/
theorem swapRemove_append_replicate {x : α} {xs : List α} (h : x ∉ xs) (n : Nat) :
    swapRemove x (xs ++ List.replicate (n + 1) x) = xs ++ List.replicate n x := by
  induction xs with
  | nil =>
    rw [List.nil_append, List.replicate_succ, swapRemove, if_pos rfl, lastToFront_replicate]
    rfl
  | cons y ys ih =>
    simp only [List.mem_cons, not_or] at h
    rw [List.cons_append, swapRemove, if_neg (Ne.symm h.1), ih h.2, List.cons_append]

/-- An entry that was appended last is removed without a trace, wherever else it occurs: the last
entry takes the place of an equal one. -/
theorem swapRemove_concat_self (x : α) (xs : List α) : swapRemove x (xs ++ [x]) = xs := by
  induction xs with
  | nil => simp [swapRemove, lastToFront]
  | cons y ys ih =>
    rw [List.cons_append, swapRemove]
    split
    · next h => simp [lastToFront, h]
    · rw [ih]

end SeaOfNodes
