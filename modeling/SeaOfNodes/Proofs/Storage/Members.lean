import Mathlib.Data.Finset.Dedup
import Mathlib.Data.Nat.Count
import SeaOfNodes.Storage.BitSet

/-!
# The members of a bit set

A bit set is a finite set of naturals (`BitSet.members`).  Every insertion adds one member to it,
and the weights of the words add up to its size.  So what a sequence of insertions leaves is the set
of what was inserted, whatever capacity it began with and however often the words had to be
extended on the way (**`insertAll_exact`**).

### What is load-bearing

Membership is read in one word, and the size is added up over all of them.  The two meet in
`count_eq_natCount`, where the words are read as one row of bits: behind the end of the first word
the row goes on as the row of the others does from its start (`contains_cons_add`).
-/

namespace SeaOfNodes

namespace BitSet

variable {s : BitSet} {i j : Nat}

/-! ## Members -/

/-- The members as a finite set. -/
def members (s : BitSet) : Finset Nat :=
  {i ∈ Finset.range (64 * s.words.size) | s.contains i = true}

/-- No bit is set past the last word. -/
theorem lt_of_contains (h : s.contains i = true) : i < 64 * s.words.size := by
  refine Nat.lt_of_not_le fun hle => ?_
  rw [contains, word_eq_zero_of_size_le (by omega)] at h
  simp at h

@[simp] theorem mem_members : i ∈ s.members ↔ s.contains i = true := by
  rw [members, Finset.mem_filter, Finset.mem_range, and_iff_right_iff_imp]
  exact lt_of_contains

/-! ## The number of members -/

theorem count_cons (w : BitVec 64) (ws : List (BitVec 64)) :
    (BitSet.mk (w :: ws).toArray).count = weight w + (BitSet.mk ws.toArray).count := by
  have hfold : ∀ n, ws.foldl (fun count w => count + weight w) n =
      (ws.map weight).foldl (· + ·) n := fun n => List.foldl_map.symm
  have hassoc : (ws.map weight).foldl (· + ·) (weight w + 0) =
      weight w + (ws.map weight).foldl (· + ·) 0 := List.foldl_assoc
  simpa only [count, List.foldl_toArray, List.foldl_cons, hfold, Nat.zero_add, Nat.add_zero]
    using hassoc

/-- The bits of the first word. -/
theorem contains_cons_of_lt (w : BitVec 64) (ws : List (BitVec 64)) (h : i < 64) :
    (BitSet.mk (w :: ws).toArray).contains i = w.getLsbD i := by
  simp [contains, word, Nat.div_eq_of_lt h, Nat.mod_eq_of_lt h]

/-- Behind the first word come the bits of the others. -/
theorem contains_cons_add (w : BitVec 64) (ws : List (BitVec 64)) (i : Nat) :
    (BitSet.mk (w :: ws).toArray).contains (64 + i) = (BitSet.mk ws.toArray).contains i := by
  have hword : (64 + i) / 64 = i / 64 + 1 := by omega
  have hbit : (64 + i) % 64 = i % 64 := by omega
  simp [contains, word, hword, hbit, Array.getD_eq_getD_getElem?]

/-- The words as one row of bits.  The induction is on the words, the first of which is counted
apart. -/
theorem count_eq_natCount (ws : List (BitVec 64)) :
    (BitSet.mk ws.toArray).count =
      Nat.count (fun i => (BitSet.mk ws.toArray).contains i = true) (64 * ws.length) := by
  induction ws with
  | nil => rfl
  | cons w ws ih =>
      have hlength : 64 * (w :: ws).length = 64 + 64 * ws.length := by
        rw [List.length_cons]
        omega
      have hfirst : weight w =
          Nat.count (fun i => (BitSet.mk (w :: ws).toArray).contains i = true) 64 := by
        rw [weight, Nat.count]
        refine List.countP_congr fun i hi => ?_
        rw [contains_cons_of_lt w ws (List.mem_range.mp hi), decide_eq_true_eq]
      rw [count_cons, hlength, Nat.count_add, hfirst, ih]
      simp only [contains_cons_add]

/-- **The size of a bit set is the number of its members.** -/
theorem count_eq_card (s : BitSet) : s.count = s.members.card := by
  rw [members, ← Nat.count_eq_card_filter_range]
  exact count_eq_natCount s.words.toList

/-! ## Sequences of insertions -/

/-- Add the listed naturals one after the other, and tell of each whether it was no member
before. -/
def insertAll (s : BitSet) : List Nat → List Bool × BitSet
  | [] => ([], s)
  | i :: is =>
    let (fresh, inserted) := s.insertFresh i
    let (answers, last) := inserted.insertAll is
    (fresh :: answers, last)

theorem insertAll_cons (s : BitSet) (i : Nat) (is : List Nat) :
    s.insertAll (i :: is) =
      ((!s.contains i) :: ((s.insert i).insertAll is).1, ((s.insert i).insertAll is).2) := by
  rw [insertAll, insertFresh_eq]

/-- Every insertion keeps the members and adds its own. -/
theorem contains_insertAll (s : BitSet) (is : List Nat) :
    (s.insertAll is).2.contains j = true ↔ j ∈ is ∨ s.contains j = true := by
  induction is generalizing s with
  | nil => simp [insertAll]
  | cons i is ih =>
      rw [insertAll_cons, ih, contains_insert, List.mem_cons, Bool.or_eq_true, decide_eq_true_eq,
        eq_comm (a := i), or_left_comm, or_assoc]

/-- An insertion is fresh when its number is no member at the start and was not inserted since. -/
theorem getElem?_insertAll (s : BitSet) (is : List Nat) (k : Nat) :
    (s.insertAll is).1[k]? = is[k]?.map fun i => !s.contains i && decide (i ∉ is.take k) := by
  induction is generalizing s k with
  | nil => simp [insertAll]
  | cons i is ih =>
      rw [insertAll_cons]
      cases k with
      | zero => simp
      | succ k =>
          rw [List.getElem?_cons_succ, List.getElem?_cons_succ, ih]
          refine congrArg (Option.map · is[k]?) (funext fun j => ?_)
          rw [contains_insert, List.take_succ_cons]
          by_cases hj : i = j
          · simp [hj]
          · simp [hj, Ne.symm hj]

/-- **A bit set is a set of naturals.**  After any sequence of insertions into a new set, of
whatever capacity:

* The members are what was inserted.
* An insertion was fresh if its number had not been inserted before.
* Further words change no membership, and an insertion that takes them no other than its own.
* The size is the number of different naturals among those inserted. -/
theorem insertAll_exact (hs : s = empty ∨ ∃ capacity, s = withCapacity capacity)
    (is : List Nat) :
    ∃ answers t, s.insertAll is = (answers, t) ∧
      (∀ i, t.contains i = true ↔ i ∈ is) ∧
      (∀ k : Nat, answers[k]? = is[k]?.map fun i => decide (i ∉ is.take k)) ∧
      (∀ i, (t.grow i).words.size = max t.words.size (i / 64 + 1) ∧
        (∀ j, (t.grow i).contains j = t.contains j) ∧
        ∀ j ≠ i, (t.insertFresh i).2.contains j = t.contains j) ∧
      t.count = is.toFinset.card := by
  have hempty : ∀ i, s.contains i = false := by
    intro i
    obtain rfl | ⟨capacity, rfl⟩ := hs
    · exact contains_empty i
    · exact contains_withCapacity capacity i
  have hmem : ∀ i, (s.insertAll is).2.contains i = true ↔ i ∈ is := by
    intro i
    rw [contains_insertAll, hempty]
    simp
  refine ⟨_, _, rfl, hmem, fun k => ?_, fun i => ⟨size_grow _ i, contains_grow _ i, ?_⟩, ?_⟩
  · rw [getElem?_insertAll]
    simp only [hempty, Bool.not_false, Bool.true_and]
  · intro j hne
    rw [insertFresh_eq, contains_insert, decide_eq_false (Ne.symm hne), Bool.false_or]
  · have hmembers : (s.insertAll is).2.members = is.toFinset := by
      ext i
      rw [mem_members, hmem, List.mem_toFinset]
    rw [count_eq_card, hmembers]

/-- Insertions around the ends of the first two words, the second of which was not there. -/
theorem insertAll_exact_pastCapacity :
    ((withCapacity 10).insertAll [63, 64, 63, 130]).1 = [true, true, false, true] ∧
      ((withCapacity 10).insertAll [63, 64, 63, 130]).2.count = 3 ∧
      ((withCapacity 10).insertAll [63, 64, 63, 130]).2.contains 127 = false := by
  obtain ⟨answers, t, hrun, hmem, hanswers, -, hcount⟩ :=
    insertAll_exact (.inr ⟨10, rfl⟩) [63, 64, 63, 130]
  rw [hrun]
  refine ⟨List.ext_getElem? fun k => ?_, hcount.trans (by decide), ?_⟩
  · rw [hanswers]
    match k with
    | 0 | 1 | 2 | 3 => rfl
    | _ + 4 => rfl
  · rw [Bool.eq_false_iff, Ne, hmem]
    decide

end BitSet

end SeaOfNodes
