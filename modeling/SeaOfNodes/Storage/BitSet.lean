/-!
# Bit sets

A set of naturals as words of 64 bits, grown to hold what is inserted.  Two bit sets are equal when
their words are, so sets of one membership but of different capacity are told apart.

Words that are added hold no members (`contains_grow`).  An insertion tells whether it was fresh,
which is a test for membership (`insertFresh_eq`); membership after it is `contains_insert`.
-/

namespace SeaOfNodes

/-- A set of naturals, 64 of them to a word. -/
structure BitSet where
  /-- Bit `j` of word `i` stands for `64 * i + j`. -/
  words : Array (BitVec 64)
deriving DecidableEq

namespace BitSet

/-- The set without words. -/
def empty : BitSet := ⟨#[]⟩

instance : Inhabited BitSet := ⟨empty⟩

/-- The empty set with the words that members below `n` need. -/
def withCapacity (n : Nat) : BitSet := ⟨Array.replicate ((n + 63) / 64) 0⟩

/-- The word that holds the bit of `i`, zero past the last word. -/
def word (s : BitSet) (i : Nat) : BitVec 64 := s.words.getD (i / 64) 0

/-- Whether `i` is a member. -/
def contains (s : BitSet) (i : Nat) : Bool := (s.word i).getLsbD (i % 64)

/-- Add the zero words that the bit of `i` takes; a set never loses words. -/
def grow (s : BitSet) (i : Nat) : BitSet :=
  ⟨s.words ++ Array.replicate (i / 64 + 1 - s.words.size) 0⟩

/-- Add `i` and tell whether its bit was clear before. -/
def insertFresh (s : BitSet) (i : Nat) : Bool × BitSet :=
  let grown := s.grow i
  let mask := BitVec.twoPow 64 (i % 64)
  (grown.word i &&& mask == 0, ⟨grown.words.modify (i / 64) (· ||| mask)⟩)

/-- Add `i`. -/
def insert (s : BitSet) (i : Nat) : BitSet := (s.insertFresh i).2

/-- The number of bits set in a word. -/
def weight (w : BitVec 64) : Nat := (List.range 64).countP w.getLsbD

/-- The number of members. -/
def count (s : BitSet) : Nat := s.words.foldl (fun count w => count + weight w) 0

@[simp] theorem contains_empty (i : Nat) : empty.contains i = false := by
  simp [contains, word, empty]

@[simp] theorem contains_withCapacity (n i : Nat) : (withCapacity n).contains i = false := by
  simp only [contains, word, withCapacity, Array.getD_eq_getD_getElem?, Array.getElem?_replicate]
  split <;> simp

theorem word_eq_zero_of_size_le {s : BitSet} {i : Nat} (h : s.words.size ≤ i / 64) :
    s.word i = 0 := by
  rw [word, Array.getD_eq_getD_getElem?, Array.getElem?_eq_none h]
  rfl

/-- The words of a set that has grown. -/
theorem getElem?_grow (s : BitSet) (i j : Nat) :
    (s.grow i).words[j / 64]? =
      if j / 64 < max s.words.size (i / 64 + 1) then some (s.word j) else none := by
  rw [grow, Array.getElem?_append, Array.getElem?_replicate]
  by_cases hold : j / 64 < s.words.size
  · rw [if_pos hold, if_pos (by omega), word]
    simp [hold]
  · rw [if_neg hold, word_eq_zero_of_size_le (Nat.le_of_not_lt hold)]
    by_cases hnew : j / 64 < i / 64 + 1
    · rw [if_pos (by omega), if_pos (by omega)]
    · rw [if_neg (by omega), if_neg (by omega)]

@[simp] theorem word_grow (s : BitSet) (i j : Nat) : (s.grow i).word j = s.word j := by
  rw [word, Array.getD_eq_getD_getElem?, getElem?_grow]
  split
  · rfl
  · exact (word_eq_zero_of_size_le (by omega)).symm

/-- Growing adds no members. -/
@[simp] theorem contains_grow (s : BitSet) (i j : Nat) :
    (s.grow i).contains j = s.contains j := by
  rw [contains, word_grow, contains]

theorem size_grow (s : BitSet) (i : Nat) :
    (s.grow i).words.size = max s.words.size (i / 64 + 1) := by
  simp only [grow, Array.size_append, Array.size_replicate]
  omega

/-- The words after an insertion: the word of `i` gains one bit. -/
theorem word_insert (s : BitSet) (i j : Nat) :
    (s.insert i).word j =
      if i / 64 = j / 64 then s.word j ||| BitVec.twoPow 64 (i % 64) else s.word j := by
  -- an insertion grows the set and sets one bit
  have hset : s.insert i =
      ⟨(s.grow i).words.modify (i / 64) (· ||| BitVec.twoPow 64 (i % 64))⟩ := rfl
  rw [hset, word, Array.getD_eq_getD_getElem?, Array.getElem?_modify, getElem?_grow]
  by_cases h : i / 64 = j / 64
  · rw [if_pos h, if_pos (by omega), if_pos h]
    rfl
  · rw [if_neg h, if_neg h]
    split
    · rfl
    · exact (word_eq_zero_of_size_le (by omega)).symm

/-- Insertion adds one member and touches no other. -/
theorem contains_insert (s : BitSet) (i j : Nat) :
    (s.insert i).contains j = (decide (i = j) || s.contains j) := by
  rw [contains, word_insert, contains]
  have hj : j % 64 < 64 := Nat.mod_lt _ (by decide)
  by_cases hw : i / 64 = j / 64
  · rw [if_pos hw, BitVec.getLsbD_or, BitVec.getLsbD_twoPow, Bool.or_comm]
    congr 1
    have : i = j ↔ i % 64 = j % 64 := by omega
    simp [this]
    omega
  · have : i ≠ j := fun h => hw (by rw [h])
    rw [if_neg hw]; simp [this]

/-- The bit of `i` is clear where `i` is no member. -/
theorem word_and_twoPow_eq_zero_iff (s : BitSet) (i : Nat) :
    s.word i &&& BitVec.twoPow 64 (i % 64) = 0 ↔ s.contains i = false := by
  have hmask : BitVec.twoPow 64 (i % 64) ≠ 0#64 := by
    intro hzero
    have hbit := congrArg (BitVec.getLsbD · (i % 64)) hzero
    simp [Nat.mod_lt i] at hbit
  rw [BitVec.and_twoPow, contains]
  cases (s.word i).getLsbD (i % 64) <;> simp [hmask]

/-- The bit of `i` was clear if `i` was no member. -/
theorem insertFresh_eq (s : BitSet) (i : Nat) :
    s.insertFresh i = (!s.contains i, s.insert i) := by
  refine Prod.ext ?_ rfl
  rw [insertFresh, word_grow, Bool.eq_iff_iff, beq_iff_eq, word_and_twoPow_eq_zero_iff,
    Bool.not_eq_true']

end BitSet

end SeaOfNodes
