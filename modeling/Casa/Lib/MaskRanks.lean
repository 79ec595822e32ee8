import Casa.Lib.MachineInt

/-! Positions of the set bits of a word in ascending order. The rank of a set
bit is its index in that list; clearing the lowest set bit drops the head. -/
namespace MachineInt
open List BitVec

def ones (x : BitVec w) : List Nat := (List.range w).filter x.getLsbD

section Ones
variable {x : BitVec w}

theorem mem_ones : i ∈ ones x ↔ x.getLsbD i := by
  rw [ones, mem_filter, mem_range, and_iff_right_iff_imp]
  exact lt_of_getLsbD

theorem ones_pairwise : (ones x).Pairwise (· < ·) := pairwise_lt_range.filter _

theorem ones_nodup : (ones x).Nodup := ones_pairwise.imp Nat.ne_of_lt

theorem ones_length_le : (ones x).length ≤ w :=
  (length_filter_le _ _).trans_eq length_range

/-- Two ranks with the same position are one rank. -/
theorem rank_unique {j k p : Nat} (first : (ones x)[j]? = some p) (second : (ones x)[k]? = some p) :
    j = k := by
  have bound : j < (ones x).length := (List.getElem?_eq_some_iff.mp first).1
  exact (List.getElem?_inj bound ones_nodup).mp (first.trans second.symm)

theorem ones_eq_nil (empty : ones x = []) : x = 0#w := by
  apply eq_of_getLsbD_eq
  intro i _
  have absent : i ∉ ones x := by rw [empty]; exact not_mem_nil
  rw [mem_ones, Bool.not_eq_true] at absent
  rw [absent, getLsbD_zero]

theorem ones_ne_zero (found : ones x = t :: rest) : x ≠ 0#w := by
  rintro rfl
  have member : t ∈ ones 0#w := by rw [found]; exact mem_cons_self
  rw [mem_ones, getLsbD_zero] at member
  cases member

end Ones

/-! ## The lowest set bit -/

section Lowest
variable {x : BitVec w} {t : Nat} {rest : List Nat}

theorem getLsbD_isolateLowestOne :
    (isolateLowestOne x).getLsbD i = (x.getLsbD i && !decide (∃ j, j < i ∧ x.getLsbD j)) := by
  have negated : 0 - x = -x := BitVec.zero_sub x
  rw [isolateLowestOne, negated, getLsbD_and, getLsbD_neg]
  by_cases inside : i < w
  · rw [decide_eq_true inside]
    cases x.getLsbD i <;> simp
  · rw [getLsbD_of_ge x i (Nat.le_of_not_lt inside)]
    rfl

/-- `x & (x - 1)` keeps the set bits that have another one below. -/
theorem getLsbD_clearLowest :
    (x &&& (x - 1)).getLsbD i = (x.getLsbD i && decide (∃ j, j < i ∧ x.getLsbD j)) := by
  have below : x - 1 = ~~~(-x) := (not_neg x).symm
  rw [below, getLsbD_and, getLsbD_not, getLsbD_neg]
  by_cases inside : i < w
  · rw [decide_eq_true inside]
    cases x.getLsbD i <;> simp
  · rw [getLsbD_of_ge x i (Nat.le_of_not_lt inside)]
    rfl

variable (found : ones x = t :: rest)
include found

/-- Below the head of the list no bit is set. -/
theorem lower_iff (i : Nat) : (∃ j, j < i ∧ x.getLsbD j) ↔ t < i := by
  have sorted : (t :: rest).Pairwise (· < ·) := found ▸ ones_pairwise
  constructor
  · rintro ⟨j, below, set⟩
    have member : j ∈ t :: rest := found ▸ mem_ones.mpr set
    rcases mem_cons.mp member with rfl | later
    · exact below
    · exact (rel_of_pairwise_cons sorted later).trans below
  · intro below
    exact ⟨t, below, mem_ones.mp (found ▸ mem_cons_self)⟩

theorem getLsbD_isolateLowestOne_iff (i : Nat) : (isolateLowestOne x).getLsbD i ↔ i = t := by
  rw [getLsbD_isolateLowestOne, Bool.and_eq_true, Bool.not_eq_true', decide_eq_false_iff_not,
    lower_iff found, ← mem_ones, found, mem_cons]
  have sorted : (t :: rest).Pairwise (· < ·) := found ▸ ones_pairwise
  constructor
  · rintro ⟨here | later, least⟩
    · exact here
    · exact absurd (rel_of_pairwise_cons sorted later) least
  · rintro rfl
    exact ⟨.inl rfl, Nat.lt_irrefl i⟩

theorem isolateLowestOne_eq : isolateLowestOne x = 1#w <<< t := by
  have inside : t < w := lt_of_getLsbD (mem_ones.mp (found ▸ mem_cons_self))
  apply eq_of_getLsbD_eq
  intro i bound
  rw [← twoPow_eq, Bool.eq_iff_iff, getLsbD_isolateLowestOne_iff found, getLsbD_twoPow,
    decide_eq_true inside, Bool.true_and, decide_eq_true_iff, eq_comm]

theorem ones_clearLowest : ones (x &&& (x - 1)) = rest := by
  have sorted : (t :: rest).Pairwise (· < ·) := found ▸ ones_pairwise
  have kept : ∀ i, (x &&& (x - 1)).getLsbD i = (decide (t < i) && x.getLsbD i) := by
    intro i
    rw [getLsbD_clearLowest, Bool.and_comm, decide_eq_decide.mpr (lower_iff found i)]
  calc ones (x &&& (x - 1))
      = (ones x).filter fun i => decide (t < i) := by rw [ones, ones, filter_filter, funext kept]
    _ = rest := by
      rw [found, filter_cons_of_neg (by simp), filter_eq_self]
      intro i member
      exact decide_eq_true (rel_of_pairwise_cons sorted member)

end Lowest

/-! ## Trailing zeros -/

theorem trailingZeros_eq_findIdx (x : BitVec w) :
    trailingZeros x = (range w).findIdx x.getLsbD := by
  rw [trailingZeros, takeWhile_eq_take_findIdx_not, length_take]
  simp only [Bool.not_not]
  exact Nat.min_eq_left findIdx_le_length

theorem getLsbD_of_lt_trailingZeros (below : i < trailingZeros x) : x.getLsbD i = false := by
  rw [trailingZeros_eq_findIdx] at below
  simpa using not_of_lt_findIdx below

theorem getLsbD_trailingZeros {x : BitVec w} (nonzero : x ≠ 0#w) : x.getLsbD (trailingZeros x) := by
  rw [trailingZeros_eq_findIdx]
  have found : (range w).findIdx x.getLsbD < (range w).length := by
    rw [findIdx_lt_length]
    by_contra none
    apply nonzero
    apply eq_of_getLsbD_eq
    intro i inside
    by_contra set
    exact none ⟨i, mem_range.mpr inside, by simpa using set⟩
  simpa using findIdx_getElem (w := found)

end MachineInt
