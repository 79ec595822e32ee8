import Casa.Cpu.Operand
import Casa.Lib.MaskRanks

/-! PDEP and PEXT undo each other. Bit `k` of the narrow value and the `k`-th
set position of the mask correspond; both loops go through the mask in that
order, so their results are described by the list of its set positions. -/
namespace Casa.Cpu
open MachineInt

/-- Setting a bit under a condition. -/
theorem getLsbD_setIf (bit : U64) : (if c then result ||| bit else result).getLsbD p = true ↔
      result.getLsbD p = true ∨ c = true ∧ bit.getLsbD p = true := by
  cases c <;> simp

/-- The deposit loop adds bit `k` of the source at the `k`-th set position. -/
theorem getLsbD_bitDepositLoop (source mask result : U64) (enough : (ones mask).length ≤ fuel) :
    (bitDepositLoop fuel source mask result).getLsbD p ↔
      result.getLsbD p ∨ ∃ k, (ones mask)[k]? = some p ∧ source.getLsbD k := by
  induction fuel generalizing source mask result with
  | zero =>
    have empty : ones mask = [] := List.eq_nil_of_length_eq_zero (Nat.le_zero.mp enough)
    simp [bitDepositLoop, empty]
  | succ fuel ih =>
    rw [bitDepositLoop]
    cases found : ones mask with
    | nil => simp [ones_eq_nil found]
    | cons t rest =>
      have nonzero : mask ≠ 0 := ones_ne_zero found
      have cleared := ones_clearLowest found
      have fits : (ones (mask &&& (mask - 1))).length ≤ fuel := by
        rw [cleared]
        rw [found] at enough
        exact Nat.le_of_succ_le_succ enough
      have lowest : (source &&& 1 != 0) = source.getLsbD 0 :=
        and_one_shiftLeft (show 0 < 64 by decide)
      rw [if_neg nonzero, ih _ _ _ fits, cleared, getLsbD_setIf, lowest, getLsbD_isolateLowestOne_iff found, or_assoc]
      -- the lowest position, or one of those that are left
      refine or_congr_right (Iff.trans ?_ Nat.or_exists_add_one)
      simp [and_comm, eq_comm (a := p), Nat.add_comm 1]

/-- The extract loop adds the source bit at the `k`-th set position as bit `k`. -/
theorem getLsbD_bitExtractLoop (mask : U64) (bit : Nat) (result : U64)
    (enough : (ones mask).length ≤ fuel) (fits : bit + (ones mask).length ≤ 64) :
    (bitExtractLoop fuel source mask bit result).getLsbD j ↔
      result.getLsbD j ∨ ∃ k p, (ones mask)[k]? = some p ∧ j = bit + k ∧ source.getLsbD p := by
  induction fuel generalizing mask bit result with
  | zero =>
    have empty : ones mask = [] := List.eq_nil_of_length_eq_zero (Nat.le_zero.mp enough)
    simp [bitExtractLoop, empty]
  | succ fuel ih =>
    rw [bitExtractLoop]
    cases found : ones mask with
    | nil => simp [ones_eq_nil found]
    | cons t rest =>
      have nonzero : mask ≠ 0 := ones_ne_zero found
      have cleared := ones_clearLowest found
      have inside : t < 64 := BitVec.lt_of_getLsbD (mem_ones.mp (found ▸ List.mem_cons_self))
      have tested : (source &&& 1#64 <<< t != 0) = source.getLsbD t := and_one_shiftLeft inside
      rw [found, List.length_cons] at enough fits
      have place : (shl (1 : U64) bit).getLsbD j ↔ j = bit := by
        have small : bit < 64 := by omega
        have power : shl (1 : U64) bit = BitVec.twoPow 64 bit := by
          rw [shl_of_lt small]
          exact (BitVec.twoPow_eq 64 bit).symm
        rw [power, BitVec.getLsbD_twoPow, decide_eq_true small, Bool.true_and, decide_eq_true_iff, eq_comm]
      rw [if_neg nonzero, ih _ _ _ (by rw [cleared]; omega) (by rw [cleared]; omega), cleared,
        getLsbD_setIf, isolateLowestOne_eq found, tested, place, or_assoc]
      refine or_congr_right (Iff.trans ?_ Nat.or_exists_add_one)
      simp [and_comm, Nat.add_assoc, Nat.add_comm 1]

theorem getLsbD_bitDeposit : (bitDeposit source mask).getLsbD p ↔
      ∃ k, (ones mask)[k]? = some p ∧ source.getLsbD k := by
  rw [bitDeposit, getLsbD_bitDepositLoop source mask 0 ones_length_le]
  simp

theorem getLsbD_bitExtract : (bitExtract source mask).getLsbD k ↔
      ∃ p, (ones mask)[k]? = some p ∧ source.getLsbD p := by
  rw [bitExtract,
    getLsbD_bitExtractLoop mask 0 0 ones_length_le ((Nat.zero_add _).trans_le ones_length_le)]
  simp

/-- A word cut to its low bits, bit by bit. -/
theorem getLsbD_lowBits (x : U64) :
    (BitVec.ofNat 64 (x.toNat % 2 ^ n)).getLsbD k ↔ k < n ∧ x.getLsbD k := by
  rw [BitVec.getLsbD_ofNat, Nat.testBit_mod_two_pow, Bool.and_eq_true, Bool.and_eq_true,
    decide_eq_true_iff, decide_eq_true_iff]
  constructor
  · rintro ⟨_, below, set⟩
    exact ⟨below, set⟩
  · rintro ⟨below, set⟩
    exact ⟨BitVec.lt_of_getLsbD set, below, set⟩

theorem bitExtract_bitDeposit :
    bitExtract (bitDeposit source mask) mask =
      BitVec.ofNat 64 (source.toNat % 2 ^ countOnes mask) := by
  apply BitVec.eq_of_getLsbD_eq
  intro k _
  rw [Bool.eq_iff_iff, getLsbD_bitExtract, getLsbD_lowBits]
  constructor
  · rintro ⟨p, here, set⟩
    obtain ⟨j, found, set⟩ := getLsbD_bitDeposit.mp set
    obtain rfl := rank_unique here found
    exact ⟨(List.getElem?_eq_some_iff.mp here).1, set⟩
  · rintro ⟨below, set⟩
    have here := List.getElem?_eq_getElem below
    exact ⟨_, here, getLsbD_bitDeposit.mpr ⟨k, here, set⟩⟩

theorem bitDeposit_bitExtract : bitDeposit (bitExtract source mask) mask = source &&& mask := by
  apply BitVec.eq_of_getLsbD_eq
  intro p _
  rw [Bool.eq_iff_iff, getLsbD_bitDeposit, BitVec.getLsbD_and, Bool.and_eq_true]
  constructor
  · rintro ⟨k, here, set⟩
    obtain ⟨q, found, set⟩ := getLsbD_bitExtract.mp set
    obtain rfl := Option.some.inj (found.symm.trans here)
    exact ⟨set, mem_ones.mp (List.mem_of_getElem? here)⟩
  · rintro ⟨set, masked⟩
    obtain ⟨k, here⟩ := List.mem_iff_getElem?.mp (mem_ones.mpr masked)
    exact ⟨k, here, getLsbD_bitExtract.mpr ⟨p, here, set⟩⟩

/-- Extracting what was deposited gives the source back as far as the mask has
room for it; depositing what was extracted gives the masked source. -/
theorem deposit_extract_round_trips (source mask : U64) :
    bitExtract (bitDeposit source mask) mask = BitVec.ofNat 64 (source.toNat % 2 ^ countOnes mask) ∧
      bitDeposit (bitExtract source mask) mask = source &&& mask :=
  ⟨bitExtract_bitDeposit, bitDeposit_bitExtract⟩

end Casa.Cpu
