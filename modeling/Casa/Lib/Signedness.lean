import Mathlib.Algebra.Group.Int.Defs
import Mathlib.Data.Int.Order.Basic

/-! Words read as unsigned or as two's complement numbers. -/
namespace MachineInt
open BitVec

inductive Signedness where
  | unsigned
  | signed

namespace Signedness
variable {sign : Signedness} {w v : Nat}

def value (sign : Signedness) (x : BitVec w) : Int :=
  match sign with
  | .unsigned => x.toNat
  | .signed => x.toInt

def Fits (sign : Signedness) (w : Nat) (n : Int) : Prop :=
  match sign with
  | .unsigned => 0 ≤ n ∧ n < 2 ^ w
  | .signed => -2 ^ (w - 1) ≤ n ∧ n < 2 ^ (w - 1)

instance (sign : Signedness) (w : Nat) (n : Int) : Decidable (sign.Fits w n) := by
  unfold Fits
  cases sign <;> infer_instance

theorem fits_value (x : BitVec w) : sign.Fits w (sign.value x) := by
  cases sign with
  | unsigned => exact ⟨Int.natCast_nonneg _, by simpa [value] using Int.ofNat_lt.mpr x.isLt⟩
  | signed => exact ⟨le_toInt x, toInt_lt⟩

theorem value_ofInt (positive : 0 < w) (fits : sign.Fits w n) :
    sign.value (BitVec.ofInt w n) = n := by
  cases sign with
  | unsigned =>
    obtain ⟨lower, upper⟩ := fits
    have bound : n % ((2 ^ w : Nat) : Int) = n := by
      exact Int.emod_eq_of_lt lower upper
    rw [value, toNat_ofInt, bound]
    exact Int.toNat_of_nonneg lower
  | signed => exact toInt_ofInt_eq_self positive fits.1 fits.2

theorem ofInt_value (sign : Signedness) (x : BitVec w) (narrow : v ≤ w) :
    BitVec.ofInt v (sign.value x) = x.setWidth v := by
  cases sign with
  | unsigned => exact ofNat_toNat ..
  | signed =>
    rw [← signExtend_eq_setWidth_of_le x narrow]
    rfl

theorem value_injective (same : sign.value x = sign.value y) : x = y := by
  cases sign with
  | unsigned => exact eq_of_toNat_eq (Int.ofNat.inj same)
  | signed => exact eq_of_toInt_eq same

/-- The remainder of a truncated division fits where the divisor does. -/
theorem fits_tmod (positive : 0 < w) {y : BitVec w} (nonzero : y ≠ 0) :
    sign.Fits w ((sign.value x).tmod (sign.value y)) := by
  cases sign with
  | unsigned =>
    have pos : 0 < y.toNat := Nat.pos_of_ne_zero fun zero => nonzero (eq_of_toNat_eq zero)
    have below := Nat.mod_lt x.toNat pos
    have rest : ((x.toNat : Int).tmod y.toNat) = ((x.toNat % y.toNat : Nat) : Int) :=
      (Int.ofNat_tmod _ _).symm
    simp only [value, rest]
    refine ⟨Int.natCast_nonneg _, ?_⟩
    have bound := y.isLt
    exact_mod_cast Nat.lt_trans below bound
  | signed =>
    have upper : 2 * y.toInt < 2 ^ w := two_mul_toInt_lt
    have lower : -2 ^ w ≤ 2 * y.toInt := le_two_mul_toInt
    have pos : 0 < y.toInt.natAbs :=
      Int.natAbs_pos.mpr fun zero => nonzero (eq_of_toInt_eq (by simpa using zero))
    have below := Nat.mod_lt x.toInt.natAbs pos
    rw [← Int.natAbs_tmod] at below
    have half : (2 : Int) ^ w = 2 * 2 ^ (w - 1) := by
      rw [← Int.pow_succ', Nat.sub_add_cancel positive]
    simp only [Fits, value]
    omega

/-- A product fits twice the width of its factors. -/
theorem fits_mul (positive : 0 < w) (x y : BitVec w) :
    sign.Fits (w + w) (sign.value x * sign.value y) := by
  cases sign with
  | unsigned =>
    refine ⟨Int.mul_nonneg (Int.natCast_nonneg _) (Int.natCast_nonneg _), ?_⟩
    have bound := Nat.mul_lt_mul'' x.isLt y.isLt
    rw [← Nat.pow_add] at bound
    simp only [value]
    exact_mod_cast bound
  | signed =>
    have magnitude (z : BitVec w) : z.toInt.natAbs ≤ 2 ^ (w - 1) := by
      have lower := le_toInt z
      have upper := toInt_lt (x := z)
      have power : (2 : Int) ^ (w - 1) = ((2 ^ (w - 1) : Nat) : Int) := (Int.natCast_pow 2 _).symm
      omega
    have bound := Nat.mul_le_mul (magnitude x) (magnitude y)
    have half : (2 : Int) ^ (w + w - 1) = ((2 * (2 ^ (w - 1) * 2 ^ (w - 1)) : Nat) : Int) := by
      rw [← Nat.pow_add, ← Nat.pow_succ', Int.natCast_pow]
      congr 1
      omega
    have pos := Nat.mul_pos (Nat.two_pow_pos (w - 1)) (Nat.two_pow_pos (w - 1))
    rw [← Int.natAbs_mul] at bound
    simp only [Fits, value]
    omega

theorem setWidth_ofInt (narrow : v ≤ w) : (BitVec.ofInt w n).setWidth v = BitVec.ofInt v n := by
  apply eq_of_toInt_eq
  rw [← signExtend_eq_setWidth_of_le _ narrow, toInt_signExtend_eq_toInt_bmod_of_le _ narrow,
    toInt_ofInt, toInt_ofInt, Int.bmod_bmod_of_dvd (Nat.pow_dvd_pow 2 narrow)]

end Signedness
end MachineInt
