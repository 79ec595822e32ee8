import Mathlib.Data.Nat.Bitwise

/-! Fixed-width integer operations as an optimised native build performs them:
subtraction wraps and a shift amount is reduced to the width of the word. -/
abbrev U8 : Type := BitVec 8
abbrev U16 : Type := BitVec 16
abbrev U32 : Type := BitVec 32
abbrev U64 : Type := BitVec 64

namespace MachineInt
open BitVec Nat

/-- `a - b` on `w`-bit unsigned integers. -/
def wrapSub (w a b : Nat) : Nat := (a + 2 ^ w - b % 2 ^ w) % 2 ^ w

def shl (x : BitVec w) (amount : Nat) : BitVec w := x <<< (amount % w)

def shr (x : BitVec w) (amount : Nat) : BitVec w := x >>> (amount % w)

def sar (x : BitVec w) (amount : Nat) : BitVec w := x.sshiftRight (amount % w)

def checkedAdd (a b : BitVec w) : Option (BitVec w) := if a + b < a then none else some (a + b)

def saturatingAdd (a b : BitVec w) : BitVec w :=
  if a.toNat + b.toNat < 2 ^ w then a + b else BitVec.allOnes w

def countOnes (x : BitVec w) : Nat := ((List.range w).filter x.getLsbD).length

def leadingZeros (x : BitVec w) : Nat :=
  ((List.range w).reverse.takeWhile fun i => !x.getLsbD i).length

def trailingZeros (x : BitVec w) : Nat := ((List.range w).takeWhile fun i => !x.getLsbD i).length

def isolateLowestOne (x : BitVec w) : BitVec w := x &&& (0 - x)

/-- The little-endian bytes of the low `n` bytes of a word. -/
def toLeBytes (n : Nat) (x : BitVec w) : List U8 :=
  (List.range n).map fun i => (x >>> (8 * i)).setWidth 8

def fromLeBytes (w : Nat) (bytes : List U8) : BitVec w :=
  bytes.foldr (fun byte rest => (rest <<< 8) ||| byte.setWidth w) 0

def swapBytes (n : Nat) (x : BitVec w) : BitVec w := fromLeBytes w (toLeBytes n x).reverse

theorem wrapSub_of_le (fits : a < 2 ^ w) (le : b ≤ a) : wrapSub w a b = a - b := by
  unfold wrapSub
  have small : b % 2 ^ w = b := mod_eq_of_lt (by omega)
  have split : a + 2 ^ w - b = a - b + 2 ^ w := by omega
  rw [small, split, add_mod_right, mod_eq_of_lt (by omega)]

theorem shl_of_lt {x : BitVec w} {amount : Nat} (small : amount < w) :
    shl x amount = x <<< amount := by
  rw [shl, mod_eq_of_lt small]

theorem shr_of_lt {x : BitVec w} {amount : Nat} (small : amount < w) :
    shr x amount = x >>> amount := by
  rw [shr, mod_eq_of_lt small]

/-- A single-bit mask tests that bit. -/
theorem and_one_shiftLeft (inside : i < 64) : (x &&& (1 : U64) <<< i != 0) = x.getLsbD i := by
  have mask : (1 : U64) <<< i = twoPow 64 i := (twoPow_eq 64 i).symm
  rw [mask, and_twoPow]
  cases x.getLsbD i with
  | false => rfl
  | true =>
    have nonzero : twoPow 64 i ≠ 0 := by
      intro zero
      have bit := congrArg (·.getLsbD i) zero
      simp [inside] at bit
    simpa using nonzero

theorem add_lt_self_iff (a b : BitVec w) : a + b < a ↔ 2 ^ w ≤ a.toNat + b.toNat := by
  rw [lt_def, toNat_add]
  by_cases carries : 2 ^ w ≤ a.toNat + b.toNat
  · rw [mod_eq_sub_mod carries, mod_eq_of_lt (by omega)]
    omega
  · rw [mod_eq_of_lt (by omega)]
    omega

theorem checkedAdd_of_fits {a b : BitVec w} (fits : a.toNat + b.toNat < 2 ^ w) :
    checkedAdd a b = some (a + b) :=
  if_neg fun carries => absurd ((add_lt_self_iff a b).mp carries) (not_le.mpr fits)

theorem checkedAdd_eq_some {a b sum : BitVec w} (fits : checkedAdd a b = some sum) :
    a.toNat + b.toNat < 2 ^ w ∧ sum.toNat = a.toNat + b.toNat := by
  rw [checkedAdd] at fits
  split at fits
  · cases fits
  case isFalse below =>
    rw [add_lt_self_iff, not_le] at below
    obtain rfl := Option.some.inj fits
    exact ⟨below, by rw [toNat_add, mod_eq_of_lt below]⟩

theorem saturatingAdd_toNat (a b : BitVec w) :
    (saturatingAdd a b).toNat = min (a.toNat + b.toNat) (2 ^ w - 1) := by
  rw [saturatingAdd]
  split
  · rw [toNat_add, mod_eq_of_lt (by assumption)]
    omega
  · rw [toNat_allOnes]
    omega

/-- A mask without the low bits rounds down to a multiple. -/
theorem toNat_and_highBits (x : BitVec w) (k : Nat) :
    (x &&& (allOnes w <<< k)).toNat = x.toNat / 2 ^ k * 2 ^ k := by
  have shifted : x &&& (allOnes w <<< k) = (x >>> k) <<< k := by
    apply eq_of_getLsbD_eq
    intro i bound
    rw [getLsbD_and, getLsbD_shiftLeft, getLsbD_shiftLeft, getLsbD_ushiftRight]
    by_cases low : i < k
    · simp [low]
    · have high : i - k < w := by omega
      rw [Nat.add_sub_cancel' (by omega)]
      simp [low, high, bound]
  rw [shifted, toNat_shiftLeft, toNat_ushiftRight, Nat.shiftRight_eq_div_pow, Nat.shiftLeft_eq]
  exact mod_eq_of_lt ((Nat.div_mul_le_self _ _).trans_lt x.isLt)

/-- A mask of the low bits cuts a word to that width. -/
theorem and_lowBits (x : BitVec w) (b : Nat) :
    x &&& (allOnes b).setWidth w = (x.setWidth b).setWidth w := by
  apply eq_of_getLsbD_eq
  intro i bound
  rw [getLsbD_and, getLsbD_setWidth, getLsbD_setWidth, getLsbD_setWidth,
    getLsbD_allOnes, Bool.and_comm, Bool.and_assoc]

/-- One less than a power of two has the bits below it. -/
theorem getLsbD_ones {amount : Nat} (small : amount < w) (i : Nat) :
    ((1#w <<< amount) - 1#w).getLsbD i = decide (i < amount) := by
  have one : (1#w).toNat = 1 := by
    rw [toNat_ofNat, mod_eq_of_lt (Nat.one_lt_two_pow (by omega))]
  have power : (1#w <<< amount).toNat = 2 ^ amount := by
    rw [toNat_shiftLeft, Nat.shiftLeft_eq, one, Nat.one_mul,
      mod_eq_of_lt (Nat.pow_lt_pow_right (by decide) small)]
  have above : 1#w ≤ 1#w <<< amount := by
    rw [le_def, one, power]
    exact Nat.one_le_two_pow
  rw [getLsbD, toNat_sub_of_le above, power, one, testBit_two_pow_sub_one]

/-- The difference and its operands disagree exactly where a borrow comes in. -/
theorem getLsbD_xor_sub (x y : BitVec w) (inside : i < w) :
    (x ^^^ y ^^^ (x - y)).getLsbD i = decide (x.toNat % 2 ^ i < y.toNat % 2 ^ i) := by
  have sum : x - y + y = x := BitVec.sub_add_cancel x y
  have bit : x.getLsbD i = ((x - y).getLsbD i ^^ (y.getLsbD i ^^ carry i (x - y) y false)) := by
    rw [← getLsbD_add inside, sum]
  have low : ((x - y).toNat % 2 ^ i + y.toNat % 2 ^ i) % 2 ^ i = x.toNat % 2 ^ i := by
    conv_rhs => rw [← sum, toNat_add, mod_mod_of_dvd _ (pow_dvd_pow 2 inside.le)]
    exact (add_mod _ _ _).symm
  have carried : carry i (x - y) y false = decide (x.toNat % 2 ^ i < y.toNat % 2 ^ i) := by
    rw [carry, decide_eq_decide]
    by_cases wraps : 2 ^ i ≤ (x - y).toNat % 2 ^ i + y.toNat % 2 ^ i
    · rw [mod_eq_sub_mod wraps, mod_eq_of_lt (by omega)] at low
      omega
    · rw [mod_eq_of_lt (by omega)] at low
      simp only [Bool.toNat_false]
      omega
  rw [getLsbD_xor, getLsbD_xor, bit, carried]
  cases (x - y).getLsbD i <;> cases y.getLsbD i <;> simp

end MachineInt
