import Mathlib.Data.BitVec
import Mathlib.Logic.Function.Iterate

/-! A word and one carry bit as a ring of `w + 1` bits, turned one position at a
time. Turning it left and turning it right are inverse, so equally many turns
either way cancel. -/
namespace CarryRing
open BitVec

/-- One turn to the left: the top bit leaves into the carry, the carry comes in below. -/
def turnLeft (ring : BitVec w × Bool) : BitVec w × Bool :=
  (ring.1 <<< 1 ||| BitVec.setWidth w (BitVec.ofBool ring.2), ring.1.msb)

/-- One turn to the right: the lowest bit leaves into the carry, the carry comes in at the top. -/
def turnRight (ring : BitVec w × Bool) : BitVec w × Bool :=
  (ring.1 >>> 1 ||| BitVec.setWidth w (BitVec.ofBool ring.2) <<< (w - 1), ring.1.getLsbD 0)

theorem getLsbD_turnLeft (ring : BitVec w × Bool) (inside : i < w) :
    (turnLeft ring).1.getLsbD i = if i = 0 then ring.2 else ring.1.getLsbD (i - 1) := by
  rw [turnLeft, getLsbD_or, getLsbD_shiftLeft]
  by_cases lowest : i = 0
  · simp [lowest, Nat.lt_of_le_of_lt (Nat.zero_le i) inside]
  · simp [lowest, inside]

theorem getLsbD_turnRight (ring : BitVec w × Bool) (inside : i < w) :
    (turnRight ring).1.getLsbD i = if i = w - 1 then ring.2 else ring.1.getLsbD (i + 1) := by
  rw [turnRight, getLsbD_or, getLsbD_ushiftRight, getLsbD_shiftLeft, Nat.add_comm 1 i]
  by_cases top : i = w - 1
  · have outside : ring.1.getLsbD (i + 1) = false := getLsbD_of_ge _ _ (by omega)
    have nonempty : 0 < w := by omega
    have reached : ¬ i < w - 1 := by omega
    have lowest : i - (w - 1) = 0 := by omega
    rw [outside, if_pos top, lowest]
    simp [inside, reached, nonempty]
  · have below : i < w - 1 := by omega
    simp [top, below]

theorem turnRight_turnLeft (nonempty : 0 < w) (ring : BitVec w × Bool) :
    turnRight (turnLeft ring) = ring := by
  refine Prod.ext ?_ (getLsbD_turnLeft ring nonempty)
  apply eq_of_getLsbD_eq
  intro i inside
  rw [getLsbD_turnRight _ inside]
  split
  case isTrue top =>
    rw [top]
    exact msb_eq_getLsbD_last ring.1
  case isFalse lower =>
    rw [getLsbD_turnLeft ring (by omega)]
    rfl

/-- Turning back as often as the ring was turned restores it. -/
theorem turns_cancel (nonempty : 0 < w) (ring : BitVec w × Bool) :
    turnRight^[n] (turnLeft^[n] ring) = ring :=
  Function.LeftInverse.iterate (turnRight_turnLeft nonempty) n ring

end CarryRing
