import Casa.Jit.ShiftHelper

/-! Where compiled shifts and the interpreter agree. On an operand of one of the
four widths both checked runs are evaluated as far as they go; what is left is
a comparison of their results and flags, count by count. -/
namespace Casa.Jit
open Casa.Cpu Effect MachineInt BitVec

/-! ## The helper and the arms on an operand -/

section Agreement
open Profile
variable {width : OperandWidth}

theorem helperMask_checked : helperMask checked width.bits = pure (widthMask width.bytes) := by
  cases width <;> rfl

theorem fromCode_code : ShiftKind.fromCode kind.code = some kind := by
  rcases kind with (_ | _ | _) | (_ | _) <;> rfl

/-- The top bit of an operand as both sides test it. -/
def topBit (width : OperandWidth) : U64 := (1 : U64) <<< (width.bits - 1)

theorem shiftCount_lt_word (count : U8) (width : OperandWidth) :
    shiftCount count width.bits < 64 := by
  refine Nat.lt_of_le_of_lt Nat.and_le_right ?_
  cases width <;> decide

/-- The helper on an operand of one of the four widths. -/
theorem jitHelperShift_checked :
    jitHelperShift checked (some s) value (count.setWidth 32) (BitVec.ofNat 32 width.bytes) kind.code =
      if shiftCount count width.bits = 0 then pure (value &&& widthMask width.bytes, some s)
      else helperShift checked kind (value &&& widthMask width.bytes) (topBit width) (widthMask width.bytes)
          width.bits (shiftCount count width.bits) >>= fun r =>
        pure (r.1, some { s with pendingFlags := none, flags := r.2 }) := by
  have bits : (BitVec.ofNat 32 width.bytes).toNat * 8 = width.bits := by
    cases width <;> rfl
  have wide : (count.setWidth 32).toNat = count.toNat := BitVec.toNat_setWidth_of_le (by decide)
  have nonempty : 1 ≤ width.bits := Nat.le_trans (by decide) width.bits_ge
  have masked :
      shiftCount count width.bits = count.toNat &&& (if width.bits = 64 then 63 else 31) := rfl
  rw [jitHelperShift, masked]
  simp only [bits, wide, helperMask_checked, pure_bind, checked_sub nonempty,
    checked_shl (top_inside width), fromCode_code, topBit]

section
variable (x : BitVec width.bits)
include x

/-- A word masked to the operand and shifted down is still masked. -/
theorem ushiftRight_masked (n : Nat) :
    x.setWidth 64 >>> n &&& widthMask width.bytes = x.setWidth 64 >>> n := by
  apply BitVec.eq_of_getLsbD_eq
  intro i inside
  rw [and_widthMask]
  by_cases operand : i < width.bits
  · simp [inside, operand]
  · simp [getLsbD_of_ge x (n + i) (by omega)]

theorem signExtend_operand : signExtend (x.setWidth 64) width.bytes = x.signExtend 64 := by
  cases width with
  | byte | word | dword => exact congrArg (BitVec.signExtend 64) (setWidth_setWidth _ x)
  | qword => exact (setWidth_eq x).trans (signExtend_eq x).symm

theorem and_topBit : (x.setWidth 64 &&& topBit width != 0) = x.msb := by
  rw [topBit, and_one_shiftLeft (top_inside width), getLsbD_operand width x (top_inside width),
    msb_eq_getLsbD_last]

/-- An arithmetic shift of the extended operand, bit by bit within the operand. -/
theorem getLsbD_arithmetic (n : Nat) (inside : i < width.bits) :
    ((x.signExtend 64).sshiftRight n).getLsbD i = if n + i < width.bits then x.getLsbD (n + i)
      else x.msb := by
  have narrow := width.bits_le
  have word : i < 64 := inside.trans_le narrow
  have top : (x.signExtend 64).msb = x.msb := by
    rw [msb_signExtend]
    split
    case isTrue full =>
      have start : width.bits - 64 = 0 := by omega
      rw [start]
      rfl
    case isFalse => rfl
  rw [getLsbD_sshiftRight, top, getLsbD_signExtend]
  by_cases operand : n + i < width.bits
  · have reached : n + i < 64 := by omega
    simp [reached, Nat.not_le.mpr word]
  · by_cases reached : n + i < 64
    · simp [reached, Nat.not_le.mpr word]
    · simp [operand, reached, Nat.not_le.mpr word]

/-- The helper's filled shift is the arithmetic shift, unless the fill is asked
to start below the lowest bit. -/
theorem filled_shift (positive : 1 ≤ n) (safe : n ≤ width.bits ∨ x.msb = false) :
    ∃ fill, helperFill checked (x.setWidth 64) (topBit width) width.bits n = pure fill ∧
      (x.setWidth 64 >>> n ||| fill) &&& widthMask width.bytes =
        (signExtend (x.setWidth 64) width.bytes).sshiftRight n &&& widthMask width.bytes := by
  have narrow := width.bits_le
  rw [helperFill, and_topBit, signExtend_operand, and_widthMask]
  -- Within the operand the two words are compared bit by bit; above it both are masked.
  cases negative : x.msb with
  | false =>
    refine ⟨0, rfl, ?_⟩
    rw [and_widthMask]
    congr 1
    apply BitVec.eq_of_getLsbD_eq
    intro i inside
    have word : i < 64 := by omega
    rw [BitVec.getLsbD_setWidth, BitVec.getLsbD_setWidth, getLsbD_arithmetic x n inside, negative]
    by_cases operand : n + i < width.bits
    · have reached : n + i < 64 := by omega
      simp [operand, reached]
    · simp [getLsbD_of_ge x (n + i) (by omega)]
  | true =>
    have room : n ≤ width.bits := safe.resolve_right (by rw [negative]; decide)
    have amount : width.bits - n < 64 := by omega
    refine ⟨allOnes 64 <<< (width.bits - n), ?_, ?_⟩
    · rw [if_pos rfl, checked_sub room, pure_bind, checked_shl amount]
    · rw [and_widthMask]
      congr 1
      apply BitVec.eq_of_getLsbD_eq
      intro i inside
      have word : i < 64 := by omega
      rw [BitVec.getLsbD_setWidth, BitVec.getLsbD_setWidth, getLsbD_arithmetic x n inside, negative,
        getLsbD_or, getLsbD_shiftLeft,
        getLsbD_allOnes]
      by_cases operand : n + i < width.bits
      · have reached : n + i < 64 := by omega
        have below : i < width.bits - n := by omega
        simp [operand, reached, below]
      · have above : ¬ i < width.bits - n := by omega
        have close : i - (width.bits - n) < 64 := by omega
        simp [operand, word, above, close]

end

theorem shift_agrees (op : PlainShift) (x : BitVec width.bits)
    (shifts : shiftCount count width.bits ≠ 0)
    (safe : match op with | .shl => shiftCount count width.bits ≤ width.bits | .shr => True | .sar => shiftCount count width.bits ≤ width.bits ∨ x.msb = false) :
    ∃ r, helperShift checked (.shift op) (x.setWidth 64) (topBit width) (widthMask width.bytes) width.bits
        (shiftCount count width.bits) = pure r ∧
      shiftArm checked op (x.setWidth 64) count width.bytes = pure (some r) := by
  have small := shiftCount_lt_word count width
  have nonempty : 1 ≤ width.bits := Nat.le_trans (by decide) width.bits_ge
  rw [shiftArm, shiftBits_bytes, if_neg shifts]
  generalize shiftCount count width.bits = n at *
  have positive : 1 ≤ n := Nat.one_le_iff_ne_zero.mpr shifts
  have last : n - 1 < 64 := by omega
  cases op with
  | shl =>
    have room : width.bits - n < 64 := by have := width.bits_le; omega
    simp only [helperShift, helperResult, helperCarry, shiftResult, shiftCarryAmount,
      checked_shl small, checked_sub safe, checked_sub nonempty, checked_shl (top_inside width), checked_shr room,
      pure_bind]
    exact ⟨_, rfl, rfl⟩
  | shr =>
    simp only [helperShift, helperResult, helperCarry, shiftResult, shiftCarryAmount,
      checked_shr small, checked_sub positive, checked_sub nonempty, checked_shl (top_inside width),
      checked_shr last, pure_bind, ushiftRight_masked]
    exact ⟨_, rfl, rfl⟩
  | sar =>
    obtain ⟨fill, filled, same⟩ := filled_shift x positive safe
    simp only [helperShift, helperResult, helperCarry, shiftResult, shiftCarryAmount, shiftOverflow,
      filled, checked_shr small, checked_sar small, checked_sub positive, checked_sub nonempty,
      checked_shl (top_inside width), checked_shr last, pure_bind, same, Bool.and_false]
    exact ⟨_, rfl, rfl⟩

/-! Rotates: both sides turn the operand by the count modulo the width. -/

def turnedWord (kind : RotateKind) (x : BitVec width.bits) (k : Nat) : U64 :=
  match kind with
  | .left => (x.setWidth 64 <<< k ||| x.setWidth 64 >>> (width.bits - k)) &&& widthMask width.bytes
  | .right => (x.setWidth 64 >>> k ||| x.setWidth 64 <<< (width.bits - k)) &&& widthMask width.bytes

/-- Whether a rotate by one position would set OF. -/
def edge (kind : RotateKind) (width : OperandWidth) (result : U64) : Bool :=
  match kind with
  | .left => result.getLsbD (width.bits - 1) != result.getLsbD 0
  | .right => result.getLsbD (width.bits - 1) != result.getLsbD (width.bits - 2)

/-- The flags of a rotate; `single` says whether it counts as one by one position. -/
def turnFlags (kind : RotateKind) (width : OperandWidth) (result : U64) (single : Bool) :
    Flags where
  cf := match kind with
    | .left => result.getLsbD 0
    | .right => result.getLsbD (width.bits - 1)
  pf := parity (result.setWidth 8)
  af := false
  zf := result == 0
  sf := result.getLsbD (width.bits - 1)
  of := single && edge kind width result

theorem tested_top : (r &&& topBit width != 0) = r.getLsbD (width.bits - 1) :=
  and_one_shiftLeft (top_inside width)

theorem tested_below_top : (r &&& (topBit width >>> 1) != 0) = r.getLsbD (width.bits - 2) := by
  have lowered : topBit width >>> 1 = (1 : U64) <<< (width.bits - 2) := by
    cases width <;> decide
  rw [lowered]
  exact and_one_shiftLeft (by have := width.bits_le; omega)

theorem tested_low (r : U64) : (r &&& 1 != 0) = r.getLsbD 0 := by
  rw [and_one_word, carryWord_ne_zero]

theorem bitBelow_checked (positive : 0 < distance) (room : distance ≤ width.bits) :
    bitBelow checked r width.bits distance = pure (r.getLsbD (width.bits - distance)) := by
  have inside : width.bits - distance < 64 := by have := width.bits_le; omega
  rw [bitBelow, checked_sub room, pure_bind, checked_shr inside, pure_bind, tested_low,
    getLsbD_ushiftRight, Nat.add_zero]

theorem helperShift_rotate (kind : RotateKind) (x : BitVec width.bits)
    (shifts : shiftCount count width.bits ≠ 0) :
    helperShift checked (.rotate kind) (x.setWidth 64) (topBit width) (widthMask width.bytes) width.bits
        (shiftCount count width.bits) =
      pure (turnedWord kind x (shiftCount count width.bits % width.bits),
        turnFlags kind width (turnedWord kind x (shiftCount count width.bits % width.bits))
          (shiftCount count width.bits == 1)) := by
  have small := shiftCount_lt_word count width
  generalize shiftCount count width.bits = n at *
  have positive : 0 < width.bits := Nat.lt_of_lt_of_le (by decide) width.bits_ge
  have reduced : n % width.bits < width.bits := Nat.mod_lt _ positive
  have turn : n % width.bits < 64 := reduced.trans_le width.bits_le
  have back : width.bits - n % width.bits < 64 := by
    by_cases full : width.bits = 64
    · rw [full]
      omega
    · have := width.bits_le
      omega
  cases kind with
  | left | right =>
    simp only [helperShift, helperResult, helperCarry, helperOverflow, checked_shl turn,
      checked_shr turn, checked_sub reduced.le, checked_shl back, checked_shr back, pure_bind,
      tested_top, tested_low, tested_below_top, turnedWord, turnFlags, edge]

theorem rotateArm_idle (kind : RotateKind) (x : U64) (flags : Flags)
    (whole : shiftCount count width.bits % width.bits = 0) :
    rotateArm checked kind x flags count width.bytes = pure none := by
  have idle : rotateCount count width.bits = 0 := by
    rw [rotateCount, whole, ite_self]
  rw [rotateArm, shiftBits_bytes, if_pos idle]

theorem rotateArm_turns (kind : RotateKind) (x : BitVec width.bits) (flags : Flags)
    (turns : shiftCount count width.bits % width.bits ≠ 0) :
    rotateArm checked kind (x.setWidth 64) flags count width.bytes =
      pure (some (turnedWord kind x (shiftCount count width.bits % width.bits),
        turnFlags kind width (turnedWord kind x (shiftCount count width.bits % width.bits))
          (shiftCount count width.bits % width.bits == 1))) := by
  have nonempty := width.bits_ge
  have narrow := width.bits_le
  have count_eq : rotateCount count width.bits = shiftCount count width.bits % width.bits :=
    if_neg (by omega)
  rw [rotateArm, shiftBits_bytes, count_eq, if_neg turns]
  have reduced : shiftCount count width.bits % width.bits < width.bits := Nat.mod_lt _ (by omega)
  generalize shiftCount count width.bits % width.bits = k at *
  have turn : k < 64 := by omega
  have back : width.bits - k < 64 := by omega
  have one : 1 ≤ width.bits := by omega
  have two : 2 ≤ width.bits := by omega
  cases kind with
  | left | right =>
    simp only [rotateResult, rotateFlags, checked_sub reduced.le, checked_shl turn,
      checked_shr turn, checked_shl back, checked_shr back, pure_bind,
      bitBelow_checked Nat.one_pos one, bitBelow_checked Nat.two_pos two, tested_low, turnedWord,
      turnFlags, edge]

/-- A bit of two copies of the operand, one moved up and one moved down. -/
theorem getLsbD_joined (x : BitVec width.bits) (inside : i < width.bits) :
    ((x.setWidth 64 <<< up ||| x.setWidth 64 >>> down) &&& widthMask width.bytes).getLsbD i =
      (decide (up ≤ i) && x.getLsbD (i - up) || x.getLsbD (down + i)) := by
  have narrow := width.bits_le
  have word : i < 64 := by omega
  have lowered : ((x.setWidth 64).getLsbD (down + i)) = x.getLsbD (down + i) := by
    rw [BitVec.getLsbD_setWidth]
    by_cases reached : down + i < 64
    · rw [decide_eq_true reached, Bool.true_and]
    · rw [getLsbD_of_ge x _ (by omega), Bool.and_false]
  rw [and_widthMask, BitVec.getLsbD_setWidth, BitVec.getLsbD_setWidth, getLsbD_or,
    getLsbD_shiftLeft, getLsbD_ushiftRight, lowered]
  have previous : i - up < 64 := by omega
  by_cases reached : up ≤ i
  · simp [inside, word, previous, reached, Nat.not_lt.mpr reached]
  · simp [inside, word, reached]

theorem getLsbD_turnedLeft (x : BitVec width.bits) (inside : i < width.bits) :
    (turnedWord .left x k).getLsbD i =
      (decide (k ≤ i) && x.getLsbD (i - k) || x.getLsbD (width.bits - k + i)) :=
  getLsbD_joined x inside

theorem getLsbD_turnedRight (x : BitVec width.bits) (inside : i < width.bits) :
    (turnedWord .right x k).getLsbD i =
      (x.getLsbD (k + i) || decide (width.bits - k ≤ i) && x.getLsbD (i - (width.bits - k))) := by
  rw [turnedWord, BitVec.or_comm, getLsbD_joined x inside, Bool.or_comm]

/-- A whole number of turns. -/
theorem turnedWord_zero (kind : RotateKind) (x : BitVec width.bits) :
    turnedWord kind x 0 = x.setWidth 64 := by
  have masked : turnedWord kind x 0 = turnedWord kind x 0 &&& widthMask width.bytes := by
    cases kind <;> simp only [turnedWord, BitVec.and_assoc, BitVec.and_self]
  rw [masked, and_widthMask]
  congr 1
  apply BitVec.eq_of_getLsbD_eq
  intro i inside
  rw [BitVec.getLsbD_setWidth, decide_eq_true inside]
  cases kind with
  | left => simp [getLsbD_turnedLeft x inside]
  | right => simp [getLsbD_turnedRight x inside, Nat.not_le.mpr inside]

/-- Whether the bits that a rotate by one position compares differ in the operand. -/
def rotateEdge (kind : RotateKind) (x : BitVec width.bits) : Bool :=
  match kind with
  | .left => x.getLsbD (width.bits - 2) != x.getLsbD (width.bits - 1)
  | .right => x.getLsbD 0 != x.getLsbD (width.bits - 1)

theorem edge_turned_one (kind : RotateKind) (x : BitVec width.bits) :
    edge kind width (turnedWord kind x 1) = rotateEdge kind x := by
  have nonempty := width.bits_ge
  cases kind with
  | left =>
    have outside : x.getLsbD (width.bits - 1 + (width.bits - 1)) = false :=
      getLsbD_of_ge _ _ (by omega)
    have above : 1 ≤ width.bits - 1 := by omega
    have second : width.bits - 1 - 1 = width.bits - 2 := by omega
    rw [edge, getLsbD_turnedLeft x (by omega), getLsbD_turnedLeft x (by omega), outside, second]
    simp [above, rotateEdge]
  | right =>
    have outside : x.getLsbD (1 + (width.bits - 1)) = false := getLsbD_of_ge _ _ (by omega)
    have top : 1 + (width.bits - 2) = width.bits - 1 := by omega
    have below : ¬ width.bits - 1 ≤ width.bits - 2 := by omega
    rw [edge, getLsbD_turnedRight x (by omega), getLsbD_turnedRight x (by omega), outside, top]
    simp [below, rotateEdge]

theorem setRotateFlags_idle :
    setRotateFlags flags r width.bits 0 kind = turnFlags kind width r false := by
  have top : lowBit r (wrapSub 32 width.bits 1) = r.getLsbD (width.bits - 1) := by
    rw [lowBit, top_position, shr_of_lt (top_inside width), tested_low, getLsbD_ushiftRight,
      Nat.add_zero]
  cases kind <;> simp only [setRotateFlags, turnFlags, top, tested_low, Bool.false_and] <;> rfl

end Agreement

/-! ## The comparison -/

/-- The compiled shift and the interpreter leave the same register and the same
flags, and no amount either of them shifts by is below zero or a whole word. -/
structure ShiftsAgree (host : Host P) (kind : ShiftKind) (dst : Register) (count : U8)
    (width : OperandWidth) (m : Machine P) : Prop where
  compiled : (emitShiftHelper Profile.checked kind dst count width.bytes m.cpu).isSome
  interpreted : (interpreterArm Profile.checked kind (m.cpu.get dst &&& widthMask width.bytes)
    m.cpu.currentFlags count width.bytes).isSome
  same : ∃ t, (executeIr host [kind.instruction dst count width.bytes]).run m = .ok () t ∧
    t.cpu.get dst =
      (emitShiftHelper Profile.optimised kind dst count width.bytes m.cpu).run.get dst ∧
    t.cpu.currentFlags =
      (emitShiftHelper Profile.optimised kind dst count width.bytes m.cpu).run.currentFlags

/-- The inputs on which they agree. A count of zero must not meet a 4-byte
operand with a used upper half, which only compiled code clears. SHL must not
shift past the operand, nor SAR of a negative operand. A rotate by whole turns,
which the interpreter skips, must find the flags the helper stores; one by a
whole turn and one position, for which only the interpreter defines OF, must
define it as clear. -/
def ShiftSafe (kind : ShiftKind) (s : CpuState) (dst : Register) (count : U8) (width : OperandWidth) :
    Prop :=
  let shift := shiftCount count width.bits
  let value := s.operand dst width
  if shift = 0 then width = .dword → (s.get dst).toNat < 2 ^ 32
  else
    match kind with
    | .shift .shl => shift ≤ width.bits
    | .shift .shr => True
    | .shift .sar => shift ≤ width.bits ∨ value.msb = false
    | .rotate kind =>
      if shift % width.bits = 0 then
        s.currentFlags = setRotateFlags s.currentFlags (value.setWidth 64) width.bits 0 kind
      else shift % width.bits = 1 → shift = 1 ∨ rotateEdge kind value = false

section Comparison
open Profile
variable {width : OperandWidth}

theorem emitShiftHelper_checked (kind : ShiftKind) (dst : Register) (count : U8)
    (width : OperandWidth) (s : CpuState) : emitShiftHelper checked kind dst count width.bytes s =
      if shiftCount count width.bits = 0 then
        pure (s.set dst (mergeRegisterResult (s.get dst) (s.get dst &&& widthMask width.bytes) width.bytes))
      else helperShift checked kind (s.get dst &&& widthMask width.bytes) (topBit width) (widthMask width.bytes)
          width.bits (shiftCount count width.bits) >>= fun r =>
        pure (CpuState.set { s with pendingFlags := none, flags := r.2 } dst
          (mergeRegisterResult (s.get dst) r.1 width.bytes)) := by
  rw [emitShiftHelper, jitHelperShift_checked]
  split
  · rfl
  · simp only [bind_assoc, pure_bind, Option.getD_some]

/-- Where both checked runs return, the comparison is one of the states they return. -/
theorem shiftsAgree_iff
    (compiled : emitShiftHelper checked kind dst count width.bytes m.cpu = pure emitted)
    (interpreted : interpreterArm checked kind (m.cpu.get dst &&& widthMask width.bytes) m.cpu.currentFlags count width.bytes = pure arm) :
    ShiftsAgree host kind dst count width m ↔
      (afterArm m.settle dst width.bytes arm).cpu.get dst = emitted.get dst ∧
        (afterArm m.settle dst width.bytes arm).cpu.currentFlags = emitted.currentFlags := by
  have fast := emitShiftHelper_refines emitted compiled
  have ran := executeIr_arm host kind dst count width.bytes m
  rw [interpreterArm_refines arm interpreted] at ran
  constructor
  · rintro ⟨_, _, t, ran', register, flags⟩
    obtain ⟨⟩ := ran.symm.trans ran'
    rw [fast] at register flags
    exact ⟨register, flags⟩
  · rintro ⟨register, flags⟩
    refine ⟨by rw [compiled]; rfl, by rw [interpreted]; rfl, _, ran, ?_, ?_⟩
    · rw [fast, register]
    · rw [fast, flags]

theorem merge_same :
    mergeRegisterResult r (r &&& widthMask width.bytes) width.bytes = r ↔
      (width = .dword → r.toNat < 2 ^ 32) := by
  have split (mask : U64) : (r &&& ~~~mask) ||| (r &&& mask &&& mask) = r := by
    rw [BitVec.and_assoc, BitVec.and_self, ← BitVec.and_or_distrib_left, BitVec.not_or_self,
      BitVec.and_allOnes]
  cases width with
  | byte | word =>
    refine iff_of_true (split _) fun same => ?_
    cases same
  | dword =>
    have cut : mergeRegisterResult r (r &&& widthMask 4) 4 = (r.setWidth 32).setWidth 64 := by
      rw [← and_widthMask .dword]
      exact (BitVec.and_assoc _ _ _).trans (congrArg (r &&& ·) BitVec.and_self)
    rw [OperandWidth.bytes, cut, ← toNat_inj]
    constructor
    · intro same _
      exact same ▸ Nat.mod_lt _ (by decide)
    · intro fits
      exact Nat.mod_eq_of_lt (fits rfl)
  | qword =>
    refine iff_of_true BitVec.and_allOnes fun same => ?_
    cases same

/-- Writing back the masked value of a register. -/
theorem get_set_merge_same (s : CpuState) :
    s.get dst = (s.set dst (mergeRegisterResult (s.get dst) (s.get dst &&& widthMask width.bytes)
        width.bytes)).get dst ↔ (width = .dword → (s.get dst).toNat < 2 ^ 32) := by
  rw [CpuState.get_set_self, ← merge_same]
  constructor
  · intro written
    by_cases dword : width = .dword
    · subst dword
      have cut (r mask : U64) (kept : r = r &&& widthMask 4 &&& widthMask 4 &&& mask) :
          r &&& widthMask 4 &&& widthMask 4 = r := by
        have once : r &&& widthMask 4 &&& widthMask 4 = r &&& widthMask 4 := by
          rw [BitVec.and_assoc, BitVec.and_self]
        rw [once] at kept ⊢
        calc r &&& widthMask 4 = r &&& widthMask 4 &&& mask &&& widthMask 4 := congrArg (· &&& widthMask 4) kept
          _ = r &&& widthMask 4 &&& mask := by
            rw [BitVec.and_assoc, BitVec.and_comm mask, ← BitVec.and_assoc, once]
          _ = r := kept.symm
      exact cut _ _ written
    · exact merge_same.mpr fun same => absurd same dword
  · intro same
    rw [same, CpuState.get_and_mask]

theorem settle_get (m : Machine P) : m.settle.cpu.get reg = m.cpu.get reg :=
  m.cpu.materializeFlags_get reg

/-- Both sides computed a result: they agree if the results and the flags do. -/
theorem computed_iff (shifts : shiftCount count width.bits ≠ 0)
    (compiled : helperShift checked kind (m.cpu.get dst &&& widthMask width.bytes) (topBit width)
      (widthMask width.bytes) width.bits (shiftCount count width.bits) = pure (result, flags))
    (interpreted : interpreterArm checked kind (m.cpu.get dst &&& widthMask width.bytes)
      m.cpu.currentFlags count width.bytes = pure (some (result, flags'))) :
    ShiftsAgree host kind dst count width m ↔ flags' = flags := by
  have emitted := emitShiftHelper_checked kind dst count width m.cpu
  rw [if_neg shifts, compiled] at emitted
  have settled :
      (afterArm m.settle dst width.bytes (some (result, flags'))).cpu.currentFlags = flags' :=
    currentFlags_of_settled m.cpu.materializeFlags_pendingFlags
  have register : (afterArm m.settle dst width.bytes (some (result, flags'))).cpu.get dst =
      (CpuState.set { m.cpu with pendingFlags := none, flags } dst
        (mergeRegisterResult (m.cpu.get dst) result width.bytes)).get dst := by
    have written : (afterArm m.settle dst width.bytes (some (result, flags'))).cpu.get dst =
        mergeRegisterResult (m.settle.cpu.get dst) result width.bytes &&& m.settle.cpu.arch.registerMask :=
      m.settle.cpu.get_set_self dst _
    have arch : m.settle.cpu.arch = m.cpu.arch := m.cpu.materializeFlags_arch
    rw [written, settle_get, arch, CpuState.get_set_self]
  rw [shiftsAgree_iff emitted interpreted, settled]
  exact and_iff_right register

/-- The interpreter leaves the machine alone and the helper stores its flags. -/
theorem skipped_iff (shifts : shiftCount count width.bits ≠ 0) (narrow : width ≠ .dword)
    (compiled : helperShift checked kind (m.cpu.get dst &&& widthMask width.bytes) (topBit width)
      (widthMask width.bytes) width.bits (shiftCount count width.bits) =
      pure (m.cpu.get dst &&& widthMask width.bytes, flags))
    (interpreted : interpreterArm checked kind (m.cpu.get dst &&& widthMask width.bytes)
      m.cpu.currentFlags count width.bytes = pure none) :
    ShiftsAgree host kind dst count width m ↔ m.cpu.currentFlags = flags := by
  have emitted := emitShiftHelper_checked kind dst count width m.cpu
  rw [if_neg shifts, compiled] at emitted
  have register : m.cpu.get dst = (CpuState.set { m.cpu with pendingFlags := none, flags } dst
      (mergeRegisterResult (m.cpu.get dst) (m.cpu.get dst &&& widthMask width.bytes) width.bytes)).get dst :=
    (get_set_merge_same m.cpu).mpr fun dword => absurd dword narrow
  rw [shiftsAgree_iff emitted interpreted, afterArm, settle_get, settle_currentFlags]
  exact and_iff_right register

/-- A count of zero. -/
theorem idle_iff (idle : shiftCount count width.bits = 0) :
    ShiftsAgree host kind dst count width m ↔
      (width = .dword → (m.cpu.get dst).toNat < 2 ^ 32) := by
  have emitted := emitShiftHelper_checked kind dst count width m.cpu
  rw [if_pos idle] at emitted
  have interpreted : interpreterArm checked kind (m.cpu.get dst &&& widthMask width.bytes)
      m.cpu.currentFlags count width.bytes = pure none := by
    cases kind with
    | shift op => rw [interpreterArm, shiftArm, shiftBits_bytes, if_pos idle]
    | rotate kind => exact rotateArm_idle kind _ _ (by rw [idle, Nat.zero_mod])
  rw [shiftsAgree_iff emitted interpreted, afterArm, settle_get, settle_currentFlags,
    get_set_merge_same]
  exact and_iff_left rfl

/-- A shift that one of the two cannot carry out within the word. -/
theorem not_agree_of_compiled (shifts : shiftCount count width.bits ≠ 0)
    (stops : helperShift checked kind (m.cpu.get dst &&& widthMask width.bytes) (topBit width)
      (widthMask width.bytes) width.bits (shiftCount count width.bits) = none) :
    ¬ ShiftsAgree host kind dst count width m := by
  intro agree
  have emitted := emitShiftHelper_checked kind dst count width m.cpu
  rw [if_neg shifts, stops] at emitted
  have some := agree.compiled
  rw [emitted] at some
  cases some

theorem not_agree_of_interpreted
    (stops : interpreterArm checked kind (m.cpu.get dst &&& widthMask width.bytes)
      m.cpu.currentFlags count width.bytes = none) : ¬ ShiftsAgree host kind dst count width m := by
  intro agree
  have some := agree.interpreted
  rw [stops] at some
  cases some

theorem masked_operand (s : CpuState) :
    s.get dst &&& widthMask width.bytes = (s.operand dst width).setWidth 64 := and_widthMask width _

/-- SHL past the operand: the amount of its carry is below zero. -/
theorem shl_stops (past : width.bits < shiftCount count width.bits) :
    shiftArm checked .shl x count width.bytes = none := by
  have nonempty : 1 ≤ width.bits := Nat.le_trans (by decide) width.bits_ge
  rw [shiftArm, shiftBits_bytes, if_neg (by omega)]
  simp only [shiftResult, shiftCarryAmount, checked_shl (shiftCount_lt_word count width),
    checked_sub nonempty, checked_shl (top_inside width), checked_sub_of_lt past, pure_bind]
  rfl

/-- SAR past a negative operand: the amount of the fill is below zero. -/
theorem sar_stops (x : BitVec width.bits) (negative : x.msb) (past : width.bits < n) :
    helperShift checked (.shift .sar) (x.setWidth 64) (topBit width) (widthMask width.bytes) width.bits n = none := by
  have fill : helperFill checked (x.setWidth 64) (topBit width) width.bits n = none := by
    rw [helperFill, and_topBit, negative, checked_sub_of_lt past]
    rfl
  rw [helperShift, helperResult, fill]
  rfl

theorem shift_iff (shifts : shiftCount count width.bits ≠ 0) :
    ShiftsAgree host (.shift op) dst count width m ↔
      match op with
      | .shl => shiftCount count width.bits ≤ width.bits
      | .shr => True
      | .sar => shiftCount count width.bits ≤ width.bits ∨ (m.cpu.operand dst width).msb = false := by
  constructor
  · intro agree
    by_contra unsafe_
    cases op with
    | shl =>
      refine not_agree_of_interpreted ?_ agree
      exact shl_stops (Nat.not_le.mp unsafe_)
    | shr => exact unsafe_ trivial
    | sar =>
      obtain ⟨past, negative⟩ := not_or.mp unsafe_
      refine not_agree_of_compiled shifts ?_ agree
      rw [masked_operand]
      exact sar_stops _ (Bool.not_eq_false _ ▸ negative) (Nat.not_le.mp past)
  · intro safe
    obtain ⟨r, compiled, interpreted⟩ := shift_agrees op (m.cpu.operand dst width) shifts safe
    rw [← masked_operand] at compiled interpreted
    exact (computed_iff shifts compiled interpreted).mpr rfl

/-- Two sets of rotate flags differ at most in OF. -/
theorem turnFlags_eq_iff :
    turnFlags kind width r a = turnFlags kind width r b ↔
      (a && edge kind width r) = (b && edge kind width r) := by
  simp [turnFlags]

theorem rotate_iff (shifts : shiftCount count width.bits ≠ 0) :
    ShiftsAgree host (.rotate kind) dst count width m ↔
      if shiftCount count width.bits % width.bits = 0 then
        m.cpu.currentFlags =
          setRotateFlags m.cpu.currentFlags ((m.cpu.operand dst width).setWidth 64) width.bits 0 kind
      else shiftCount count width.bits % width.bits = 1 →
        shiftCount count width.bits = 1 ∨ rotateEdge kind (m.cpu.operand dst width) = false := by
  have compiled := helperShift_rotate kind (m.cpu.operand dst width) shifts
  rw [← masked_operand] at compiled
  split
  case isTrue whole =>
    have narrow : width ≠ .dword := by
      rintro rfl
      have small : shiftCount count 32 < 32 := Nat.lt_of_le_of_lt Nat.and_le_right (by decide)
      exact shifts ((Nat.mod_eq_of_lt small).symm.trans whole)
    have single : (shiftCount count width.bits == 1) = false := by
      rw [beq_eq_false_iff_ne]
      intro one
      rw [one, Nat.mod_eq_of_lt (Nat.lt_of_lt_of_le (by decide) width.bits_ge)] at whole
      cases whole
    rw [whole, single, turnedWord_zero, ← masked_operand] at compiled
    have interpreted :=
      rotateArm_idle kind (m.cpu.get dst &&& widthMask width.bytes) m.cpu.currentFlags whole
    rw [skipped_iff shifts narrow compiled interpreted, setRotateFlags_idle, masked_operand]
  case isFalse turns =>
    have interpreted := rotateArm_turns kind (m.cpu.operand dst width) m.cpu.currentFlags turns
    rw [← masked_operand] at interpreted
    rw [computed_iff shifts compiled interpreted, turnFlags_eq_iff]
    by_cases one : shiftCount count width.bits % width.bits = 1
    · rw [one, edge_turned_one]
      by_cases first : shiftCount count width.bits = 1
      · simp [first]
      · simp [first]
    · have later : shiftCount count width.bits ≠ 1 := by
        intro first
        rw [first, Nat.mod_eq_of_lt (Nat.lt_of_lt_of_le (by decide) width.bits_ge)] at one
        exact one rfl
      rw [beq_eq_false_iff_ne.mpr one, beq_eq_false_iff_ne.mpr later]
      exact iff_of_true rfl fun same => absurd same one

/-- Compiled shifts agree with the interpreter exactly on the safe inputs. -/
theorem shifts_agree_iff (host : Host P) (kind : ShiftKind) (dst : Register) (count : U8)
    (width : OperandWidth) (m : Machine P) :
    ShiftsAgree host kind dst count width m ↔ ShiftSafe kind m.cpu dst count width := by
  unfold ShiftSafe
  dsimp only
  split
  case isTrue idle => exact idle_iff idle
  case isFalse shifts =>
    rcases kind with op | kind
    · rw [shift_iff shifts]
      cases op <;> rfl
    · exact rotate_iff shifts

/-- SAR of the byte 0x80 by nine: the interpreter fills the operand with the
sign, compiled code clears it. -/
theorem sar_past_operand_differs :
    let m := bareMachine .x64 (fun _ => 0x80) []
    ∃ t, (executeIr bareHost [.sarImm .rax 9 1]).run m = .ok () t ∧ t.cpu.get .rax = 0xff ∧
      (emitShiftHelper Profile.optimised (.shift .sar) .rax 9 1 m.cpu).run.get .rax = 0 :=
  ⟨_, rfl, by decide +kernel, by decide +kernel⟩

end Comparison

end Casa.Jit
