import Casa.Cpu.Operand
import Casa.Cpu.Bare
import Casa.Lib.CarryRing

/-! Rotates through the carry. The loop of RCL and RCR turns the ring made of
the operand and CF one position per round; both reduce the count in the same
way, so RCR undoes RCL. -/
namespace Casa.Cpu
open Effect MachineInt CarryRing BitVec

theorem shiftBits_bytes (width : OperandWidth) : shiftBits width.bytes = width.bits := by
  cases width <;> rfl

/-- The words in which the loop keeps the ring. -/
def ringWords (ring : BitVec w × Bool) : U64 × U64 := (ring.1.setWidth 64, carryWord ring.2)

def turn : RotateKind → BitVec w × Bool → BitVec w × Bool
  | .left => turnLeft
  | .right => turnRight

theorem carryWord_eq : carryWord c = (ofBool c).setWidth 64 := by
  cases c <;> rfl

theorem carryWord_ne_zero : (carryWord c != 0) = c := by
  cases c <;> rfl

theorem and_one_word : x &&& 1 = carryWord (x.getLsbD 0) := by
  rw [carryWord_eq]
  exact and_one_eq_setWidth_ofBool_getLsbD

section Rounds
variable (width : OperandWidth)

theorem top_position : wrapSub 32 width.bits 1 = width.bits - 1 := by
  cases width <;> rfl

theorem top_inside : width.bits - 1 < 64 := by
  cases width <;> decide

theorem carryRotation_left (ring : BitVec width.bits × Bool) :
    carryRotation .left (widthMask width.bytes) width.bits (ringWords ring) =
      ringWords (turnLeft ring) := by
  obtain ⟨x, c⟩ := ring
  have value : (shl (x.setWidth 64) 1 ||| carryWord c).setWidth width.bits =
      x <<< 1 ||| setWidth width.bits (ofBool c) := by
    rw [setWidth_or, carryWord_eq, setWidth_setWidth_of_le _ width.bits_le, shl_of_lt (by decide)]
    congr 1
    apply eq_of_getLsbD_eq
    intro i inside
    have word : i < 64 := inside.trans_le width.bits_le
    have previous : i - 1 < 64 := by omega
    rw [getLsbD_setWidth, getLsbD_shiftLeft, getLsbD_shiftLeft]
    simp [inside, word, previous]
  have leaving : shr (x.setWidth 64) (width.bits - 1) &&& 1 = carryWord x.msb := by
    rw [shr_of_lt (top_inside width), and_one_word, getLsbD_ushiftRight, Nat.add_zero,
      getLsbD_operand width x (top_inside width), msb_eq_getLsbD_last]
  simp only [carryRotation, ringWords, turnLeft, top_position, and_widthMask, value, leaving]

theorem carryRotation_right (ring : BitVec width.bits × Bool) :
    carryRotation .right (widthMask width.bytes) width.bits (ringWords ring) =
      ringWords (turnRight ring) := by
  obtain ⟨x, c⟩ := ring
  have value : shr (x.setWidth 64) 1 ||| shl (carryWord c) (width.bits - 1) =
      (x >>> 1 ||| setWidth width.bits (ofBool c) <<< (width.bits - 1)).setWidth 64 := by
    rw [shr_of_lt (by decide), shl_of_lt (top_inside width), carryWord_eq]
    apply eq_of_getLsbD_eq
    intro i inside
    rw [getLsbD_setWidth, getLsbD_or, getLsbD_or, getLsbD_ushiftRight, getLsbD_shiftLeft,
      getLsbD_shiftLeft, getLsbD_setWidth]
    have nonempty := width.bits_ge
    have cut : (decide (1 + i < 64) && x.getLsbD (1 + i)) = x.getLsbD (1 + i) := by
      by_cases word : 1 + i < 64
      · rw [decide_eq_true word, Bool.true_and]
      · rw [getLsbD_of_ge x (1 + i) (by have := width.bits_le; omega), Bool.and_false]
    rw [cut]
    rcases Nat.lt_trichotomy i (width.bits - 1) with below | here | above
    · simp [inside, below]
    · have lowest : i - (width.bits - 1) = 0 := by omega
      have operand : i < width.bits := by omega
      have some : 0 < width.bits := by omega
      simp [inside, lowest, operand, some]
    · have beyond : ¬ i - (width.bits - 1) = 0 := by omega
      simp [inside, beyond]
  have leaving : x.setWidth 64 &&& 1 = carryWord (x.getLsbD 0) := by
    rw [and_one_word, getLsbD_operand width x (by decide)]
  simp only [carryRotation, ringWords, turnRight, top_position, value, leaving]

/-- A round of the loop is one turn of the ring. -/
theorem carryRotation_turn (kind : RotateKind) (ring : BitVec width.bits × Bool) :
    carryRotation kind (widthMask width.bytes) width.bits (ringWords ring) =
      ringWords (turn kind ring) := by
  cases kind with
  | left => exact carryRotation_left width ring
  | right => exact carryRotation_right width ring

theorem carryRotation_turns (kind : RotateKind) (n : Nat) (ring : BitVec width.bits × Bool) :
    (carryRotation kind (widthMask width.bytes) width.bits)^[n] (ringWords ring) =
      ringWords ((turn kind)^[n] ring) :=
  have step : Function.Semiconj ringWords (turn kind) (carryRotation kind (widthMask width.bytes) width.bits) :=
    fun ring => (carryRotation_turn width kind ring).symm
  (step.iterate_right n ring).symm

end Rounds

/-- What a rotate of `width` leaves of a register besides the operand: a 4-byte
write clears the upper half. -/
def KeepsRest (width : OperandWidth) (before after : U64) : Prop :=
  width ≠ .dword → after &&& ~~~widthMask width.bytes = before &&& ~~~widthMask width.bytes

def CpuState.ring (s : CpuState) (dst : Register) (width : OperandWidth) :
    BitVec width.bits × Bool :=
  (s.operand dst width, s.flags.cf)

theorem rotateThroughCarry_ring (kind : RotateKind) (s : CpuState) (dst : Register)
    (width : OperandWidth) (n : Nat) :
    let after := (turn kind)^[n] (s.ring dst width)
    (rotateThroughCarry kind (s.get dst &&& widthMask width.bytes) s.flags n width.bytes).1 =
      after.1.setWidth 64 ∧
      (rotateThroughCarry kind (s.get dst &&& widthMask width.bytes) s.flags n width.bytes).2.cf = after.2 := by
  have start : (s.get dst &&& widthMask width.bytes, if s.flags.cf then 1 else 0) =
      ringWords (s.ring dst width) := by
    rw [and_widthMask]
    rfl
  simp only [rotateThroughCarry, shiftBits_bytes, start, carryRotation_turns]
  exact ⟨rfl, carryWord_ne_zero⟩

theorem merge_keepsRest (original value : U64) (width : OperandWidth) :
    KeepsRest width original (mergeRegisterResult original value width.bytes) := by
  intro narrow
  cases width with
  | byte | word =>
    simp only [mergeRegisterResult, OperandWidth.bytes]
    apply eq_of_getLsbD_eq
    intro i inside
    simp only [getLsbD_and, getLsbD_or, getLsbD_not]
    cases (widthMask _).getLsbD i <;> simp
  | dword => exact absurd rfl narrow
  | qword =>
    have none : ~~~widthMask 8 = 0#64 := by decide
    simp [OperandWidth.bytes, none]

theorem set_merge_keepsRest {s : CpuState} :
    KeepsRest width (s.get dst)
      ((s.set dst (mergeRegisterResult (s.get dst) value width.bytes)).get dst) := by
  intro narrow
  have merged := merge_keepsRest (s.get dst) value width narrow
  rw [CpuState.get_set_self, BitVec.and_assoc, BitVec.and_comm s.arch.registerMask,
    ← BitVec.and_assoc, merged, BitVec.and_assoc, BitVec.and_comm _ s.arch.registerMask,
    ← BitVec.and_assoc, CpuState.get_and_mask]

theorem rotateCarryRegister_ring (kind : RotateKind) (holds : m.cpu.holds width) :
    ∃ t, (rotateCarryRegister kind dst count width.bytes).run m = .ok () t ∧
      t.cpu.ring dst width = (turn kind)^[carryRotateCount count width.bits] (m.cpu.ring dst width) ∧
      t.cpu.arch = m.cpu.arch ∧ KeepsRest width (m.cpu.get dst) (t.cpu.get dst) := by
  by_cases idle : carryRotateCount count width.bits = 0
  · refine ⟨m, ?_, by rw [idle]; rfl, rfl, fun _ => rfl⟩
    rw [← shiftBits_bytes] at idle
    rw [rotateCarryRegister, cpu, Exec.read_bind_run]
    dsimp only
    rw [if_pos idle]
    rfl
  · obtain ⟨value, carry⟩ :=
      rotateThroughCarry_ring kind m.cpu dst width (carryRotateCount count width.bits)
    let rotated := rotateThroughCarry kind (m.cpu.get dst &&& widthMask width.bytes) m.cpu.flags
      (carryRotateCount count width.bits) width.bytes
    let after := m.cpu.set dst (mergeRegisterResult (m.cpu.get dst) rotated.1 width.bytes)
    refine ⟨{ m with cpu := { after with flags := rotated.2 } }, ?_, ?_, rfl, set_merge_keepsRest⟩
    · rw [← shiftBits_bytes] at idle
      rw [rotateCarryRegister, cpu, Exec.read_bind_run]
      dsimp only
      rw [if_neg idle, shiftBits_bytes]
      rfl
    · refine Prod.ext ?_ carry
      have written := operand_set_merge holds dst (m.cpu.get dst)
        ((turn kind)^[carryRotateCount count width.bits] (m.cpu.ring dst width)).1
      rw [← value] at written
      exact written

/-- A register is its operand and the rest. -/
theorem register_ext {s t : CpuState} (operand : t.operand dst width = s.operand dst width)
    (rest : t.get dst &&& ~~~widthMask width.bytes = s.get dst &&& ~~~widthMask width.bytes) :
    t.get dst = s.get dst := by
  have low : t.get dst &&& widthMask width.bytes = s.get dst &&& widthMask width.bytes := by
    rw [and_widthMask, and_widthMask]
    exact congrArg (setWidth 64) operand
  have split (x mask : U64) : x = x &&& mask ||| x &&& ~~~mask := by
    rw [← and_or_distrib_left, or_not_self, and_allOnes]
  rw [split (t.get dst) (widthMask width.bytes), low, rest, ← split]

/-- One rotate through the carry, from any state of the flags. -/
theorem executeIr_rotateCarry (kind : RotateKind)
    (runs : ∀ m, (executeHotArm .eager (executeColdOnce .eager host) insn).run m =
      (rotateCarryRegister kind dst count width.bytes).run m) (holds : m.cpu.holds width) :
    ∃ t, (executeIr host [insn]).run m = .ok () t ∧
      (t.cpu.operand dst width, t.cpu.currentFlags.cf) =
        (turn kind)^[carryRotateCount count width.bits] (m.cpu.operand dst width, m.cpu.currentFlags.cf) ∧
      t.cpu.holds width ∧ KeepsRest width (m.cpu.get dst) (t.cpu.get dst) := by
  obtain ⟨t, ran, turned, arch, rest⟩ :=
    rotateCarryRegister_ring kind ((settle_holds width).mpr holds)
  have whole := (executeIr_single runs).trans ran
  have settled : t.cpu.pendingFlags = none := executeIr_settled [insn] (by rw [whole]; rfl)
  refine ⟨t, whole, ?_, fun wide => arch.trans ((settle_holds width).mpr holds wide), ?_⟩
  · rw [CpuState.ring, CpuState.ring, settle_operand, settle_flags] at turned
    rw [currentFlags_of_settled settled, turned]
  · rwa [Machine.settle, CpuState.materializeFlags_get] at rest

/-- RCR by the count of a preceding RCL restores the operand and the carry, and
with them the register (a 4-byte rotate clears its upper half). -/
theorem rcr_after_rcl_restores (host : Host P) (dst : Register) (count : U8) (width : OperandWidth)
    (m : Machine P) (holds : m.cpu.holds width) :
    ∃ t, (executeIr host [.rclImm dst count width.bytes, .rcrImm dst count width.bytes]).run m =
      .ok () t ∧
      t.cpu.operand dst width = m.cpu.operand dst width ∧
      t.cpu.currentFlags.cf = m.cpu.currentFlags.cf ∧
      (width ≠ .dword → t.cpu.get dst = m.cpu.get dst) := by
  have left (m : Machine P) : (executeHotArm .eager (executeColdOnce .eager host)
      (.rclImm dst count width.bytes)).run m = (rotateCarryRegister .left dst count width.bytes).run m := rfl
  have right (m : Machine P) : (executeHotArm .eager (executeColdOnce .eager host)
      (.rcrImm dst count width.bytes)).run m = (rotateCarryRegister .right dst count width.bytes).run m := rfl
  obtain ⟨u, first, there, fits, kept⟩ := executeIr_rotateCarry .left left holds
  obtain ⟨t, second, back, _, keptAgain⟩ := executeIr_rotateCarry .right right fits
  have nonempty : 0 < width.bits := Nat.lt_of_lt_of_le (by decide) width.bits_ge
  have restored : (t.cpu.operand dst width, t.cpu.currentFlags.cf) =
      (m.cpu.operand dst width, m.cpu.currentFlags.cf) := by
    rw [back, there]
    exact turns_cancel nonempty _
  obtain ⟨operand, carry⟩ := Prod.mk.inj restored
  refine ⟨t, ?_, operand, carry, fun narrow => ?_⟩
  · exact (executeIr_append [_] [_] m).trans ((Exec.bind_of_ok first).trans second)
  · exact register_ext operand ((keptAgain narrow).trans (kept narrow))

/-- A byte rotated by ten positions and back, with a pending carry. -/
theorem rcr_after_rcl_restores_byte :
    let m := bareMachine .x64 (fun _ => 0x1234a5) []
    ∃ t, (executeIr bareHost [.rclImm .rax 10 1, .rcrImm .rax 10 1]).run m = .ok () t ∧
      t.cpu.operand .rax .byte = 0xa5 ∧ t.cpu.currentFlags.cf = m.cpu.currentFlags.cf ∧
      t.cpu.get .rax = 0x1234a5 := by
  intro m
  obtain ⟨t, ran, operand, carry, register⟩ :=
    rcr_after_rcl_restores bareHost .rax 10 .byte m (by decide)
  have value : m.cpu.operand .rax .byte = 0xa5 := by decide
  have whole : m.cpu.get .rax = 0x1234a5 := by decide
  exact ⟨t, ran, operand.trans value, carry, (register (by decide)).trans whole⟩

end Casa.Cpu
