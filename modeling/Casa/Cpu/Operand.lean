import Casa.Cpu.LazyFlags
import Casa.Cpu.MemoryContents

/-! Operands of the four widths, and what a program of one instruction does to
them. An operand of `w` bits is a `BitVec w` here; the interpreter keeps it in
the low bits of a word. -/
namespace Casa.Cpu
open Effect MachineInt BitVec Exec
variable {P : Platform}

/-- The operand widths the decoder produces. -/
inductive OperandWidth where
  | byte
  | word
  | dword
  | qword
  deriving DecidableEq

namespace OperandWidth

/-- The width field of an instruction. -/
def bytes : OperandWidth → Nat
  | .byte => 1
  | .word => 2
  | .dword => 4
  | .qword => 8

abbrev bits : OperandWidth → Nat
  | .byte => 8
  | .word => 16
  | .dword => 32
  | .qword => 64

theorem bits_eq (width : OperandWidth) : width.bits = 8 * width.bytes := by
  cases width <;> rfl

theorem bits_le (width : OperandWidth) : width.bits ≤ 64 := by
  cases width <;> decide

theorem bits_ge (width : OperandWidth) : 8 ≤ width.bits := by
  cases width <;> decide

end OperandWidth

variable (width : OperandWidth)

theorem widthBits_bytes : widthBits width.bytes = width.bits := by
  cases width <;> rfl

theorem toNat_widthMask : (widthMask width.bytes).toNat = 2 ^ width.bits - 1 := by
  cases width <;> rfl

theorem and_widthMask (x : U64) :
    x &&& widthMask width.bytes = (x.setWidth width.bits).setWidth 64 := by
  apply eq_of_toNat_eq
  rw [toNat_and, toNat_widthMask, Nat.and_two_pow_sub_one_eq_mod, toNat_setWidth, toNat_setWidth]
  exact (Nat.mod_eq_of_lt (lt_of_le_of_lt (Nat.mod_le _ _) x.isLt)).symm

theorem setWidth_setWidth (x : BitVec width.bits) : (x.setWidth 64).setWidth width.bits = x := by
  rw [setWidth_setWidth_of_le _ width.bits_le, setWidth_eq]

theorem setWidth_sub (x y : U64) :
    (x - y).setWidth width.bits = x.setWidth width.bits - y.setWidth width.bits := by
  rw [sub_eq_add_neg, setWidth_add _ _ width.bits_le, setWidth_neg_of_le width.bits_le,
    ← sub_eq_add_neg]

/-- The top bit of an operand, as the flag computations test it. -/
theorem and_signBit (x : U64) : (x &&& signBit width.bits != 0) = x.getLsbD (width.bits - 1) := by
  have position : (width.bits + 63) % 64 = width.bits - 1 := by
    cases width <;> rfl
  rw [signBit_eq, position]
  exact and_one_shiftLeft (by have := width.bits_le; have := width.bits_ge; omega)

theorem toNat_operand (x : BitVec width.bits) : (x.setWidth 64).toNat = x.toNat :=
  toNat_setWidth_of_le width.bits_le

theorem getLsbD_operand (x : BitVec width.bits) (inside : i < 64) :
    (x.setWidth 64).getLsbD i = x.getLsbD i := by
  rw [getLsbD_setWidth, decide_eq_true inside, Bool.true_and]

theorem zero_operand (x : BitVec width.bits) : (x.setWidth 64 == 0) = decide (x = 0) := by
  rw [Bool.eq_iff_iff, beq_iff_eq, decide_eq_true_iff, ← toNat_inj, ← toNat_inj, toNat_operand]
  rfl

theorem sign_operand (x : BitVec width.bits) :
    (x.setWidth 64 &&& signBit width.bits != 0) = x.msb := by
  have inside : width.bits - 1 < 64 := by
    have := width.bits_le
    omega
  rw [and_signBit, getLsbD_operand width x inside, msb_eq_getLsbD_last]

/-! ## Registers -/

section Registers
variable {width} {s : CpuState}

def CpuState.operand (s : CpuState) (reg : Register) (width : OperandWidth) : BitVec width.bits :=
  (s.get reg).setWidth width.bits

/-- Whether a register of the guest has the width of the operand. -/
def CpuState.holds (s : CpuState) (width : OperandWidth) : Prop := width = .qword → s.arch = .x64

instance (s : CpuState) (width : OperandWidth) : Decidable (s.holds width) :=
  inferInstanceAs (Decidable (_ → _))

theorem setWidth_and_registerMask (holds : s.holds width) (x : U64) :
    (x &&& s.arch.registerMask).setWidth width.bits = x.setWidth width.bits := by
  cases guest : s.arch with
  | x64 => rw [GuestArch.registerMask, and_allOnes]
  | x86 =>
    have narrow : width.bits ≤ 32 := by
      cases width with
      | qword => rw [holds rfl] at guest; cases guest
      | byte | word | dword => decide
    have mask : GuestArch.x86.registerMask = widthMask OperandWidth.dword.bytes := rfl
    rw [mask, and_widthMask, setWidth_setWidth_of_le _ width.bits_le,
      setWidth_setWidth_of_le _ narrow]

theorem setWidth_merge (value mask : U64) (kept : mask.setWidth n = allOnes n) :
    ((original &&& ~~~mask) ||| (value &&& mask)).setWidth n = value.setWidth n := by
  apply eq_of_getLsbD_eq
  intro i bound
  have bit := congrArg (·.getLsbD i) kept
  simp only [getLsbD_setWidth, getLsbD_allOnes, bound, decide_true, Bool.true_and] at bit
  rw [getLsbD_setWidth, getLsbD_or, getLsbD_and, getLsbD_and, getLsbD_not, bit]
  simp

theorem setWidth_mergeRegisterResult (original : U64) (value : BitVec width.bits) :
    (mergeRegisterResult original (value.setWidth 64) width.bytes).setWidth width.bits = value := by
  refine Eq.trans ?_ (setWidth_setWidth width value)
  cases width with
  | byte | word => exact setWidth_merge _ _ (by decide)
  | dword =>
    have masked : zeroExtend (value.setWidth 64) 4 = ((value.setWidth 64).setWidth 32).setWidth 64 :=
      and_widthMask .dword _
    simp only [mergeRegisterResult, masked]
    exact setWidth_setWidth .dword _
  | qword => rfl

theorem operand_set_merge (holds : s.holds width) (reg : Register) (original : U64)
    (value : BitVec width.bits) :
    (s.set reg (mergeRegisterResult original (value.setWidth 64) width.bytes)).operand reg width =
      value := by
  rw [CpuState.operand, CpuState.get_set_self, setWidth_and_registerMask holds,
    setWidth_mergeRegisterResult]

/-- A byte written at `shift` into a word that had it cleared reads back. -/
theorem byteField_write (kept : U64) (room : shift ≤ 56)
    (clears : (cleared >>> shift).setWidth 8 = 0#8)
    (keeps : (kept >>> shift).setWidth 8 = allOnes 8) :
    ((((original &&& cleared) ||| (value.setWidth 64 <<< shift)) &&& kept) >>> shift &&& 0xff#64).setWidth 8 =
      value := by
  have low : (0xff#64).setWidth 8 = allOnes 8 := by decide
  have placed : ((value.setWidth 64 <<< shift) >>> shift).setWidth 8 = value := by
    apply eq_of_getLsbD_eq
    intro i bound
    have inside : shift + i < 64 := by omega
    simp [bound, inside]
  rw [setWidth_and, low, and_allOnes, ushiftRight_and_distrib, setWidth_and,
    keeps, and_allOnes, ushiftRight_or_distrib, setWidth_or, placed,
    ushiftRight_and_distrib, setWidth_and, clears, and_zero, zero_or]

theorem getByte_setByte : (s.setByte reg value).getByte reg = value := by
  unfold CpuState.getByte CpuState.setByte
  rw [CpuState.get_set_self]
  apply byteField_write
  · cases reg.isHigh <;> decide
  · cases reg.isHigh <;> decide
  · cases reg.isHigh <;> cases s.arch <;> decide

end Registers

/-- An address depends on the mode, the segment bases and the registers it names. -/
theorem resolveMemoryOperand_congr {s s' : CpuState} (arch : s'.arch = s.arch)
    (segments : s'.segmentBases = s.segmentBases)
    (base : ∀ reg, operand.base = some reg → s'.get reg = s.get reg)
    (index : ∀ reg, operand.index = some reg → s'.get reg = s.get reg) :
    resolveMemoryOperand s' operand = resolveMemoryOperand s operand := by
  have segment (reg : SegmentRegister) : s'.segmentBase reg = s.segmentBase reg := by
    cases reg <;> simp only [CpuState.segmentBase, segments]
  unfold resolveMemoryOperand narrowAddress
  rw [arch]
  cases based : operand.base with
  | none =>
    cases indexed : operand.index with
    | none => simp only [segment]
    | some reg => simp only [segment, index reg indexed]
  | some reg =>
    cases indexed : operand.index with
    | none => simp only [segment, base reg based]
    | some other => simp only [segment, base reg based, index other indexed]

def CompareOperand.Avoids (reg : Register) : CompareOperand → Prop
  | .register source => source ≠ reg
  | .register8 source => source.fullRegister ≠ reg
  | .memory operand => operand.base ≠ some reg ∧ operand.index ≠ some reg
  | .immediateU64 _ => True

theorem readCompareOperand_congr {m m' : Machine P} (arch : m'.cpu.arch = m.cpu.arch)
    (segments : m'.cpu.segmentBases = m.cpu.segmentBases) (memory : m'.memory = m.memory)
    (registers : ∀ reg, ¬ src.Avoids reg → m'.cpu.get reg = m.cpu.get reg) :
    readCompareOperand m' src bytes = readCompareOperand m src bytes := by
  cases src with
  | register source =>
    rw [readCompareOperand, readCompareOperand, registers source fun avoids => avoids rfl]
  | register8 source =>
    simp [readCompareOperand, CpuState.getByte,
      registers source.fullRegister fun avoids => avoids rfl]
  | memory operand =>
    have same : resolveMemoryOperand m'.cpu operand = resolveMemoryOperand m.cpu operand :=
      resolveMemoryOperand_congr arch segments
        (fun reg based => registers reg fun avoids => avoids.1 based)
        fun reg indexed => registers reg fun avoids => avoids.2 indexed
    rw [readCompareOperand, readCompareOperand, same, memory]
  | immediateU64 => rfl

/-! ## Programs of one instruction -/

/-- The interpreter on a single instruction is the arm of that instruction, on
the machine with its flags settled. -/
theorem executeIr_single {arm : Step P Unit}
    (runs : ∀ m, (executeHotArm .eager (executeColdOnce .eager host) instruction).run m = arm.run m)
    : (executeIr host [instruction]).run m = arm.run m.settle := by
  rw [executeIr_eager, executeIrEager, executeIrWith_eager_run, ← runs]
  cases ran : (executeHotArm .eager (executeColdOnce .eager host) instruction).run m.settle with
  | ok => exact bind_of_ok ran
  | error => exact bind_of_error ran
  | panic => exact bind_of_panic ran

@[simp] theorem settle_flags (m : Machine P) : m.settle.cpu.flags = m.cpu.currentFlags := by
  rw [Machine.settle, CpuState.materializeFlags_eq]

theorem currentFlags_of_settled {s : CpuState} (settled : s.pendingFlags = none) :
    s.currentFlags = s.flags := by
  rw [CpuState.currentFlags, settled]

@[simp] theorem settle_currentFlags (m : Machine P) :
    m.settle.cpu.currentFlags = m.cpu.currentFlags := by
  have settled : m.settle.cpu.pendingFlags = none := m.cpu.materializeFlags_pendingFlags
  rw [currentFlags_of_settled settled, settle_flags]

@[simp] theorem settle_operand (m : Machine P) (reg : Register) :
    m.settle.cpu.operand reg width = m.cpu.operand reg width := by
  simp [CpuState.operand, Machine.settle]

@[simp] theorem settle_getByte (m : Machine P) :
    m.settle.cpu.getByte reg = m.cpu.getByte reg := m.cpu.materializeFlags_getByte reg

@[simp] theorem settle_address (m : Machine P) :
    resolveMemoryOperand m.settle.cpu operand = resolveMemoryOperand m.cpu operand :=
  resolveMemoryOperand_materialize m.cpu operand

theorem settle_readCompareOperand :
    readCompareOperand m.settle operand bytes = readCompareOperand m operand bytes := by
  cases operand <;> simp [readCompareOperand, Machine.settle]

theorem settle_holds {m : Machine P} : m.settle.cpu.holds width ↔ m.cpu.holds width := by
  simp [CpuState.holds, Machine.settle]

/-! ## Arithmetic arms -/

theorem readOperand_bind (read : readCompareOperand m operand bytes = .ok value) :
    (readOperand operand bytes >>= next).run m = (next value).run m :=
  bind_of_ok (read_eq_ok.mpr ⟨read, rfl⟩)

theorem loadValue_bind (read : readMemoryValue m.memory address bytes = .ok value) :
    (loadValue address bytes >>= next).run m = (next value).run m :=
  bind_of_ok (read_eq_ok.mpr ⟨read, rfl⟩)

theorem storeValue_bind
    (wrote : (writeMemoryValue address value bytes).run m.memory = .ok () memory) :
    (storeValue address value bytes >>= next).run m = (next ()).run { m with memory } := by
  apply bind_of_ok
  rw [storeValue, zoom_run, wrote]
  rfl

section Arms
variable {width}

/-- The operation `op` takes the operands to `result` under the incoming carry. -/
def AluOp.Computes (op : AluOp) (lhs rhs : BitVec width.bits) (carry : Bool)
    (result : BitVec width.bits) : Prop :=
  (op.result (lhs.setWidth 64) (rhs.setWidth 64) carry).setWidth width.bits = result

theorem aluRegister_runs (holds : m.cpu.holds width)
    (computes : op.Computes (m.cpu.operand dst width) (rhs.setWidth width.bits) m.cpu.flags.cf result) :
    ∃ t, (aluRegister op dst rhs width.bytes).run m = .ok () t ∧ t.cpu.operand dst width = result ∧
      t.cpu.flags = op.flags ((m.cpu.operand dst width).setWidth 64) ((rhs.setWidth width.bits).setWidth 64)
        (result.setWidth 64) m.cpu.flags.cf width.bits := by
  have masked : op.result (m.cpu.get dst &&& widthMask width.bytes) (rhs &&& widthMask width.bytes)
      m.cpu.flags.cf &&& widthMask width.bytes = result.setWidth 64 := by
    rw [and_widthMask, and_widthMask, and_widthMask]
    exact congrArg _ computes
  refine ⟨_, rfl, ?_, ?_⟩
  · simp only [masked]
    exact operand_set_merge holds dst _ result
  · simp only [masked, widthBits_bytes]
    rw [and_widthMask, and_widthMask]
    rfl

theorem aluOperand_eq (read : readCompareOperand m src width.bytes = .ok rhs) :
    (aluOperand op dst src width.bytes).run m = (aluRegister op dst rhs width.bytes).run m :=
  readOperand_bind read

theorem aluMemory_runs
    (read : readMemoryValue m.memory (resolveMemoryOperand m.cpu address) width.bytes = .ok value)
    (writable : m.memory.writable (resolveMemoryOperand m.cpu address) width.bytes)
    (computes : op.Computes (value.setWidth width.bits) ((rhs m.cpu).setWidth width.bits) m.cpu.flags.cf result) :
    ∃ t, (aluMemory op address rhs width.bytes).run m = .ok () t ∧
      readMemoryValue t.memory (resolveMemoryOperand t.cpu address) width.bytes = .ok (result.setWidth 64) ∧
      t.cpu.flags = op.flags ((value.setWidth width.bits).setWidth 64)
        (((rhs m.cpu).setWidth width.bits).setWidth 64) (result.setWidth 64) m.cpu.flags.cf width.bits := by
  have masked : op.result (value &&& widthMask width.bytes) (rhs m.cpu &&& widthMask width.bytes)
      m.cpu.flags.cf &&& widthMask width.bytes = result.setWidth 64 := by
    rw [and_widthMask, and_widthMask, and_widthMask]
    exact congrArg _ computes
  have readable : m.memory.readable (resolveMemoryOperand m.cpu address) width.bytes :=
    Result.isOk_iff.mpr ⟨value, read⟩
  obtain ⟨_, memory, wrote, -⟩ := writeMemoryValue_gated.passes rfl writable
  have stored := read_after_write readable wrote
  rw [← width.bits_eq, setWidth_setWidth] at stored
  generalize computed : op.flags _ _ _ _ _ = flags
  refine ⟨{ m with memory, cpu := { m.cpu with flags } }, ?_, stored, rfl⟩
  unfold aluMemory
  rw [cpu, read_bind_run]
  dsimp only
  rw [loadValue_bind read, masked, storeValue_bind wrote, widthBits_bytes, and_widthMask,
    and_widthMask, computed]
  rfl

/-- The byte forms write an 8-bit result that reads back as it is. -/
theorem aluByte_runs (op : ByteOp) (rhs : U8) (m : Machine P) :
    ∃ t, (aluByte op dst rhs).run m = .ok () t ∧
      t.cpu.getByte dst = op.result (m.cpu.getByte dst) rhs m.cpu.flags.cf ∧
      t.cpu.flags = op.flags ((m.cpu.getByte dst).setWidth 64) (rhs.setWidth 64)
        ((op.result (m.cpu.getByte dst) rhs m.cpu.flags.cf).setWidth 64) m.cpu.flags.cf :=
  ⟨_, rfl, getByte_setByte, rfl⟩

theorem aluByteOperand_eq (read : readCompareOperand m src 1 = .ok rhs) :
    (aluByteOperand op dst src).run m = (aluByte op dst (rhs.setWidth 8)).run m :=
  readOperand_bind read

end Arms

end Casa.Cpu
