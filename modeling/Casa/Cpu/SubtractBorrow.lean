import Casa.Cpu.Operand

/-! Subtraction with borrow. The architecture defines SBB as one three-operand
difference; the interpreter has six arms for it, which fold the borrow into the
right operand when they compute the flags. -/
namespace Casa.Cpu
open Effect MachineInt BitVec
open BitVec (ofNat ult toNat_add)

/-! ## The architecture -/

def borrowed (lhs rhs : BitVec w) (borrow : Bool) : BitVec w := lhs - rhs - ofNat w borrow.toNat

/-- The flags of `lhs - rhs - borrow` on `w`-bit operands. -/
def differenceFlags (lhs rhs : BitVec w) (borrow : Bool) : Flags :=
  let result := borrowed lhs rhs borrow
  let exact : Int := lhs.toInt - rhs.toInt - borrow.toNat
  { cf := lhs.toNat < rhs.toNat + borrow.toNat
    pf := parity (result.setWidth 8)
    af := lhs.toNat % 16 < rhs.toNat % 16 + borrow.toNat
    zf := result = 0
    sf := result.msb
    of := 2 ^ (w - 1) ≤ exact ∨ exact < -2 ^ (w - 1) }

theorem borrowed_false (lhs rhs : BitVec w) : borrowed lhs rhs false = lhs - rhs := by
  simp [borrowed]

theorem borrowed_true (lhs rhs : BitVec w) : borrowed lhs rhs true = lhs - (rhs + 1) := by
  rw [BitVec.eq_sub_iff_add_eq, BitVec.add_comm rhs, ← BitVec.add_assoc]
  exact (congrArg (· + rhs) (BitVec.sub_add_cancel _ _)).trans (BitVec.sub_add_cancel _ _)

/-! ## Plain subtraction -/

section Plain
variable (width : OperandWidth) (lhs rhs : BitVec width.bits)

/-- The half borrow as the flag computations find it. Only the low bits of the
word that stands for the right operand matter. -/
theorem af_operand (low : word.setWidth width.bits = rhs) :
    ((lhs.setWidth 64 ^^^ word ^^^ (lhs - rhs).setWidth 64) &&& 0x10 != 0) =
      decide (lhs.toNat % 16 < rhs.toNat % 16) := by
  have half : 4 < width.bits := by
    have := width.bits_ge
    omega
  have fourth : (0x10 : U64) = (1 : U64) <<< 4 := rfl
  have bit : word.getLsbD 4 = rhs.getLsbD 4 := by
    rw [← low, getLsbD_setWidth, decide_eq_true half, Bool.true_and]
  have borrow := getLsbD_xor_sub lhs rhs half
  rw [getLsbD_xor, getLsbD_xor] at borrow
  rw [fourth, and_one_shiftLeft (by decide), getLsbD_xor, getLsbD_xor, bit,
    getLsbD_operand width _ (by decide), getLsbD_operand width _ (by decide), borrow]
  rfl

/-- The flag computation for SUB and CMP is exact at every width. -/
theorem subFlags_exact :
    subFlags (lhs.setWidth 64) (rhs.setWidth 64) ((lhs - rhs).setWidth 64) width.bits =
      differenceFlags lhs rhs false := by
  have parities : ((lhs - rhs).setWidth 64).setWidth 8 = (lhs - rhs).setWidth 8 :=
    setWidth_setWidth_of_le _ (by decide)
  simp only [subFlags, differenceFlags, borrowed_false, Flags.mk.injEq, Bool.toNat_false,
    Nat.add_zero]
  refine ⟨?_, ?_, ?_, ?_, ?_, ?_⟩
  · rw [ult, toNat_operand, toNat_operand]
  · rw [parities]
  · exact af_operand width _ _ (setWidth_setWidth width rhs)
  · exact zero_operand width _
  · exact sign_operand width _
  · rw [← setWidth_xor, ← setWidth_xor, ← setWidth_and, sign_operand]
    have signed : (2 ^ (width.bits - 1) ≤ lhs.toInt - rhs.toInt - (0 : Nat) ∨
        lhs.toInt - rhs.toInt - (0 : Nat) < -2 ^ (width.bits - 1)) ↔ ssubOverflow lhs rhs := by
      simp [ssubOverflow]
    rw [Bool.eq_iff_iff, decide_eq_true_iff, signed, ssubOverflow_eq, msb_and, msb_xor, msb_xor]
    cases lhs.msb <;> cases rhs.msb <;> cases (lhs - rhs).msb <;> rfl

end Plain

/-! ## The folded borrow -/

section Folded
variable (width : OperandWidth) (lhs rhs : BitVec width.bits) (borrow : Bool)

/-- The right operands whose low four bits the borrow carries over. -/
def lostBorrow (rhs : BitVec w) (borrow : Bool) : Prop := borrow = true ∧ rhs.toNat % 16 = 15

theorem borrowed_eq : borrowed lhs rhs borrow = lhs - (rhs + ofNat _ borrow.toNat) := by
  cases borrow with
  | false => simp [borrowed]
  | true => exact borrowed_true lhs rhs

theorem toNat_carryWord : (carryWord borrow).toNat = borrow.toNat := by
  cases borrow <;> rfl

theorem setWidth_carryWord : (carryWord borrow).setWidth width.bits = ofNat _ borrow.toNat := by
  cases borrow <;> cases width <;> rfl

theorem setWidth_folded :
    (rhs.setWidth 64 + carryWord borrow).setWidth width.bits = rhs + ofNat _ borrow.toNat := by
  rw [setWidth_add _ _ width.bits_le, setWidth_setWidth, setWidth_carryWord]

variable {width rhs borrow}

section
variable (kept : ¬ lostBorrow rhs borrow)
include kept

/-- A borrow that stays within the low four bits does not wrap. -/
theorem kept_bound :
    rhs.toNat + borrow.toNat < 2 ^ width.bits ∧ rhs.toNat % 16 + borrow.toNat < 16 := by
  have bound := rhs.isLt
  cases borrow with
  | false => exact ⟨bound, Nat.mod_lt _ (by decide)⟩
  | true =>
    have low : rhs.toNat % 16 ≠ 15 := fun lost => kept ⟨rfl, lost⟩
    simp only [Bool.toNat_true]
    cases width <;> simp only [OperandWidth.bits] at bound ⊢ <;> omega

theorem toNat_folded : (rhs + ofNat _ borrow.toNat).toNat = rhs.toNat + borrow.toNat := by
  have bound := (kept_bound kept).1
  have small : borrow.toNat < 2 ^ width.bits := by omega
  rw [toNat_add, toNat_ofNat, Nat.mod_eq_of_lt small, Nat.mod_eq_of_lt bound]

theorem toInt_folded : (rhs + ofNat _ borrow.toNat).toInt = rhs.toInt + borrow.toNat := by
  have low := (kept_bound kept).2
  rw [toInt_eq_toNat_cond, toInt_eq_toNat_cond, toNat_folded kept]
  -- the sign changes only when the low half of the operand is all ones
  cases width <;> simp only [OperandWidth.bits] <;> split <;> split <;> omega

theorem differenceFlags_folded :
    differenceFlags lhs (rhs + ofNat _ borrow.toNat) false = differenceFlags lhs rhs borrow := by
  have low := (kept_bound kept).2
  have nibble : (rhs.toNat + borrow.toNat) % 16 = rhs.toNat % 16 + borrow.toNat := by omega
  have exact : lhs.toInt - (rhs.toInt + borrow.toNat) - ((0 : Nat) : Int) =
      lhs.toInt - rhs.toInt - borrow.toNat := by omega
  simp only [differenceFlags, borrowed_false, ← borrowed_eq, toNat_folded kept, toInt_folded kept,
    Bool.toNat_false, Nat.add_zero, nibble, exact]

theorem folded_word :
    rhs.setWidth 64 + carryWord borrow = (rhs + ofNat _ borrow.toNat).setWidth 64 := by
  have bound := lt_of_lt_of_le (kept_bound kept).1 (Nat.pow_le_pow_right (by decide) width.bits_le)
  apply eq_of_toNat_eq
  rw [toNat_add, toNat_operand, toNat_operand, toNat_folded kept, toNat_carryWord,
    Nat.mod_eq_of_lt bound]

end

/-- Where the borrow is carried over, the computed half borrow is always clear
and the true one is always set. -/
theorem af_lost (lost : lostBorrow rhs borrow)
    (low : word.setWidth width.bits = rhs + ofNat _ borrow.toNat) :
    ((lhs.setWidth 64 ^^^ word ^^^ (borrowed lhs rhs borrow).setWidth 64) &&& 0x10 != 0) = false ∧
      (differenceFlags lhs rhs borrow).af := by
  obtain ⟨rfl, nibble⟩ := lost
  have zero : (rhs + ofNat _ true.toNat).toNat % 16 = 0 := by
    have bound := rhs.isLt
    rw [toNat_add]
    cases width <;> simp only [OperandWidth.bits, Bool.toNat_true, toNat_ofNat] at bound ⊢ <;> omega
  constructor
  · rw [borrowed_eq, af_operand width lhs _ low, zero]
    rfl
  · simp only [differenceFlags, Bool.toNat_true, decide_eq_true_iff]
    omega

theorem subFlags_folded_iff :
    subFlags (lhs.setWidth 64) (rhs.setWidth 64 + carryWord borrow) ((borrowed lhs rhs borrow).setWidth 64)
      width.bits = differenceFlags lhs rhs borrow ↔ ¬ lostBorrow rhs borrow := by
  constructor
  · intro exact lost
    obtain ⟨computed, true_⟩ := af_lost lhs lost (setWidth_folded width rhs borrow)
    rw [← exact] at true_
    exact Bool.false_ne_true (computed.symm.trans true_)
  · intro kept
    rw [folded_word kept, borrowed_eq, subFlags_exact, differenceFlags_folded lhs kept]

theorem sbbFlags_iff :
    sbbFlags (lhs.setWidth 64) (rhs.setWidth 64) (carryWord borrow) ((borrowed lhs rhs borrow).setWidth 64)
      width.bits = differenceFlags lhs rhs borrow ↔ ¬ lostBorrow rhs borrow := by
  have mask : width.bits / 8 = width.bytes := by
    cases width <;> rfl
  constructor
  · intro exact lost
    have low : ((rhs.setWidth 64 + carryWord borrow) &&& widthMask (width.bits / 8)).setWidth width.bits =
        rhs + ofNat _ borrow.toNat := by
      rw [mask, and_widthMask, setWidth_setWidth, setWidth_folded]
    obtain ⟨computed, true_⟩ := af_lost lhs lost low
    rw [← exact] at true_
    exact Bool.false_ne_true (computed.symm.trans true_)
  · intro kept
    rw [← (subFlags_folded_iff lhs).mpr kept]
    have masked : (rhs.setWidth 64 + carryWord borrow) &&& widthMask (width.bits / 8) =
        rhs.setWidth 64 + carryWord borrow := by
      rw [mask, and_widthMask, folded_word kept, setWidth_setWidth]
    have wide : ((rhs.setWidth 64).setWidth 128 + (carryWord borrow).setWidth 128 : BitVec 128).toNat =
        (rhs.setWidth 64 + carryWord borrow).toNat := by
      rw [folded_word kept, toNat_operand, toNat_folded kept, toNat_add,
        BitVec.toNat_setWidth_of_le (by decide), toNat_operand, BitVec.toNat_setWidth_of_le (by decide),
        toNat_carryWord]
      exact Nat.mod_eq_of_lt (lt_of_lt_of_le (kept_bound kept).1
        (Nat.pow_le_pow_right (by decide) (width.bits_le.trans (by decide))))
    have carry : ((lhs.setWidth 64).setWidth 128).ult
        ((rhs.setWidth 64).setWidth 128 + (carryWord borrow).setWidth 128) =
          (lhs.setWidth 64).ult (rhs.setWidth 64 + carryWord borrow) := by
      rw [ult, ult, wide, BitVec.toNat_setWidth_of_le (by decide)]
    simp [sbbFlags, subFlags, masked, carry]

end Folded

/-! ## The six arms -/

inductive SbbForm where
  | reg8 (dst : ByteRegister) (src : CompareOperand)
  | memory8 (address : MemoryOperand) (src : ByteRegister)
  | imm8 (dst : ByteRegister) (value : U8)
  | imm (dst : Register) (value : U64) (width : OperandWidth)
  | memory (address : MemoryOperand) (src : Register) (width : OperandWidth)
  | operand (dst : Register) (src : CompareOperand) (width : OperandWidth)

namespace SbbForm

def instruction : SbbForm → IrInstruction P
  | .reg8 dst src => .sbbReg8 dst src
  | .memory8 address src => .sbbMemory8 address src
  | .imm8 dst value => .sbbImm8 dst value
  | .imm dst value width => .sbbImm dst value width.bytes
  | .memory address src width => .sbbMemory address src width.bytes
  | .operand dst src width => .sbbOperand dst src width.bytes

abbrev width : SbbForm → OperandWidth
  | .reg8 .. | .memory8 .. | .imm8 .. => .byte
  | .imm _ _ width | .memory _ _ width | .operand _ _ width => width

def load (m : Machine P) (address : MemoryOperand) (width : OperandWidth) :
    Result AppError (BitVec width.bits) := do
  let value ← readMemoryValue m.memory (resolveMemoryOperand m.cpu address) width.bytes
  return value.setWidth width.bits

def destination (m : Machine P) : (form : SbbForm) → Result AppError (BitVec form.width.bits)
  | .reg8 dst _ | .imm8 dst _ => .ok (m.cpu.getByte dst)
  | .memory8 address _ => load m address .byte
  | .imm dst _ width | .operand dst _ width => .ok (m.cpu.operand dst width)
  | .memory address _ width => load m address width

def source (m : Machine P) : (form : SbbForm) → Result AppError (BitVec form.width.bits)
  | .reg8 _ src => do return (← readCompareOperand m src 1).setWidth 8
  | .memory8 _ src => .ok (m.cpu.getByte src)
  | .imm8 _ value => .ok value
  | .imm _ value width => .ok (value.setWidth width.bits)
  | .memory _ src width => .ok (m.cpu.operand src width)
  | .operand _ src width => do return (← readCompareOperand m src width.bytes).setWidth width.bits

/-- Whether the destination can take a result of the operand width. -/
def accepts (m : Machine P) : SbbForm → Prop
  | .reg8 .. | .imm8 .. => True
  | .memory8 address _ => m.memory.writable (resolveMemoryOperand m.cpu address) 1 = true
  | .imm _ _ width | .operand _ _ width => m.cpu.holds width
  | .memory address _ width =>
    m.memory.writable (resolveMemoryOperand m.cpu address) width.bytes = true

def flags (borrow : Bool) :
    (form : SbbForm) → BitVec form.width.bits → BitVec form.width.bits → Flags
  | .memory _ _ width, lhs, rhs | .operand _ _ width, lhs, rhs =>
    sbbFlags (lhs.setWidth 64) (rhs.setWidth 64) (carryWord borrow)
      ((borrowed lhs rhs borrow).setWidth 64) width.bits
  | form, lhs, rhs =>
    subFlags (lhs.setWidth 64) (rhs.setWidth 64 + carryWord borrow)
      ((borrowed lhs rhs borrow).setWidth 64) form.width.bits

section Runs
variable {m : Machine P}

theorem sbb_computes (width : OperandWidth) (lhs rhs : BitVec width.bits) (borrow : Bool) :
    AluOp.sbb.Computes lhs rhs borrow (borrowed lhs rhs borrow) := by
  simp [AluOp.Computes, AluOp.sbb, setWidth_sub, setWidth_setWidth, setWidth_carryWord, borrowed]

theorem sbbFolded_computes (width : OperandWidth) (lhs rhs : BitVec width.bits) (borrow : Bool) :
    AluOp.sbbFolded.Computes lhs rhs borrow (borrowed lhs rhs borrow) :=
      sbb_computes width lhs rhs borrow

theorem byte_computes (lhs rhs : U8) (borrow : Bool) :
    ByteOp.sbb.result lhs rhs borrow = borrowed lhs rhs borrow := by
  exact congrArg (lhs - rhs - ·) (setWidth_carryWord .byte borrow)

/-- The read-modify-write arms, for either way of computing the flags. -/
theorem memory_runs {width : OperandWidth} (rhs : CpuState → U64)
    (computes : ∀ (lhs rhs : BitVec width.bits) borrow, op.Computes lhs rhs borrow (borrowed lhs rhs borrow))
    (read : readMemoryValue m.memory (resolveMemoryOperand m.cpu address) width.bytes = .ok value)
    (writable : m.memory.writable (resolveMemoryOperand m.cpu address) width.bytes) :
    ∃ t, (aluMemory op address rhs width.bytes).run m.settle = .ok () t ∧
      load t address width = .ok (borrowed (value.setWidth width.bits)
        ((rhs m.settle.cpu).setWidth width.bits) m.cpu.currentFlags.cf) ∧
      t.cpu.flags = op.flags ((value.setWidth width.bits).setWidth 64)
        (((rhs m.settle.cpu).setWidth width.bits).setWidth 64)
        ((borrowed (value.setWidth width.bits) ((rhs m.settle.cpu).setWidth width.bits)
          m.cpu.currentFlags.cf).setWidth 64) m.cpu.currentFlags.cf width.bits := by
  rw [← settle_address] at read writable
  obtain ⟨t, ran, stored, flags⟩ := aluMemory_runs (m := m.settle) read writable (computes _ _ _)
  rw [settle_flags] at stored flags
  refine ⟨t, ran, ?_, flags⟩
  rw [load, stored, Result.ok_bind, setWidth_setWidth]
  rfl

/-- Every arm returns with the right difference in its destination. -/
theorem runs (host : Host P) (form : SbbForm) {lhs rhs : BitVec form.width.bits}
    (held : form.destination m = .ok lhs) (read : form.source m = .ok rhs) (room : form.accepts m) :
    ∃ t, (executeIr host [form.instruction]).run m = .ok () t ∧
      form.destination t = .ok (borrowed lhs rhs m.cpu.currentFlags.cf) ∧
      t.cpu.flags = form.flags m.cpu.currentFlags.cf lhs rhs := by
  cases form with
  | reg8 =>
    cases held
    obtain ⟨value, returned, same⟩ := Result.bind_eq_ok.mp read
    cases same
    rw [← settle_readCompareOperand] at returned
    obtain ⟨t, ran, wrote, flags⟩ := aluByte_runs .sbb (value.setWidth 8) m.settle
    rw [← aluByteOperand_eq returned] at ran
    simp only [settle_getByte, settle_flags, byte_computes] at wrote flags
    exact ⟨t, (executeIr_single fun _ => rfl).trans ran, congrArg _ wrote, flags⟩
  | imm8 dst value =>
    cases held
    cases read
    obtain ⟨t, ran, wrote, flags⟩ := aluByte_runs .sbb value m.settle
    simp only [settle_getByte, settle_flags, byte_computes] at wrote flags
    exact ⟨t, (executeIr_single fun _ => rfl).trans ran, congrArg _ wrote, flags⟩
  | memory8 address src =>
    obtain ⟨value, returned, same⟩ := Result.bind_eq_ok.mp held
    cases same
    cases read
    obtain ⟨t, ran, wrote, flags⟩ :=
      memory_runs (byteSource src) (sbbFolded_computes .byte) returned room
    have byte : (byteSource src m.settle.cpu).setWidth 8 = m.cpu.getByte src := by
      rw [byteSource, settle_getByte]
      exact setWidth_setWidth .byte _
    rw [byte] at wrote flags
    exact ⟨t, (executeIr_single fun _ => rfl).trans ran, wrote, flags⟩
  | imm dst value width =>
    cases held
    cases read
    obtain ⟨t, ran, wrote, flags⟩ := aluRegister_runs ((settle_holds _).mpr room)
      (sbbFolded_computes width (m.settle.cpu.operand dst width) (value.setWidth width.bits) _)
    simp only [settle_operand, settle_flags] at wrote flags
    exact ⟨t, (executeIr_single fun _ => rfl).trans ran, congrArg _ wrote, flags⟩
  | memory address src width =>
    obtain ⟨value, returned, same⟩ := Result.bind_eq_ok.mp held
    cases same
    cases read
    obtain ⟨t, ran, wrote, flags⟩ := memory_runs (·.get src) (sbb_computes width) returned room
    have source : (m.settle.cpu.get src).setWidth width.bits = m.cpu.operand src width :=
      settle_operand width m src
    rw [source] at wrote flags
    exact ⟨t, (executeIr_single fun _ => rfl).trans ran, wrote, flags⟩
  | operand dst src width =>
    cases held
    obtain ⟨value, returned, same⟩ := Result.bind_eq_ok.mp read
    cases same
    rw [← settle_readCompareOperand] at returned
    obtain ⟨t, ran, wrote, flags⟩ := aluRegister_runs ((settle_holds _).mpr room)
      (sbb_computes width (m.settle.cpu.operand dst width) (value.setWidth width.bits) _)
    rw [← aluOperand_eq returned] at ran
    simp only [settle_operand, settle_flags] at wrote flags
    exact ⟨t, (executeIr_single fun _ => rfl).trans ran, congrArg _ wrote, flags⟩

theorem flags_iff (form : SbbForm) (lhs rhs : BitVec form.width.bits) (borrow : Bool) :
    form.flags borrow lhs rhs = differenceFlags lhs rhs borrow ↔ ¬ lostBorrow rhs borrow := by
  cases form with
  | reg8 | memory8 | imm8 | imm => exact subFlags_folded_iff lhs
  | memory | operand => exact sbbFlags_iff lhs

end Runs

end SbbForm

/-- Every form of SBB leaves the difference in its destination, and it leaves
the flags of the architecture exactly when the borrow does not carry over the
low four bits of the right operand. -/
theorem sbb_exact_iff (host : Host P) (form : SbbForm) (m : Machine P)
    (lhs rhs : BitVec form.width.bits) (held : form.destination m = .ok lhs)
    (read : form.source m = .ok rhs) (room : form.accepts m) :
    (∃ t, (executeIr host [form.instruction]).run m = .ok () t ∧
        form.destination t = .ok (borrowed lhs rhs m.cpu.currentFlags.cf) ∧
        t.cpu.flags = differenceFlags lhs rhs m.cpu.currentFlags.cf) ↔
      ¬ lostBorrow rhs m.cpu.currentFlags.cf := by
  obtain ⟨t, ran, wrote, flags⟩ := form.runs host held read room
  rw [← form.flags_iff lhs rhs]
  constructor
  · rintro ⟨t', ran', -, exact⟩
    cases ran.symm.trans ran'
    exact flags.symm.trans exact
  · intro exact
    exact ⟨t, ran, wrote, flags.trans exact⟩

/-- A 64-bit guest with the carry set and every register clear. -/
def carrySet : Machine barePlatform :=
  let start := bareMachine .x64 (fun _ => 0) []
  { start with cpu := { start.cpu with flags := { cf := true } } }

/-- `0 - 0x7ffe - 1` on words, where the borrow stays within the low four bits. -/
theorem sbb_exact_at_word :
    let form : SbbForm := .operand .rax (.immediateU64 0x7ffe) .word
    form.accepts carrySet ∧
      ((∃ t, (executeIr bareHost [form.instruction]).run carrySet = .ok () t ∧
          form.destination t = .ok (borrowed 0 0x7ffe carrySet.cpu.currentFlags.cf) ∧
          t.cpu.flags = differenceFlags (0 : U16) 0x7ffe carrySet.cpu.currentFlags.cf) ↔
        ¬ lostBorrow (0x7ffe : U16) carrySet.cpu.currentFlags.cf) :=
  ⟨nofun, sbb_exact_iff bareHost
    (.operand .rax (.immediateU64 0x7ffe) .word) carrySet 0 0x7ffe rfl rfl nofun⟩

/-- `0 - 0x0f - 1` borrows out of bit 3, but the adjust flag is left clear. -/
theorem sbb_half_borrow_lost :
    (differenceFlags (0 : U8) 0x0f true).af = true ∧
      ∃ t, (executeIr bareHost [.sbbImm8 .al 0x0f]).run carrySet = .ok () t ∧
        t.cpu.getByte .al = borrowed 0 0x0f true ∧ t.cpu.flags.af = false :=
  ⟨by decide, _, rfl, by decide, by decide⟩

end Casa.Cpu
