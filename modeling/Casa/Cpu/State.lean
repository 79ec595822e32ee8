import Casa.Cpu.Flags
import Mathlib.Logic.Function.Basic

/-! Register file and processor state of one guest thread (cpu/state.rs,
cpu/features.rs, and the operand types of cpu/decoder.rs). -/
namespace Casa.Cpu
open MachineInt

inductive GuestArch where
  | x64
  | x86
  deriving DecidableEq

def GuestArch.pointerBytes : GuestArch → Nat
  | .x64 => 8
  | .x86 => 4

def GuestArch.registerMask : GuestArch → U64
  | .x64 => BitVec.allOnes 64
  | .x86 => 0xffffffff

inductive Register where
  | rax | rcx | rdx | rbx | rsp | rbp | rsi | rdi
  | r8 | r9 | r10 | r11 | r12 | r13 | r14 | r15
  deriving DecidableEq

def Register.index : Register → Nat
  | .rax => 0
  | .rcx => 1
  | .rdx => 2
  | .rbx => 3
  | .rsp => 4
  | .rbp => 5
  | .rsi => 6
  | .rdi => 7
  | .r8 => 8
  | .r9 => 9
  | .r10 => 10
  | .r11 => 11
  | .r12 => 12
  | .r13 => 13
  | .r14 => 14
  | .r15 => 15

def Register.fromIndex (index : Nat) : Register :=
  match index % 16 with
  | 0 => .rax
  | 1 => .rcx
  | 2 => .rdx
  | 3 => .rbx
  | 4 => .rsp
  | 5 => .rbp
  | 6 => .rsi
  | 7 => .rdi
  | 8 => .r8
  | 9 => .r9
  | 10 => .r10
  | 11 => .r11
  | 12 => .r12
  | 13 => .r13
  | 14 => .r14
  | _ => .r15

/-- The same table as `fromIndex`, on the register field of an instruction byte. -/
def Register.fromModrm (code : U8) : Register := Register.fromIndex code.toNat

inductive ByteRegister where
  | al | cl | dl | bl | ah | ch | dh | bh | spl | bpl | sil | dil
  | r8b | r9b | r10b | r11b | r12b | r13b | r14b | r15b

def ByteRegister.fullRegister : ByteRegister → Register
  | .al | .ah => .rax
  | .cl | .ch => .rcx
  | .dl | .dh => .rdx
  | .bl | .bh => .rbx
  | .spl => .rsp
  | .bpl => .rbp
  | .sil => .rsi
  | .dil => .rdi
  | .r8b => .r8
  | .r9b => .r9
  | .r10b => .r10
  | .r11b => .r11
  | .r12b => .r12
  | .r13b => .r13
  | .r14b => .r14
  | .r15b => .r15

/-- The legacy high-byte registers hold bits 8 to 15 of their full register. -/
def ByteRegister.isHigh : ByteRegister → Bool
  | .ah | .ch | .dh | .bh => true
  | _ => false

inductive SegmentRegister where
  | fs
  | gs

structure SegmentBases where
  fs : U64 := 0
  gs : U64 := 0

structure MemoryOperand where
  base : Option Register := none
  index : Option Register := none
  scale : U8 := 1
  displacement : U32 := 0
  ripRelative : Bool := false
  ripBase : U64 := 0
  segment : Option SegmentRegister := none
  addressSize32 : Bool := false
  absoluteAddress : Option U64 := none

inductive CompareOperand where
  | register (register : Register)
  | register8 (register : ByteRegister)
  | memory (operand : MemoryOperand)
  | immediateU64 (value : U64)

structure XmmValue where
  low : U64 := 0
  high : U64 := 0

structure YmmValue where
  low : XmmValue := {}
  high : XmmValue := {}

inductive X87RoundingMode where
  | nearest | down | up | towardZero

/-- The stack holds the bits of its doubles, with the top at the end. -/
structure X87State where
  stack : List U64 := []
  roundingMode : X87RoundingMode := .nearest
  divideByZero : Bool := false
  precision : Bool := false

/-- The vector, mask and x87 registers. -/
structure VectorState where
  xmm : Nat → XmmValue := fun _ => {}
  ymmUpper : Nat → XmmValue := fun _ => {}
  zmmUpper : Nat → YmmValue := fun _ => {}
  opmask : Nat → U64 := fun _ => 0
  x87 : X87State := {}
  mxcsr : U32 := 0x1f80

/-- What the model leaves abstract: the vector, x87 and mask instructions that
store nothing, and the state of the host devices. -/
structure Platform where
  Instruction : Type
  Device : Type

/-- The register file of one guest thread. `pendingFlags` is a parked flag
computation; while it is present the arithmetic bits of `flags` are stale. -/
structure CpuState where
  arch : GuestArch
  gpr : Register → U64
  flags : Flags
  eflagsExtra : U64
  segmentBases : SegmentBases
  rip : U64
  dr : Nat → U64
  bnd : Nat → U64 × U64
  ssp : U64
  pendingFlags : Option PendingFlags
  jitSpill : Nat → U64
  vector : VectorState

namespace CpuState

def new (arch : GuestArch) : CpuState where
  arch := arch
  gpr _ := 0
  flags := {}
  eflagsExtra := 0
  segmentBases := {}
  rip := 0
  dr _ := 0
  bnd _ := (0, 0)
  ssp := 0
  pendingFlags := none
  jitSpill _ := 0
  vector := {}

def get (s : CpuState) (reg : Register) : U64 := s.gpr reg &&& s.arch.registerMask

def set (s : CpuState) (reg : Register) (value : U64) : CpuState :=
  { s with gpr := Function.update s.gpr reg (value &&& s.arch.registerMask) }

def getByte (s : CpuState) (reg : ByteRegister) : U8 :=
  let shift := if reg.isHigh then 8 else 0
  ((s.get reg.fullRegister >>> shift) &&& 0xff).setWidth 8

def setByte (s : CpuState) (reg : ByteRegister) (value : U8) : CpuState :=
  let full := reg.fullRegister
  let mask : U64 := if reg.isHigh then ~~~0xff00 else ~~~0xff
  let shift := if reg.isHigh then 8 else 0
  s.set full ((s.get full &&& mask) ||| (value.setWidth 64 <<< shift))

def segmentBase (s : CpuState) : SegmentRegister → U64
  | .fs => s.segmentBases.fs
  | .gs => s.segmentBases.gs

def getBnd (s : CpuState) (index : U8) : U64 × U64 := s.bnd (index &&& 0x3).toNat

def setBnd (s : CpuState) (index : U8) (value : U64 × U64) : CpuState :=
  { s with bnd := Function.update s.bnd (index &&& 0x3).toNat value }

def materializeFlags (s : CpuState) : CpuState :=
  match s.pendingFlags with
  | some parked => { s with flags := parked.evaluate, pendingFlags := none }
  | none => s

def deferAddFlags (s : CpuState) (lhs rhs result : U64) (widthBits : Nat) : CpuState :=
  { s with pendingFlags := some ⟨lhs, rhs, result, .add, BitVec.ofNat 8 widthBits⟩ }

def deferSubFlags (s : CpuState) (lhs rhs result : U64) (widthBits : Nat) : CpuState :=
  { s with pendingFlags := some ⟨lhs, rhs, result, .sub, BitVec.ofNat 8 widthBits⟩ }

def deferLogicFlags (s : CpuState) (result : U64) (widthBits : Nat) : CpuState :=
  { s with pendingFlags := some ⟨0, 0, result, .logic, BitVec.ofNat 8 widthBits⟩ }

def discardPendingFlags (s : CpuState) : CpuState := { s with pendingFlags := none }

/-! ## The flags image -/

def eflagsCf : U64 := 1#64 <<< 0
def eflagsPf : U64 := 1#64 <<< 2
def eflagsAf : U64 := 1#64 <<< 4
def eflagsZf : U64 := 1#64 <<< 6
def eflagsSf : U64 := 1#64 <<< 7
def eflagsOf : U64 := 1#64 <<< 11
def eflagsAlwaysSet : U64 := 1#64 <<< 1
def eflagsArithmeticMask : U64 :=
  eflagsCf ||| eflagsPf ||| eflagsAf ||| eflagsZf ||| eflagsSf ||| eflagsOf

def packEflags (s : CpuState) : U64 :=
  let bit (flag : Bool) (mask : U64) : U64 := if flag then mask else 0
  eflagsAlwaysSet ||| (s.eflagsExtra &&& ~~~(eflagsArithmeticMask ||| eflagsAlwaysSet))
    ||| bit s.flags.cf eflagsCf ||| bit s.flags.pf eflagsPf ||| bit s.flags.af eflagsAf
    ||| bit s.flags.zf eflagsZf ||| bit s.flags.sf eflagsSf ||| bit s.flags.of eflagsOf

def unpackEflags (s : CpuState) (value : U64) : CpuState :=
  { s with
    pendingFlags := none
    flags :=
      { cf := value &&& eflagsCf != 0
        pf := value &&& eflagsPf != 0
        af := value &&& eflagsAf != 0
        zf := value &&& eflagsZf != 0
        sf := value &&& eflagsSf != 0
        of := value &&& eflagsOf != 0 }
    eflagsExtra := value &&& ~~~(eflagsArithmeticMask ||| eflagsAlwaysSet) }

section Lemmas
variable (s : CpuState) (reg : Register) (value : U64)

@[simp] theorem set_arch : (s.set reg value).arch = s.arch := rfl
@[simp] theorem get_set_self : (s.set reg value).get reg = value &&& s.arch.registerMask := by
  simp [get, set, BitVec.and_assoc]

theorem gpr_set_of_ne (distinct : other ≠ reg) :
    (s.set reg value).gpr other = s.gpr other := Function.update_of_ne distinct _ _

theorem get_set_of_ne (distinct : other ≠ reg) : (s.set reg value).get other = s.get other := by
  rw [get, gpr_set_of_ne s reg value distinct, set_arch, get]

theorem get_and_mask : s.get reg &&& s.arch.registerMask = s.get reg := by
  rw [get, BitVec.and_assoc, BitVec.and_self]

end Lemmas

end CpuState

end Casa.Cpu
