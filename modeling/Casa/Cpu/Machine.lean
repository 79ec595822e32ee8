import Casa.Cpu.State
import Casa.Cpu.Memory

/-! The state an instruction works on and the accesses every arm of the
interpreter is built from (the helpers at the end of cpu/interpreter.rs and of
cpu/memory.rs). -/
namespace Casa.Cpu
open Effect MachineInt

/-! ## Widths -/

def zeroExtend (value : U64) (width : Nat) : U64 := value &&& widthMask width

def signExtend (value : U64) : Nat → U64
  | 1 => (value.setWidth 8).signExtend 64
  | 2 => (value.setWidth 16).signExtend 64
  | 4 => (value.setWidth 32).signExtend 64
  | _ => value

/-- What a write of `width` bytes leaves in a register: a 4-byte write clears
the upper half, the narrower ones keep the rest of the register. -/
def mergeRegisterResult (original value : U64) (width : Nat) : U64 :=
  match width with
  | 8 => value
  | 4 => zeroExtend value 4
  | 2 => (original &&& ~~~widthMask 2) ||| (value &&& widthMask 2)
  | 1 => (original &&& ~~~widthMask 1) ||| (value &&& widthMask 1)
  | other => value &&& widthMask other

def widthBits (width : Nat) : Nat := width * 8 % 2 ^ 64

/-- The operand width in bits, as the 32-bit number the shift arms compute with. -/
def shiftBits (width : Nat) : Nat := widthBits width % 2 ^ 32

/-! ## The machine -/

structure Machine (P : Platform) where
  cpu : CpuState
  memory : MemoryImage
  device : P.Device

abbrev Step (P : Platform) (α : Type) : Type := Exec (Machine P) AppError α

/-- The 32-bit address computation: every term is truncated to 32 bits. -/
def narrowAddress (s : CpuState) (operand : MemoryOperand) : U64 :=
  let low (value : U64) : U64 := (value.setWidth 32).setWidth 64
  operand.displacement.setWidth 64
    + (if operand.ripRelative then low operand.ripBase else 0)
    + (match operand.base with | some base => low (s.get base) | none => 0)
    + (match operand.index with | some index => low (s.get index) * operand.scale.setWidth 64 | none => 0)

/-- The linear address of an operand. The source also takes the access width
and returns a result, but ignores the one and never fails. -/
def resolveMemoryOperand (s : CpuState) (operand : MemoryOperand) : U64 :=
  let segmentBase : U64 := match operand.segment with
    | some segment => s.segmentBase segment
    | none => 0
  match operand.absoluteAddress with
  | some address => address + segmentBase
  | none =>
    match s.arch with
    | .x86 => (narrowAddress s operand + (segmentBase.setWidth 32).setWidth 64) &&& 0xffffffff
    | .x64 =>
      if operand.addressSize32 then (narrowAddress s operand &&& 0xffffffff) + segmentBase
      else
        operand.displacement.signExtend 64
          + (if operand.ripRelative then operand.ripBase else 0)
          + segmentBase
          + (match operand.base with | some base => s.get base | none => 0)
          + (match operand.index with | some index => s.get index * operand.scale.setWidth 64 | none => 0)

def readCompareOperand (m : Machine P) (operand : CompareOperand) (width : Nat) :
    Result AppError U64 :=
  match operand with
  | .register register => .ok (m.cpu.get register &&& widthMask width)
  | .register8 register => .ok ((m.cpu.getByte register).setWidth 64 &&& widthMask width)
  | .memory operand => readMemoryValue m.memory (resolveMemoryOperand m.cpu operand) width
  | .immediateU64 value => .ok (value &&& widthMask width)

/-! ## Primitive steps -/

def cpu : Step P CpuState := Exec.read fun m => .ok m.cpu

def modifyCpu (f : CpuState → CpuState) : Step P Unit :=
  Exec.modify fun m => { m with cpu := f m.cpu }

def setReg (reg : Register) (value : U64) : Step P Unit := modifyCpu (·.set reg value)

def mergeReg (reg : Register) (value : U64) (width : Nat) : Step P Unit :=
  modifyCpu fun s => s.set reg (mergeRegisterResult (s.get reg) value width)

def setByteReg (reg : ByteRegister) (value : U8) : Step P Unit := modifyCpu (·.setByte reg value)

def setFlags (flags : Flags) : Step P Unit := modifyCpu fun s => { s with flags }

def modifyFlags (f : Flags → Flags) : Step P Unit :=
  modifyCpu fun s => { s with flags := f s.flags }

def setRip (target : U64) : Step P Unit := modifyCpu fun s => { s with rip := target }

def readOperand (operand : CompareOperand) (width : Nat) : Step P U64 :=
  Exec.read fun m => readCompareOperand m operand width

def loadValue (address : U64) (width : Nat) : Step P U64 :=
  Exec.read fun m => readMemoryValue m.memory address width

def loadByte (address : U64) : Step P U8 := Exec.read fun m => m.memory.readU8 address

def storeValue (address value : U64) (width : Nat) : Step P Unit :=
  Exec.zoom Machine.memory (fun m memory => { m with memory })
    (writeMemoryValue address value width)

def storeBytes (address : U64) (bytes : List U8) : Step P Unit :=
  Exec.zoom Machine.memory (fun m memory => { m with memory := memory })
    (writeGuestBytes address bytes)

def raise (message : String) : Step P α := Exec.throw ⟨.rcUnimplInsn, message, []⟩

/-- The register write of MOV and XOR, which accept three widths; `what` names the form. -/
def moveReg (what : String) (dst : Register) (value : U64) (width : Nat) : Step P Unit := do
  let s ← cpu
  match width with
  | 8 => setReg dst value
  | 4 => setReg dst (zeroExtend value 4)
  | 2 => setReg dst ((s.get dst &&& ~~~widthMask 2) ||| value)
  | other => raise s!"unsupported {what} width {other}"

end Casa.Cpu
