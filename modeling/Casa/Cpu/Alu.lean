import Casa.Cpu.Frame

/-! Add, subtract and logic arms of the interpreter's cold path. The forms of
one operation differ in where the operands come from and where the result goes,
so each form is written once over the operation. -/
namespace Casa.Cpu
open Effect MachineInt

def carryWord (cf : Bool) : U64 := if cf then 1 else 0

/-- A two-operand operation on words already masked to the operand width. The
flags are computed from the masked result and the incoming carry. -/
structure AluOp where
  result : U64 → U64 → Bool → U64
  flags : U64 → U64 → U64 → Bool → Nat → Flags

namespace AluOp

def add : AluOp where
  result lhs rhs _ := lhs + rhs
  flags lhs rhs result _ bits := addFlags lhs rhs result bits

def adc : AluOp where
  result lhs rhs cf := lhs + rhs + carryWord cf
  flags lhs rhs result cf bits := adcFlags lhs rhs (carryWord cf) result bits

def sub : AluOp where
  result lhs rhs _ := lhs - rhs
  flags lhs rhs result _ bits := subFlags lhs rhs result bits

def sbb : AluOp where
  result lhs rhs cf := lhs - rhs - carryWord cf
  flags lhs rhs result cf bits := sbbFlags lhs rhs (carryWord cf) result bits

/-- The immediate and byte-memory forms of SBB fold the borrow into the right
operand and take the flags of a plain subtraction. -/
def sbbFolded : AluOp where
  result lhs rhs cf := lhs - rhs - carryWord cf
  flags lhs rhs result cf bits := subFlags lhs (rhs + carryWord cf) result bits

def and : AluOp where
  result lhs rhs _ := lhs &&& rhs
  flags _ _ result _ bits := logicFlags result bits

def or : AluOp where
  result lhs rhs _ := lhs ||| rhs
  flags _ _ result _ bits := logicFlags result bits

def xor : AluOp where
  result lhs rhs _ := lhs ^^^ rhs
  flags _ _ result _ bits := logicFlags result bits

/-- Increment and decrement are an addition and a subtraction that keep the carry. -/
def inc : AluOp where
  result lhs rhs _ := lhs + rhs
  flags lhs rhs result cf bits := { addFlags lhs rhs result bits with cf }

def dec : AluOp where
  result lhs rhs _ := lhs - rhs
  flags lhs rhs result cf bits := { subFlags lhs rhs result bits with cf }

end AluOp

/-- `dst := dst op rhs` on a register. -/
def aluRegister (op : AluOp) (dst : Register) (rhs : U64) (width : Nat) : Step P Unit := do
  let s ← cpu
  let lhs := s.get dst &&& widthMask width
  let rhs := rhs &&& widthMask width
  let result := op.result lhs rhs s.flags.cf &&& widthMask width
  mergeReg dst result width
  setFlags (op.flags lhs rhs result s.flags.cf (widthBits width))

def aluOperand (op : AluOp) (dst : Register) (src : CompareOperand) (width : Nat) :
    Step P Unit := do
  let rhs ← readOperand src width
  aluRegister op dst rhs width

/-- `[address] := [address] op rhs`, a read-modify-write of memory. -/
def aluMemory (op : AluOp) (address : MemoryOperand) (rhs : CpuState → U64) (width : Nat) :
    Step P Unit := do
  let s ← cpu
  let target := resolveMemoryOperand s address
  let value ← loadValue target width
  let lhs := value &&& widthMask width
  let rhs := rhs s &&& widthMask width
  let result := op.result lhs rhs s.flags.cf &&& widthMask width
  storeValue target result width
  setFlags (op.flags lhs rhs result s.flags.cf (widthBits width))

/-! ## Byte registers

The byte forms compute on 8-bit words and widen only for the flags. -/

structure ByteOp where
  result : U8 → U8 → Bool → U8
  flags : U64 → U64 → U64 → Bool → Flags

namespace ByteOp

def add : ByteOp where
  result lhs rhs _ := lhs + rhs
  flags lhs rhs result _ := addFlags lhs rhs result 8

def adc : ByteOp where
  result lhs rhs cf := lhs + rhs + (carryWord cf).setWidth 8
  flags lhs rhs result cf := adcFlags lhs rhs (carryWord cf) result 8

def sub : ByteOp where
  result lhs rhs _ := lhs - rhs
  flags lhs rhs result _ := subFlags lhs rhs result 8

def sbb : ByteOp where
  result lhs rhs cf := lhs - rhs - (carryWord cf).setWidth 8
  flags lhs rhs result cf := subFlags lhs (rhs + carryWord cf) result 8

def and : ByteOp where
  result lhs rhs _ := lhs &&& rhs
  flags _ _ result _ := logicFlags result 8

def or : ByteOp where
  result lhs rhs _ := lhs ||| rhs
  flags _ _ result _ := logicFlags result 8

def xor : ByteOp where
  result lhs rhs _ := lhs ^^^ rhs
  flags _ _ result _ := logicFlags result 8

def inc : ByteOp where
  result lhs rhs _ := lhs + rhs
  flags lhs rhs result cf := { addFlags lhs rhs result 8 with cf }

def dec : ByteOp where
  result lhs rhs _ := lhs - rhs
  flags lhs rhs result cf := { subFlags lhs rhs result 8 with cf }

end ByteOp

def aluByte (op : ByteOp) (dst : ByteRegister) (rhs : U8) : Step P Unit := do
  let s ← cpu
  let lhs := s.getByte dst
  let result := op.result lhs rhs s.flags.cf
  setByteReg dst result
  setFlags (op.flags (lhs.setWidth 64) (rhs.setWidth 64) (result.setWidth 64) s.flags.cf)

def aluByteRegister (op : ByteOp) (dst src : ByteRegister) : Step P Unit := do
  let s ← cpu
  aluByte op dst (s.getByte src)

def aluByteOperand (op : ByteOp) (dst : ByteRegister) (src : CompareOperand) : Step P Unit := do
  let rhs ← readOperand src 1
  aluByte op dst (rhs.setWidth 8)

def logicMemory8 (op : ByteOp) (address : MemoryOperand) (src : ByteRegister) : Step P Unit := do
  let s ← cpu
  let target := resolveMemoryOperand s address
  let byte ← loadByte target
  let result := op.result byte (s.getByte src) s.flags.cf
  storeValue target (result.setWidth 64) 1
  setFlags (op.flags (byte.setWidth 64) ((s.getByte src).setWidth 64)
    (result.setWidth 64) s.flags.cf)

/-- The source operand of the byte-memory forms of ADD, ADC, SUB and SBB. -/
def byteSource (src : ByteRegister) (s : CpuState) : U64 := (s.getByte src).setWidth 64

/-! ## Arms with a body of their own -/

/-- XOR of a register accepts three widths only; the operand is read first. -/
def xorReg (dst : Register) (src : CompareOperand) (width : Nat) : Step P Unit := do
  let s ← cpu
  let lhs := s.get dst &&& widthMask width
  let rhs ← readOperand src width
  let result := (lhs ^^^ (rhs &&& widthMask width)) &&& widthMask width
  moveReg "xor reg" dst result width
  setFlags (logicFlags result (widthBits width))

def compare (lhs rhs : CompareOperand) (width : Nat) : Step P Unit := do
  let lhsValue ← readOperand lhs width
  let rhsValue ← readOperand rhs width
  let result := (lhsValue - rhsValue) &&& widthMask width
  setFlags (subFlags (lhsValue &&& widthMask width) (rhsValue &&& widthMask width) result
    (widthBits width))

def test (lhs rhs : CompareOperand) (width : Nat) : Step P Unit := do
  let lhsValue ← readOperand lhs width
  let rhsValue ← readOperand rhs width
  let result := (lhsValue &&& rhsValue) &&& widthMask width
  setFlags (logicFlags result (widthBits width))

/-- ADCX: the carry goes in and out through CF; no other flag is written. -/
def adcx (dst : Register) (src : CompareOperand) (width : Nat) : Step P Unit := do
  let s ← cpu
  let rhs ← readOperand src width
  let mask := widthMask width
  let lhs := s.get dst &&& mask
  let rhs := rhs &&& mask
  let carry := carryWord s.flags.cf
  mergeReg dst ((lhs + rhs + carry) &&& mask) width
  modifyFlags fun flags =>
    { flags with cf := (mask.setWidth 128).ult (lhs.setWidth 128 + rhs.setWidth 128 + carry.setWidth 128) }

/-- ADOX: the carry comes in through OF; what goes out is the signed overflow. -/
def adox (dst : Register) (src : CompareOperand) (width : Nat) : Step P Unit := do
  let s ← cpu
  let rhs ← readOperand src width
  let mask := widthMask width
  let lhs := s.get dst &&& mask
  let rhs := rhs &&& mask
  let result := (lhs + rhs + carryWord s.flags.of) &&& mask
  mergeReg dst result width
  let sign := signBit (widthBits width)
  let signedLhs := lhs &&& sign != 0
  let signedRhs := rhs &&& sign != 0
  let signedResult := result &&& sign != 0
  modifyFlags fun flags =>
    { flags with of := signedLhs == signedRhs && signedLhs != signedResult }

def negReg (dst : Register) (width : Nat) : Step P Unit := do
  let s ← cpu
  let original := s.get dst &&& widthMask width
  let result := (0 - original) &&& widthMask width
  mergeReg dst result width
  setFlags (subFlags 0 original result (widthBits width))

def negReg8 (dst : ByteRegister) : Step P Unit := do
  let s ← cpu
  let original := s.getByte dst
  let result := 0 - original
  setByteReg dst result
  setFlags (subFlags 0 (original.setWidth 64) (result.setWidth 64) 8)

def notReg (dst : Register) (width : Nat) : Step P Unit := do
  let s ← cpu
  mergeReg dst (~~~s.get dst &&& widthMask width) width

def notReg8 (dst : ByteRegister) : Step P Unit := do
  let s ← cpu
  setByteReg dst (~~~s.getByte dst)

def notMemory (address : MemoryOperand) (width : Nat) : Step P Unit := do
  let s ← cpu
  let target := resolveMemoryOperand s address
  let value ← loadValue target width
  storeValue target (~~~value &&& widthMask width) width

/-! ## Their shapes -/

theorem aluRegister_arm (member : dst ∈ regs) : Arm P regs (aluRegister op dst rhs width) :=
  .read fun _ => .sure <| .bind (.mergeReg member) fun _ => .setFlags

theorem aluOperand_arm (member : dst ∈ regs) : Arm P regs (aluOperand op dst src width) :=
  .read fun _ => aluRegister_arm member

theorem aluMemory_arm : Arm P regs (aluMemory op address rhs width) :=
  .read fun _ => .read fun _ => .before .storeValue fun _ => .setFlags

theorem aluByte_arm (member : byte.fullRegister ∈ regs) : Arm P regs (aluByte op byte rhs) :=
  .read fun _ => .sure <| .bind (.setByteReg member) fun _ => .setFlags

theorem aluByteRegister_arm (member : byte.fullRegister ∈ regs) :
    Arm P regs (aluByteRegister op byte src) :=
  .read fun _ => aluByte_arm member

theorem aluByteOperand_arm (member : byte.fullRegister ∈ regs) :
    Arm P regs (aluByteOperand op byte src) :=
  .read fun _ => aluByte_arm member

theorem logicMemory8_arm : Arm P regs (logicMemory8 op address src) :=
  .read fun _ => .read fun _ => .before .storeValue fun _ => .setFlags

theorem xorReg_arm (member : dst ∈ regs) : Arm P regs (xorReg dst src width) :=
  .read fun _ => .read fun _ => .before (.moveReg member) fun _ => .setFlags

theorem compare_arm : Arm P regs (compare lhs rhs width) :=
  .read fun _ => .read fun _ => .sure .setFlags

theorem test_arm : Arm P regs (test lhs rhs width) :=
  .read fun _ => .read fun _ => .sure .setFlags

theorem adcx_arm (member : dst ∈ regs) : Arm P regs (adcx dst src width) :=
  .read fun _ => .read fun _ => .sure <| .bind (.mergeReg member) fun _ => .modifyFlags _

theorem adox_arm (member : dst ∈ regs) : Arm P regs (adox dst src width) :=
  .read fun _ => .read fun _ => .sure <| .bind (.mergeReg member) fun _ => .modifyFlags _

theorem negReg_arm (member : dst ∈ regs) : Arm P regs (negReg dst width) :=
  .read fun _ => .sure <| .bind (.mergeReg member) fun _ => .setFlags

theorem negReg8_arm (member : byte.fullRegister ∈ regs) : Arm P regs (negReg8 byte) :=
  .read fun _ => .sure <| .bind (.setByteReg member) fun _ => .setFlags

theorem notReg_arm (member : dst ∈ regs) : Arm P regs (notReg dst width) :=
  .read fun _ => .sure (.mergeReg member)

theorem notReg8_arm (member : byte.fullRegister ∈ regs) : Arm P regs (notReg8 byte) :=
  .read fun _ => .sure (.setByteReg member)

theorem notMemory_arm : Arm P regs (notMemory address width) :=
  .read fun _ => .read fun _ => .storeValue

end Casa.Cpu
