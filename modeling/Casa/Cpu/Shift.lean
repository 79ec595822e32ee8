import Casa.Cpu.Frame

/-! Shifts, rotates and bit manipulation of the cold path. The shift arms work
with the operand width in bits as a 32-bit number; a count that leaves the
operand unchanged leaves the flags alone as well. -/
namespace Casa.Cpu
open Effect MachineInt
variable {P : Platform}

def shiftCount (count : U8) (bits : Nat) : Nat := count.toNat &&& (if bits = 64 then 63 else 31)

/-- `1_u64 << (bits - 1)` on a 32-bit width. -/
def shiftSign (bits : Nat) : U64 := shl 1 (wrapSub 32 bits 1)

def lowBit (value : U64) (position : Nat) : Bool := shr value position &&& 1 != 0

structure ShiftOp where
  result : U64 → Nat → Nat → U64
  carry : U64 → Nat → Nat → Bool
  overflow : U64 → U64 → U64 → Bool

namespace ShiftOp

def shl : ShiftOp where
  result lhs shift width := MachineInt.shl lhs shift &&& widthMask width
  carry lhs shift bits := lowBit lhs (wrapSub 32 bits shift)
  overflow lhs result sign := (lhs ^^^ result) &&& sign != 0

def shr : ShiftOp where
  result lhs shift _ := MachineInt.shr lhs shift
  carry lhs shift _ := lowBit lhs (wrapSub 32 shift 1)
  overflow lhs _ sign := lhs &&& sign != 0

def sar : ShiftOp where
  result lhs shift width := MachineInt.sar (signExtend lhs width) shift &&& widthMask width
  carry lhs shift _ := lowBit lhs (wrapSub 32 shift 1)
  overflow _ _ _ := false

/-- A shift defines every arithmetic flag; OF only for a count of one. -/
def flags (op : ShiftOp) (lhs result : U64) (shift bits : Nat) : Flags where
  cf := op.carry lhs shift bits
  pf := parity (result.setWidth 8)
  af := false
  zf := result == 0
  sf := result &&& shiftSign bits != 0
  of := shift == 1 && op.overflow lhs result (shiftSign bits)

end ShiftOp

/-- Shift of a register. The hot path also drops a parked flag computation. -/
def shiftRegister (op : ShiftOp) (discard : CpuState → CpuState) (dst : Register) (count : U8)
    (width : Nat) : Step P Unit := do
  let s ← cpu
  let shift := shiftCount count (shiftBits width)
  if shift = 0 then pure ()
  else
    let lhs := s.get dst &&& widthMask width
    let result := op.result lhs shift width
    mergeReg dst result width
    modifyCpu discard
    setFlags (op.flags lhs result shift (shiftBits width))

def shiftMemory (op : ShiftOp) (address : MemoryOperand) (count : U8) (width : Nat) :
    Step P Unit := do
  let s ← cpu
  let shift := shiftCount count (shiftBits width)
  if shift = 0 then pure ()
  else
    let target := resolveMemoryOperand s address
    let value ← loadValue target width
    let lhs := value &&& widthMask width
    let result := op.result lhs shift width
    storeValue target result width
    setFlags (op.flags lhs result shift (shiftBits width))

/-! ## Rotates -/

inductive RotateKind where
  | left
  | right

def setRotateFlags (flags : Flags) (result : U64) (bits rotate : Nat) (kind : RotateKind) : Flags :=
  let msb := lowBit result (wrapSub 32 bits 1)
  let shared :=
    { flags with pf := parity (result.setWidth 8), af := false, zf := result == 0, sf := msb }
  match kind with
  | .left =>
    let cf := result &&& 1 != 0
    { shared with cf, of := rotate == 1 && msb != cf }
  | .right =>
    let next := lowBit result (wrapSub 32 bits 2)
    { shared with cf := msb, of := rotate == 1 && msb != next }

def rotateCount (count : U8) (bits : Nat) : Nat :=
  if bits = 0 then 0 else shiftCount count bits % bits

def rotated (kind : RotateKind) (value : U64) (rotate bits : Nat) : U64 :=
  match kind with
  | .left => shl value rotate ||| shr value (wrapSub 32 bits rotate)
  | .right => shr value rotate ||| shl value (wrapSub 32 bits rotate)

def rotateRegister (kind : RotateKind) (dst : Register) (count : U8) (width : Nat) :
    Step P Unit := do
  let s ← cpu
  let bits := shiftBits width
  let rotate := rotateCount count bits
  if rotate = 0 then pure ()
  else
    let result := rotated kind (s.get dst &&& widthMask width) rotate bits &&& widthMask width
    mergeReg dst result width
    modifyFlags fun flags => setRotateFlags flags result bits rotate kind

def rotateMemory (kind : RotateKind) (address : MemoryOperand) (count : U8) (width : Nat) :
    Step P Unit := do
  let s ← cpu
  let bits := shiftBits width
  let rotate := rotateCount count bits
  if rotate = 0 then pure ()
  else
    let target := resolveMemoryOperand s address
    let value ← loadValue target width
    let result := rotated kind (value &&& widthMask width) rotate bits &&& widthMask width
    storeValue target result width
    modifyFlags fun flags => setRotateFlags flags result bits rotate kind

/-- One bit of a rotate through the carry, on the value and the carry word. -/
def carryRotation (kind : RotateKind) (mask : U64) (bits : Nat) :
    U64 × U64 → U64 × U64
  | (value, carry) =>
    match kind with
    | .left => (((shl value 1) ||| carry) &&& mask, shr value (wrapSub 32 bits 1) &&& 1)
    | .right => (shr value 1 ||| shl carry (wrapSub 32 bits 1), value &&& 1)

/-- What a rotate through the carry leaves in the operand and in the flags. -/
def rotateThroughCarry (kind : RotateKind) (original : U64) (flags : Flags) (rotate width : Nat) :
    U64 × Flags :=
  let bits := shiftBits width
  let (value, carry) :=
    (carryRotation kind (widthMask width) bits)^[rotate] (original, if flags.cf then 1 else 0)
  let cf := carry != 0
  let overflow :=
    match kind with
    | .left => cf ^^ lowBit value (wrapSub 32 bits 1)
    | .right => (original ^^^ value) &&& shiftSign bits != 0
  (value, { flags with cf, of := if rotate = 1 then overflow else flags.of })

/-- The rotate-through-carry count; the carry is one more position. -/
def carryRotateCount (count : U8) (bits : Nat) : Nat := shiftCount count bits % (bits + 1)

def rotateCarryRegister (kind : RotateKind) (dst : Register) (count : U8) (width : Nat) :
    Step P Unit := do
  let s ← cpu
  let rotate := carryRotateCount count (shiftBits width)
  if rotate = 0 then pure ()
  else
    let rotated := rotateThroughCarry kind (s.get dst &&& widthMask width) s.flags rotate width
    mergeReg dst rotated.1 width
    setFlags rotated.2

def rotateCarryMemory (kind : RotateKind) (address : MemoryOperand) (count : U8) (width : Nat) :
    Step P Unit := do
  let s ← cpu
  let rotate := carryRotateCount count (shiftBits width)
  if rotate = 0 then pure ()
  else
    let target := resolveMemoryOperand s address
    let value ← loadValue target width
    let rotated := rotateThroughCarry kind (value &&& widthMask width) s.flags rotate width
    storeValue target rotated.1 width
    setFlags rotated.2

/-- ROR by CL rotates in place, where the other CL forms run their immediate form. -/
def rorCl (dst : Register) (width : Nat) : Step P Unit := do
  let s ← cpu
  rotateRegister .right dst (s.getByte .cl) width

/-! ## Double shifts -/

def executeShld (dst src : Register) (count : U8) (width : Nat) : Step P Unit := do
  let s ← cpu
  let bits := shiftBits width
  let shift := shiftCount count bits
  if shift = 0 then pure ()
  else
    let lhs := s.get dst &&& widthMask width
    let rhs := s.get src &&& widthMask width
    let concat : BitVec 128 := shl (lhs.setWidth 128) bits ||| rhs.setWidth 128
    let result := (shr (shl concat shift) bits).setWidth 64 &&& widthMask width
    let cf := shr concat (wrapSub 32 (bits * 2) shift) &&& 1 != 0
    mergeReg dst result width
    setFlags
      { cf
        pf := parity (result.setWidth 8)
        zf := result == 0
        sf := result &&& shiftSign bits != 0
        of := shift == 1 && ((result &&& shiftSign bits != 0) ^^ cf) }

def executeShrd (dst src : Register) (count : U8) (width : Nat) : Step P Unit := do
  let s ← cpu
  let bits := shiftBits width
  let shift := shiftCount count bits
  if shift = 0 then pure ()
  else
    let lhs := s.get dst &&& widthMask width
    let rhs := s.get src &&& widthMask width
    let concat : BitVec 128 := shl (rhs.setWidth 128) bits ||| lhs.setWidth 128
    let result := (shr concat shift).setWidth 64 &&& widthMask width
    mergeReg dst result width
    setFlags
      { cf := lowBit lhs (wrapSub 32 shift 1)
        pf := parity (result.setWidth 8)
        zf := result == 0
        sf := result &&& shiftSign bits != 0
        of := shift == 1 && ((lhs &&& shiftSign bits != 0) ^^ (result &&& shiftSign bits != 0)) }

/-! ## Their shapes -/

theorem shiftRegister_arm {discard : CpuState → CpuState} (drops : ∀ s, CpuFrame regs s (discard s))
    (member : dst ∈ regs) : Arm P regs (shiftRegister op discard dst count width) :=
  .read fun _ => .sure <| .ite .pure <| .bind (.mergeReg member) fun _ =>
    .bind (.modifyCpu drops) fun _ => .setFlags

theorem shiftMemory_arm : Arm P regs (shiftMemory op address count width) :=
  .read fun _ => .ite (.sure .pure) <| .read fun _ => .before .storeValue fun _ => .setFlags

theorem rotateRegister_arm (member : dst ∈ regs) :
    Arm P regs (rotateRegister kind dst count width) :=
  .read fun _ => .sure <| .ite .pure <| .bind (.mergeReg member) fun _ => .modifyFlags _

theorem rotateMemory_arm : Arm P regs (rotateMemory kind address count width) :=
  .read fun _ => .ite (.sure .pure) <| .read fun _ => .before .storeValue fun _ => .modifyFlags _

theorem rotateCarryRegister_arm (member : dst ∈ regs) :
    Arm P regs (rotateCarryRegister kind dst count width) :=
  .read fun _ => .sure <| .ite .pure <| .bind (.mergeReg member) fun _ => .setFlags

theorem rotateCarryMemory_arm : Arm P regs (rotateCarryMemory kind address count width) :=
  .read fun _ => .ite (.sure .pure) <| .read fun _ => .before .storeValue fun _ => .setFlags

theorem rorCl_arm (member : dst ∈ regs) : Arm P regs (rorCl dst width) :=
  .read fun _ => rotateRegister_arm member

theorem executeShld_arm (member : dst ∈ regs) : Arm P regs (executeShld dst src count width) :=
  .read fun _ => .sure <| .ite .pure <| .bind (.mergeReg member) fun _ => .setFlags

theorem executeShrd_arm (member : dst ∈ regs) : Arm P regs (executeShrd dst src count width) :=
  .read fun _ => .sure <| .ite .pure <| .bind (.mergeReg member) fun _ => .setFlags

end Casa.Cpu
