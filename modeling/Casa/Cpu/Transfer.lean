import Casa.Cpu.Frame

/-! Moves, loads, stores, exchanges and locked updates. -/
namespace Casa.Cpu
open Effect MachineInt

/-- The hot and the cold path have the same arm. -/
def movReg (dst src : Register) (width : Nat) : Step P Unit := do
  let s ← cpu
  moveReg "mov reg" dst (s.get src &&& widthMask width) width

def movReg8 (dst src : ByteRegister) : Step P Unit := do
  let s ← cpu
  setByteReg dst (s.getByte src)

def loadMemory (dst : Register) (address : MemoryOperand) (width : Nat) : Step P Unit := do
  let s ← cpu
  let value ← loadValue (resolveMemoryOperand s address) width
  mergeReg dst value width

def loadMemory8 (dst : ByteRegister) (address : MemoryOperand) : Step P Unit := do
  let s ← cpu
  let value ← loadValue (resolveMemoryOperand s address) 1
  setByteReg dst (value.setWidth 8)

/-- `[address] := value`, the value computed from the registers. -/
def storeTo (address : MemoryOperand) (value : CpuState → U64) (width : Nat) : Step P Unit := do
  let s ← cpu
  storeValue (resolveMemoryOperand s address) (value s) width

def loadEffectiveAddress (dst : Register) (address : MemoryOperand) (width : Nat) :
    Step P Unit := do
  let s ← cpu
  mergeReg dst (resolveMemoryOperand s address) width

/-! ## Exchanges -/

def exchangeMemory (address : MemoryOperand) (register : Register) (width : Nat) : Step P Unit := do
  let s ← cpu
  let target := resolveMemoryOperand s address
  let memoryValue ← loadValue target width
  storeValue target (s.get register &&& widthMask width) width
  mergeReg register memoryValue width

def exchangeMemory8 (address : MemoryOperand) (reg : ByteRegister) : Step P Unit := do
  let s ← cpu
  let target := resolveMemoryOperand s address
  let memoryValue ← loadValue target 1
  storeValue target ((s.getByte reg).setWidth 64) 1
  setByteReg reg (memoryValue.setWidth 8)

def exchangeRegisters (left right : Register) (width : Nat) : Step P Unit := do
  let s ← cpu
  mergeReg left (s.get right &&& widthMask width) width
  mergeReg right (s.get left &&& widthMask width) width

def exchangeRegisters8 (left right : ByteRegister) : Step P Unit := do
  let s ← cpu
  setByteReg left (s.getByte right)
  setByteReg right (s.getByte left)

/-! ## Widening and conditional moves -/

def signExtendTo64 (dst : Register) (src : CompareOperand) (width : Nat) : Step P Unit := do
  let value ← readOperand src width
  setReg dst (signExtend value width)

def signExtendTo (dst : Register) (src : CompareOperand) (srcWidth dstWidth : Nat) :
    Step P Unit := do
  let value ← readOperand src srcWidth
  mergeReg dst (signExtend value srcWidth &&& widthMask dstWidth) dstWidth

def zeroExtendTo64 (dst : Register) (src : CompareOperand) (width : Nat) : Step P Unit := do
  let value ← readOperand src width
  setReg dst (zeroExtend value width)

/-- CMOV reads its source only when the condition holds. -/
def cmov (condition : ConditionCode) (dst : Register) (src : CompareOperand) (width : Nat) :
    Step P Unit := do
  let s ← cpu
  if conditionHolds s.flags condition then
    let value ← readOperand src width
    match width with
    | 2 => mergeReg dst value 2
    | 4 => setReg dst (zeroExtend value 4)
    | _ => setReg dst value
  else pure ()

def flagWord (flag : Bool) : U64 := if flag then 1 else 0

def setcc (condition : ConditionCode) (dst : ByteRegister) : Step P Unit := do
  let s ← cpu
  setByteReg dst ((flagWord (conditionHolds s.flags condition)).setWidth 8)

/-! ## Locked updates

The comparison flags are set before the store that may still fail. -/

/-- The flags of a compare-and-exchange before ZF is settled. -/
def compareFlags (accumulator original : U64) (width : Nat) : Flags :=
  subFlags accumulator original ((accumulator - original) &&& widthMask width) (widthBits width)

def settleZf (zf : Bool) : Step P Unit := modifyFlags fun flags => { flags with zf }

def lockCmpxchg (address : MemoryOperand) (src : Register) (width : Nat) : Step P Unit := do
  let s ← cpu
  let target := resolveMemoryOperand s address
  let original ← loadValue target width
  let accumulator := s.get .rax &&& widthMask width
  setFlags (compareFlags accumulator original width)
  if accumulator = original then
    storeValue target (s.get src &&& widthMask width) width
    settleZf true
  else
    setReg .rax ((s.get .rax &&& ~~~widthMask width) ||| original)
    settleZf false

def cmpxchgRegisters (dst src : Register) (width : Nat) : Step P Unit := do
  let s ← cpu
  let original := s.get dst &&& widthMask width
  let accumulator := s.get .rax &&& widthMask width
  setFlags (compareFlags accumulator original width)
  if accumulator = original then
    mergeReg dst (s.get src &&& widthMask width) width
    settleZf true
  else
    mergeReg .rax original width
    settleZf false

def registerPair (s : CpuState) (high low : Register) : U64 :=
  ((s.get high &&& 0xffffffff) <<< 32) ||| (s.get low &&& 0xffffffff)

def lockCmpxchg8b (address : MemoryOperand) : Step P Unit := do
  let s ← cpu
  let target := resolveMemoryOperand s address
  let original ← loadValue target 8
  let accumulator := registerPair s .rdx .rax
  setFlags (compareFlags accumulator original 8)
  if accumulator = original then
    storeValue target (registerPair s .rcx .rbx) 8
    settleZf true
  else
    mergeReg .rax (original &&& 0xffffffff) 4
    mergeReg .rdx (original >>> 32) 4
    settleZf false

def lockXadd (address : MemoryOperand) (src : Register) (width : Nat) : Step P Unit := do
  let s ← cpu
  let target := resolveMemoryOperand s address
  let original ← loadValue target width
  storeValue target ((original + (s.get src &&& widthMask width)) &&& widthMask width) width
  mergeReg src original width

def xaddRegisters (dst src : Register) (width : Nat) : Step P Unit := do
  let s ← cpu
  let original := s.get dst &&& widthMask width
  mergeReg dst ((original + (s.get src &&& widthMask width)) &&& widthMask width) width
  mergeReg src original width

/-! ## Their shapes

The comparison flags of the locked forms may have changed when the store fails;
the registers and memory have not. -/

theorem movReg_arm (member : dst ∈ regs) : Arm P regs (movReg dst src width) :=
  .read fun _ => .moveReg member

theorem movReg8_arm (member : byte.fullRegister ∈ regs) : Arm P regs (movReg8 byte from_) :=
  .read fun _ => .sure (.setByteReg member)

theorem loadMemory_arm (member : dst ∈ regs) : Arm P regs (loadMemory dst address width) :=
  .read fun _ => .read fun _ => .sure (.mergeReg member)

theorem loadMemory8_arm (member : byte.fullRegister ∈ regs) :
    Arm P regs (loadMemory8 byte address) :=
  .read fun _ => .read fun _ => .sure (.setByteReg member)

theorem storeTo_arm : Arm P regs (storeTo address value width) :=
  .read fun _ => .storeValue

theorem loadEffectiveAddress_arm (member : dst ∈ regs) :
    Arm P regs (loadEffectiveAddress dst address width) :=
  .read fun _ => .sure (.mergeReg member)

theorem exchangeMemory_arm (member : dst ∈ regs) : Arm P regs (exchangeMemory address dst width) :=
  .read fun _ => .read fun _ => .before .storeValue fun _ => .mergeReg member

theorem exchangeMemory8_arm (member : byte.fullRegister ∈ regs) :
    Arm P regs (exchangeMemory8 address byte) :=
  .read fun _ => .read fun _ => .before .storeValue fun _ => .setByteReg member

theorem exchangeRegisters_arm (first : left ∈ regs) (second : right ∈ regs) :
    Arm P regs (exchangeRegisters left right width) :=
  .read fun _ => .sure <| .bind (.mergeReg first) fun _ => .mergeReg second

theorem exchangeRegisters8_arm (first : left.fullRegister ∈ regs)
    (second : right.fullRegister ∈ regs) : Arm P regs (exchangeRegisters8 left right) :=
  .read fun _ => .sure <| .bind (.setByteReg first) fun _ => .setByteReg second

theorem signExtendTo64_arm (member : dst ∈ regs) : Arm P regs (signExtendTo64 dst operand width) :=
  .read fun _ => .sure (.setReg member)

theorem signExtendTo_arm (member : dst ∈ regs) :
    Arm P regs (signExtendTo dst operand srcWidth dstWidth) :=
  .read fun _ => .sure (.mergeReg member)

theorem zeroExtendTo64_arm (member : dst ∈ regs) : Arm P regs (zeroExtendTo64 dst operand width) :=
  .read fun _ => .sure (.setReg member)

theorem cmov_arm (member : dst ∈ regs) : Arm P regs (cmov condition dst operand width) := by
  refine .read fun s => .ite (.read fun value => ?_) (.sure .pure)
  split
  · exact .sure (.mergeReg member)
  · exact .sure (.setReg member)
  · exact .sure (.setReg member)

theorem setcc_arm (member : byte.fullRegister ∈ regs) : Arm P regs (setcc condition byte) :=
  .read fun _ => .sure (.setByteReg member)

theorem lockCmpxchg_arm (member : .rax ∈ regs) : Arm P regs (lockCmpxchg address src width) :=
  .read fun _ => .read fun _ => .after .setFlags fun _ =>
    .ite (.before .storeValue fun _ => .modifyFlags _)
      (.sure <| .bind (.setReg member) fun _ => .modifyFlags _)

theorem cmpxchgRegisters_arm (accumulator : .rax ∈ regs) (member : dst ∈ regs) :
    Arm P regs (cmpxchgRegisters dst src width) :=
  .read fun _ => .sure <| .bind .setFlags fun _ =>
    .ite (.bind (.mergeReg member) fun _ => .modifyFlags _)
      (.bind (.mergeReg accumulator) fun _ => .modifyFlags _)

theorem lockCmpxchg8b_arm (low : .rax ∈ regs) (high : .rdx ∈ regs) :
    Arm P regs (lockCmpxchg8b address) :=
  .read fun _ => .read fun _ => .after .setFlags fun _ =>
    .ite (.before .storeValue fun _ => .modifyFlags _)
      (.sure <| .bind (.mergeReg low) fun _ => .bind (.mergeReg high) fun _ => .modifyFlags _)

theorem lockXadd_arm (member : src ∈ regs) : Arm P regs (lockXadd address src width) :=
  .read fun _ => .read fun _ => .before .storeValue fun _ => .mergeReg member

theorem xaddRegisters_arm (first : dst ∈ regs) (second : src ∈ regs) :
    Arm P regs (xaddRegisters dst src width) :=
  .read fun _ => .sure <| .bind (.mergeReg first) fun _ => .mergeReg second

end Casa.Cpu
