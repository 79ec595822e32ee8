import Casa.Cpu.Frame

/-! Stack instructions and control transfers. The cold path stores before it
moves the stack pointer; the hot path moves the stack pointer first. -/
namespace Casa.Cpu
open Effect MachineInt

def pointerWord (s : CpuState) : U64 := BitVec.ofNat 64 s.arch.pointerBytes

def pushSlot (s : CpuState) (width : Nat) : U64 := s.get .rsp - BitVec.ofNat 64 width

/-! ## Cold arms -/

def push (value : U64) (width : Nat) : Step P Unit := do
  let s ← cpu
  storeValue (pushSlot s width) value width
  setReg .rsp (pushSlot s width)

def pushReg (src : Register) : Step P Unit := do
  let s ← cpu
  push (s.get src) s.arch.pointerBytes

def pushMemory (address : MemoryOperand) (width : Nat) : Step P Unit := do
  let s ← cpu
  let value ← loadValue (resolveMemoryOperand s address) width
  push value width

def pushFlags (width : Nat) : Step P Unit := do
  let s ← cpu
  push s.packEflags width

def call (target returnAddress : U64) : Step P Unit := do
  let s ← cpu
  push returnAddress s.arch.pointerBytes
  setRip target

/-- The target register is read after the stack pointer has moved. -/
def callRegister (src : Register) (returnAddress : U64) : Step P Unit := do
  let s ← cpu
  push returnAddress s.arch.pointerBytes
  let s ← cpu
  setRip (s.get src)

def callMemory (address : MemoryOperand) (returnAddress : U64) : Step P Unit := do
  let s ← cpu
  let target ← loadValue (resolveMemoryOperand s address) s.arch.pointerBytes
  push returnAddress s.arch.pointerBytes
  setRip target

def jumpMemory (address : MemoryOperand) : Step P Unit := do
  let s ← cpu
  let target ← loadValue (resolveMemoryOperand s address) s.arch.pointerBytes
  setRip target

def popSeg (width : Nat) : Step P Unit := do
  let s ← cpu
  setReg .rsp (s.get .rsp + BitVec.ofNat 64 width)

def popReg (dst : Register) : Step P Unit := do
  let s ← cpu
  let value ← loadValue (s.get .rsp) s.arch.pointerBytes
  setReg dst value
  setReg .rsp (s.get .rsp + pointerWord s)

def popMemory (address : MemoryOperand) (width : Nat) : Step P Unit := do
  let s ← cpu
  let value ← loadValue (s.get .rsp) width
  storeValue (resolveMemoryOperand s address) value width
  setReg .rsp (s.get .rsp + BitVec.ofNat 64 width)

/-- The popped image replaces every arithmetic flag, so the hot path drops a parked computation. -/
def popFlags (discard : CpuState → CpuState) (width : Nat) : Step P Unit := do
  let s ← cpu
  let value ← loadValue (s.get .rsp) width
  modifyCpu discard
  modifyCpu (·.unpackEflags value)
  setReg .rsp (s.get .rsp + BitVec.ofNat 64 width)

def leave : Step P Unit := do
  let s ← cpu
  let previousFrame ← loadValue (s.get .rbp) s.arch.pointerBytes
  setReg .rsp (s.get .rbp + pointerWord s)
  setReg .rbp previousFrame

def return_ (stackAdjust : U64) : Step P Unit := do
  let s ← cpu
  let target ← loadValue (s.get .rsp) s.arch.pointerBytes
  setReg .rsp (s.get .rsp + (pointerWord s + stackAdjust))
  setRip target

/-- Store one register of PUSHA; `sp` is the slot above. -/
def pushAllElement (original : CpuState) (sp : U64) (reg : Register) : Step P Unit :=
  storeValue (sp - pointerWord original) (original.get reg) original.arch.pointerBytes

/-- The stores run downwards from the slot under `sp`; the last slot is returned. -/
def pushAllLoop (original : CpuState) : List Register → U64 → Step P U64
  | [], sp => pure sp
  | reg :: rest, sp => do
    pushAllElement original sp reg
    pushAllLoop original rest (sp - pointerWord original)

/-- PUSHA moves the stack pointer with its eighth store. -/
def pushAll : Step P Unit := do
  let s ← cpu
  let sp ← pushAllLoop s [.rax, .rcx, .rdx, .rbx, .rsp, .rbp, .rsi, .rdi] (s.get .rsp)
  setReg .rsp sp

/-- POPA skips the stack-pointer slot. -/
def popInto (reg : Register) (value : U64) : Step P Unit :=
  if reg = .rsp then pure () else setReg reg value

/-- Each register is written as it is read. -/
def popAllLoop (width : Nat) : List Register → U64 → Step P U64
  | [], sp => pure sp
  | reg :: rest, sp => do
    let value ← loadValue sp width
    popInto reg value
    popAllLoop width rest (sp + BitVec.ofNat 64 width)

def popAll : Step P Unit := do
  let s ← cpu
  let sp ← popAllLoop s.arch.pointerBytes [.rdi, .rsi, .rbp, .rsp, .rbx, .rdx, .rcx, .rax]
    (s.get .rsp)
  setReg .rsp sp

/-! ## Hot arms -/

/-- Move the stack pointer, then store what `value` reads in the updated state. -/
def pushHot (width : Nat) (value : CpuState → U64) : Step P Unit := do
  let s ← cpu
  let sp := pushSlot s width
  setReg .rsp sp
  let s ← cpu
  storeValue sp (value s) width

/-- PUSH of a register reads it after the stack pointer has moved. -/
def pushRegHot (src : Register) : Step P Unit := do
  let s ← cpu
  pushHot s.arch.pointerBytes (·.get src)

def pushFlagsHot (materialize : CpuState → CpuState) (width : Nat) : Step P Unit := do
  let s ← cpu
  let sp := pushSlot s width
  setReg .rsp sp
  modifyCpu materialize
  let s ← cpu
  storeValue sp s.packEflags width

def leaveHot : Step P Unit := do
  let s ← cpu
  setReg .rsp (s.get .rbp)
  let s ← cpu
  let sp := s.get .rsp
  let value ← loadValue sp s.arch.pointerBytes
  setReg .rbp value
  setReg .rsp (sp + pointerWord s)

def returnHot (stackAdjust : U64) : Step P Unit := do
  let s ← cpu
  let target ← loadValue (s.get .rsp) s.arch.pointerBytes
  setRip target
  setReg .rsp (s.get .rsp + (pointerWord s + stackAdjust))

def callHot (target returnAddress : U64) : Step P Unit := do
  let s ← cpu
  pushHot s.arch.pointerBytes fun _ => returnAddress
  setRip target

/-! ## Their shapes -/

section Shapes
variable {regs : List Register}

section
variable (member : .rsp ∈ regs)
include member

theorem push_arm (value : U64) : Arm P regs (push value width) :=
  .read fun _ => .before .storeValue fun _ => .setReg member

theorem pushReg_arm (src : Register) : Arm P regs (pushReg src) :=
  .read fun _ => push_arm member _

theorem pushMemory_arm (address : MemoryOperand) : Arm P regs (pushMemory address width) :=
  .read fun _ => .read fun _ => push_arm member _

theorem pushFlags_arm : Arm P regs (pushFlags width) :=
  .read fun _ => push_arm member _

theorem call_arm (target : U64) : Arm P regs (call target returnAddress) :=
  .read fun _ => .before (push_arm member _) fun _ => .setRip

theorem callRegister_arm (src : Register) : Arm P regs (callRegister src returnAddress) :=
  .read fun _ => .before (push_arm member _) fun _ => .bind .cpu fun _ => .setRip

theorem callMemory_arm (address : MemoryOperand) : Arm P regs (callMemory address returnAddress) :=
  .read fun _ => .read fun _ => .before (push_arm member _) fun _ => .setRip

omit member in
theorem jumpMemory_arm : Arm P regs (jumpMemory address) :=
  .read fun _ => .read fun _ => .sure .setRip

theorem popSeg_arm : Arm P regs (popSeg width) :=
  .read fun _ => .sure (.setReg member)

omit member in
theorem popReg_arm (stack : .rsp ∈ regs) (member : dst ∈ regs) : Arm P regs (popReg dst) :=
  .read fun _ => .read fun _ => .sure <| .bind (.setReg member) fun _ => .setReg stack

theorem popMemory_arm (address : MemoryOperand) : Arm P regs (popMemory address width) :=
  .read fun _ => .read fun _ => .before .storeValue fun _ => .setReg member

theorem popFlags_arm {discard : CpuState → CpuState} (drops : ∀ s, CpuFrame regs s (discard s)) :
    Arm P regs (popFlags discard width) :=
  .read fun _ => .read fun _ => .sure <| .bind (.modifyCpu drops) fun _ =>
    .bind (.modifyCpu fun _ => ⟨rfl, fun _ _ => rfl, .inr rfl⟩) fun _ => .setReg member

omit member in
theorem leave_arm (stack : .rsp ∈ regs) (frame : .rbp ∈ regs) : Arm P regs leave :=
  .read fun _ => .read fun _ => .sure <| .bind (.setReg stack) fun _ => .setReg frame

theorem return_arm (stackAdjust : U64) : Arm P regs (return_ stackAdjust) :=
  .read fun _ => .read fun _ => .sure <| .bind (.setReg member) fun _ => .setRip

theorem returnHot_arm (stackAdjust : U64) : Arm P regs (returnHot stackAdjust) :=
  .read fun _ => .read fun _ => .sure <| .bind .setRip fun _ => .setReg member

end

/-! The group forms, and the hot forms that move the stack pointer first, may
fail half way. -/

theorem pushAllLoop_frame :
    Exec.Relates (Frame regs) (pushAllLoop original order sp : Step P U64) := by
  induction order generalizing sp with
  | nil => exact .pure sp
  | cons reg rest ih => exact .bind storeValue_frame fun _ => ih

theorem pushAll_frame (member : .rsp ∈ regs) : Exec.Relates (Frame regs) (pushAll : Step P Unit) :=
  .bind (.read _) fun _ => .bind pushAllLoop_frame fun _ => (Sure.setReg member).frame

theorem popAllLoop_frame (subset : order ⊆ regs) :
    Exec.Relates (Frame regs) (popAllLoop width order sp : Step P U64) := by
  induction order generalizing sp with
  | nil => exact .pure sp
  | cons reg rest ih =>
    obtain ⟨member, subset⟩ := List.cons_subset.mp subset
    exact .bind (.read _) fun _ => .bind (.ite (.pure _) (Sure.setReg member).frame) fun _ =>
      ih subset

theorem popAll_frame (subset : [.rdi, .rsi, .rbp, .rsp, .rbx, .rdx, .rcx, .rax] ⊆ regs) :
    Exec.Relates (Frame regs) (popAll : Step P Unit) :=
  .bind (.read _) fun _ => .bind (popAllLoop_frame subset) fun _ =>
    (Sure.setReg (subset (by decide))).frame

end Shapes

end Casa.Cpu
