import Casa.Cpu.Frame

/-! Instructions that consult the host or the processor's system state: CPUID,
ports, clocks and random numbers, debug and bound registers, the shadow stack,
and the feature stubs that answer with fixed values. -/
namespace Casa.Cpu
open Effect MachineInt

structure CpuidLeaf where
  eax : U32
  ebx : U32
  ecx : U32
  edx : U32

structure CpuVirtualization where
  leaf : U32 → U32 → CpuidLeaf
  xcr0 : U64

/-- A configured port bus; reads only look at the devices behind it. -/
structure IoPortBus (P : Platform) where
  readU8 : P.Device → U16 → U8
  readU16 : P.Device → U16 → U16
  readU32 : P.Device → U16 → U32
  writeU8 : U16 → U8 → P.Device → P.Device
  writeU16 : U16 → U16 → P.Device → P.Device
  writeU32 : U16 → U32 → P.Device → P.Device

/-- The surroundings of the interpreter. The clock and the random source are
functions of the device state, so that two runs can be compared. -/
structure Host (P : Platform) where
  virtualization : Option CpuVirtualization
  portBus : Option (IoPortBus P)
  clock : P.Device → U64 × P.Device
  random : P.Device → Option U64 × P.Device
  /-- The bits of a double rounded to a single. -/
  asF32 : U64 → U32
  /-- What a vector, x87 or mask instruction that stores nothing does to those
  registers, the flags it leaves and the value for its general register. -/
  execute : P.Instruction → CpuState → MemoryImage → Exec VectorState AppError (Flags × U64)
  target : P.Instruction → Option Register

def modifyDevice (f : P.Device → P.Device) : Step P Unit :=
  Exec.modify fun m => { m with device := f m.device }

def device : Step P P.Device := Exec.read fun m => .ok m.device

/-! ## Host queries -/

def cpuid (host : Host P) : Step P Unit :=
  match host.virtualization with
  | none => raise "CPUID requires CPU virtualization state"
  | some virtualization => do
    let s ← cpu
    let result := virtualization.leaf ((s.get .rax).setWidth 32) ((s.get .rcx).setWidth 32)
    setReg .rax (result.eax.setWidth 64)
    setReg .rbx (result.ebx.setWidth 64)
    setReg .rcx (result.ecx.setWidth 64)
    setReg .rdx (result.edx.setWidth 64)

def xgetbv (host : Host P) : Step P Unit :=
  match host.virtualization with
  | none => raise "XGETBV requires CPU virtualization state"
  | some virtualization => do
    let s ← cpu
    let xcr := (s.get .rcx).setWidth 32
    if xcr ≠ 0 then raise s!"unsupported XGETBV register xcr{xcr.toNat}"
    else
      setReg .rax ((virtualization.xcr0.setWidth 32).setWidth 64)
      setReg .rdx (((virtualization.xcr0 >>> 32).setWidth 32).setWidth 64)

/-- The port of the immediate forms, or DX. -/
def portNumber (s : CpuState) (port : Option U16) : U16 :=
  port.getD ((s.get .rdx &&& 0xffff).setWidth 16)

/-- Without a bus a few system ports read as zero and the others float high. -/
def unconnectedPort (port : U16) (width : Nat) : U64 :=
  if port = 0x80 ∨ port = 0x20 ∨ port = 0xa0 ∨ port = 0xcf9 then 0 else widthMask width

def readPort (host : Host P) (devices : P.Device) (port : U16) (width : Nat) : U64 :=
  match host.portBus with
  | none => unconnectedPort port width
  | some bus =>
    match width with
    | 1 => (bus.readU8 devices port).setWidth 64
    | 2 => (bus.readU16 devices port).setWidth 64
    | _ => (bus.readU32 devices port).setWidth 64

def writePort (host : Host P) (port : U16) (value : U64) (width : Nat) : P.Device → P.Device :=
  match host.portBus with
  | none => id
  | some bus =>
    match width with
    | 1 => bus.writeU8 port (value.setWidth 8)
    | 2 => bus.writeU16 port (value.setWidth 16)
    | _ => bus.writeU32 port (value.setWidth 32)

def portIn (host : Host P) (port : Option U16) (width : Nat) : Step P Unit := do
  let s ← cpu
  let devices ← device
  mergeReg .rax (readPort host devices (portNumber s port) width) width

def portOut (host : Host P) (port : Option U16) (width : Nat) : Step P Unit := do
  let s ← cpu
  modifyDevice (writePort host (portNumber s port) (s.get .rax &&& widthMask width) width)

def rdtsc (host : Host P) : Step P Unit := do
  let devices ← device
  let nanos := (host.clock devices).1
  modifyDevice fun d => (host.clock d).2
  setReg .rax (nanos &&& 0xffffffff)
  setReg .rdx ((nanos >>> 32) &&& 0xffffffff)

/-- RDRAND and RDSEED report success in CF and clear the destination on failure. -/
def rdrand (host : Host P) (dst : Register) : Step P Unit := do
  let devices ← device
  let drawn := (host.random devices).1
  modifyDevice fun d => (host.random d).2
  setReg dst (drawn.getD 0)
  modifyFlags fun flags => { flags with cf := drawn.isSome }

def rdpmc : Step P Unit := do
  let s ← cpu
  setReg .rax (s.get .rdx + 1)
  setReg .rdx 0

/-! ## System state -/

def halt : Step P Unit := Exec.throw ⟨.halted, "guest executed HLT instruction", []⟩

def breakpoint : Step P Unit := do
  let s ← cpu
  raise ("breakpoint at " ++ hex s.rip)

def modifyEflagsExtra (f : U64 → U64) : Step P Unit :=
  modifyCpu fun s => { s with eflagsExtra := f s.eflagsExtra }

def movFromDr (dst : Register) (index : U8) : Step P Unit := do
  let s ← cpu
  setReg dst (s.dr (index &&& 0x07).toNat)

def movToDr (index : U8) (src : Register) : Step P Unit :=
  modifyCpu fun s => { s with dr := Function.update s.dr (index &&& 0x07).toNat (s.get src) }

/-- The sign-extended words are widened as unsigned numbers, so BOUND compares
them without their sign. -/
def bound (reg : Register) (address : MemoryOperand) (width : Nat) : Step P Unit := do
  let s ← cpu
  let value := s.get reg &&& widthMask width
  let base := resolveMemoryOperand s address
  let lower ← loadValue base width
  let upper ← loadValue (base + BitVec.ofNat 64 width) width
  let lower := lower &&& widthMask width
  let upper := upper &&& widthMask width
  if (signExtend value width).ult (signExtend lower width)
      ∨ (signExtend upper width).ult (signExtend value width) then
    raise ("BOUND #BR: register " ++ hex value ++ " out of range [" ++ hex lower ++ ", " ++ hex upper ++ "]")
  else pure ()

/-- Segment loads check the selector and are otherwise without effect. -/
def loadSegment (segment : U8) (src : CompareOperand) : Step P Unit := do
  let operand ← readOperand src 2
  let selector := operand.setWidth 16
  if selector ≠ 0 ∧ selector &&& 0x3 ≠ 0x3 then
    raise ("invalid segment selector " ++ hex selector ++ s!" for segment {segment.toNat}")
  else pure ()

def sahf : Step P Unit := do
  let s ← cpu
  let ah := s.getByte .ah
  modifyFlags fun flags =>
    { flags with
      sf := ah &&& 0x80 != 0
      zf := ah &&& 0x40 != 0
      af := ah &&& 0x10 != 0
      pf := ah &&& 0x04 != 0
      cf := ah &&& 0x01 != 0 }

def lahf : Step P Unit := do
  let s ← cpu
  let bit (flag : Bool) (mask : U8) : U8 := if flag then mask else 0
  setByteReg .ah
    (bit s.flags.sf 0x80 ||| bit s.flags.zf 0x40 ||| bit s.flags.af 0x10 ||| bit s.flags.pf 0x04
      ||| bit s.flags.cf 0x01)

/-- XBEGIN and XTEST report that no transaction is active. -/
def noTransaction : Step P Unit := do
  setReg .rax 0
  modifyFlags fun flags => { flags with zf := true }

/-! ## Shadow stack -/

def saveSsP : Step P Unit := do
  let s ← cpu
  if s.ssp.ult 8 then pure () else storeValue (s.ssp - 8) s.ssp 8

def rstorssp (address : MemoryOperand) : Step P Unit := do
  let s ← cpu
  let value ← loadValue (resolveMemoryOperand s address) 8
  modifyCpu fun s => { s with ssp := value }

def incssp (src : Register) : Step P Unit :=
  modifyCpu fun s => { s with ssp := s.ssp + (s.get src &&& 0xff) * 8 }

/-! ## Bound registers -/

def setBounds (index : U8) (value : U64 × U64) : Step P Unit :=
  modifyCpu (·.setBnd index value)

/-- The operand of the register forms is a register field of the instruction. -/
def boundsRegister (src : U8) : Step P U64 := do
  let s ← cpu
  pure (s.get (Register.fromModrm src))

def boundsMemory (address : MemoryOperand) : Step P U64 := do
  let s ← cpu
  loadValue (resolveMemoryOperand s address) 8

def bndmk (dst : U8) (operand : Step P U64) : Step P Unit := do
  let value ← operand
  setBounds dst (value, ~~~(value - 1))

def bndcl (bnd : U8) (operand : Step P U64) : Step P Unit := do
  let value ← operand
  let s ← cpu
  let bounds := s.getBnd bnd
  if value.ult bounds.1 then
    raise ("MPX #BR: BNDCL violation — addr " ++ hex value ++ " < LB " ++ hex bounds.1)
  else setBounds bnd bounds

/-- BNDCU and BNDCN differ in the name they report. -/
def bndcUpper (name : String) (bnd : U8) (operand : Step P U64) : Step P Unit := do
  let value ← operand
  let s ← cpu
  let bounds := s.getBnd bnd
  if (~~~bounds.2).ult value then
    raise ("MPX #BR: " ++ name ++ " violation — addr " ++ hex value ++ " > UB " ++ hex (~~~bounds.2))
  else setBounds bnd bounds

def bndmovReg (dst src : U8) : Step P Unit := do
  let s ← cpu
  setBounds dst (s.getBnd src)

def bndmovMemLoad (dst : U8) (address : MemoryOperand) : Step P Unit := do
  let s ← cpu
  let target := resolveMemoryOperand s address
  let lower ← loadValue target 8
  let upper ← loadValue (target + 8) 8
  setBounds dst (lower, upper)

def bndmovMemStore (src : U8) (address : MemoryOperand) : Step P Unit := do
  let s ← cpu
  let target := resolveMemoryOperand s address
  storeValue target (s.getBnd src).1 8
  storeValue (target + 8) (s.getBnd src).2 8

/-! ## Spill slots -/

def jitSpillSlots : Nat := 32

def spillSlotError (index : Nat) : Step P Unit :=
  Exec.throw ⟨.rcInvalidState, s!"JIT spill slot {index} out of range", []⟩

def spillStore (slot : U16) (src : Register) : Step P Unit :=
  if jitSpillSlots ≤ slot.toNat then spillSlotError slot.toNat
  else modifyCpu fun s => { s with jitSpill := Function.update s.jitSpill slot.toNat (s.gpr src) }

/-- A spill load is masked like every other register write. -/
def spillLoad (slot : U16) (dst : Register) : Step P Unit :=
  if jitSpillSlots ≤ slot.toNat then spillSlotError slot.toNat
  else modifyCpu fun s => s.set dst (s.jitSpill slot.toNat)

/-! ## Their shapes -/

theorem modifyDevice_sure : Sure regs (modifyDevice f : Step P Unit) :=
  ⟨.modify fun _ => ⟨rfl, fun _ _ => rfl, .inl rfl, rfl⟩, .modify _⟩

theorem cpuid_arm (subset : [.rax, .rbx, .rcx, .rdx] ⊆ regs) : Arm P regs (cpuid host) := by
  unfold cpuid
  split
  · exact .quiet .throw
  · exact .read fun _ => .sure <| .bind (.setReg (subset (by decide))) fun _ =>
      .bind (.setReg (subset (by decide))) fun _ => .bind (.setReg (subset (by decide))) fun _ =>
        .setReg (subset (by decide))

theorem xgetbv_arm (subset : [.rax, .rdx] ⊆ regs) : Arm P regs (xgetbv host) := by
  unfold xgetbv
  split
  · exact .quiet .throw
  · exact .read fun _ => .ite (.quiet .throw) <| .sure <|
      .bind (.setReg (subset (by decide))) fun _ => .setReg (subset (by decide))

theorem portIn_arm (member : .rax ∈ regs) : Arm P regs (portIn host port width) :=
  .read fun _ => .read fun _ => .sure (.mergeReg member)

theorem portOut_arm : Arm P regs (portOut host port width) :=
  .read fun _ => .sure modifyDevice_sure

theorem rdtsc_arm (subset : [.rax, .rdx] ⊆ regs) : Arm P regs (rdtsc host) :=
  .read fun _ => .sure <| .bind modifyDevice_sure fun _ =>
    .bind (.setReg (subset (by decide))) fun _ => .setReg (subset (by decide))

theorem rdrand_arm (member : dst ∈ regs) : Arm P regs (rdrand host dst) :=
  .read fun _ => .sure <|
    .bind modifyDevice_sure fun _ => .bind (.setReg member) fun _ => .modifyFlags _

theorem rdpmc_arm (subset : [.rax, .rdx] ⊆ regs) : Arm P regs rdpmc :=
  .read fun _ => .sure <| .bind (.setReg (subset (by decide))) fun _ => .setReg (subset (by decide))

theorem breakpoint_arm : Arm P regs breakpoint := .read fun _ => .quiet .throw

theorem modifyEflagsExtra_arm : Arm P regs (modifyEflagsExtra f) :=
  .sure <| .modifyCpu fun _ => .keep rfl rfl rfl

theorem movFromDr_arm (member : dst ∈ regs) : Arm P regs (movFromDr dst index) :=
  .read fun _ => .sure (.setReg member)

theorem movToDr_arm : Arm P regs (movToDr index src) :=
  .sure <| .modifyCpu fun _ => .keep rfl rfl rfl

theorem bound_arm : Arm P regs (bound reg address width) :=
  .read fun _ => .read fun _ => .read fun _ => .ite (.quiet .throw) (.quiet .pure)

theorem loadSegment_arm {segment : U8} : Arm P regs (loadSegment segment src) :=
  .read fun _ => .ite (.quiet .throw) (.quiet .pure)

theorem sahf_arm : Arm P regs sahf := .read fun _ => .sure (.modifyFlags _)

theorem lahf_arm (member : .rax ∈ regs) : Arm P regs lahf :=
  .read fun _ => .sure (.setByteReg member)

theorem noTransaction_arm (member : .rax ∈ regs) : Arm P regs noTransaction :=
  .sure <| .bind (.setReg member) fun _ => .modifyFlags _

theorem saveSsP_arm : Arm P regs saveSsP :=
  .read fun _ => .ite (.quiet .pure) .storeValue

theorem rstorssp_arm : Arm P regs (rstorssp address) :=
  .read fun _ => .read fun _ => .sure <| .modifyCpu fun _ => .keep rfl rfl rfl

theorem incssp_arm : Arm P regs (incssp src) :=
  .sure <| .modifyCpu fun _ => .keep rfl rfl rfl

theorem setBounds_arm : Arm P regs (setBounds index value) :=
  .sure <| .modifyCpu fun _ => .keep rfl rfl rfl

theorem boundsRegister_quiet : Quiet regs (boundsRegister src : Step P U64) :=
  .bind .read fun _ => .pure

theorem boundsMemory_quiet : Quiet regs (boundsMemory address : Step P U64) :=
  .bind .read fun _ => .read

theorem bndmk_arm (reads : Quiet regs operand) : Arm _ regs (bndmk index operand) :=
  .after reads fun _ => setBounds_arm

theorem bndcl_arm (reads : Quiet regs operand) : Arm _ regs (bndcl index operand) :=
  .after reads fun _ => .read fun _ => .ite (.quiet .throw) setBounds_arm

theorem bndcUpper_arm (reads : Quiet regs operand) : Arm _ regs (bndcUpper name index operand) :=
  .after reads fun _ => .read fun _ => .ite (.quiet .throw) setBounds_arm

theorem bndmovReg_arm : Arm P regs (bndmovReg index src) :=
  .read fun _ => setBounds_arm

theorem bndmovMemLoad_arm : Arm P regs (bndmovMemLoad index address) :=
  .read fun _ => .read fun _ => .read fun _ => setBounds_arm

theorem bndmovMemStore_frame :
    Exec.Relates (Frame regs) (bndmovMemStore src address : Step P Unit) :=
  .bind (.read _) fun _ => .bind storeValue_frame fun _ => storeValue_frame

theorem spillStore_arm : Arm P regs (spillStore slot src) :=
  .ite (.quiet .throw) (.sure <| .modifyCpu fun _ => .keep rfl rfl rfl)

theorem spillLoad_arm (member : dst ∈ regs) : Arm P regs (spillLoad slot dst) :=
  .ite (.quiet .throw) (.sure <| .modifyCpu fun _ => .set member)

end Casa.Cpu
