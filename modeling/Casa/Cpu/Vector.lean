import Casa.Cpu.Ir
import Casa.Cpu.System

/-! The vector and x87 side of the interpreter: the instructions that store, each
as the parts it writes in order (their arms in cpu/interpreter.rs, cpu/simd.rs
and the save areas of cpu/x87.rs), and the others through the host. -/
namespace Casa.Cpu
open Effect MachineInt
open BitVec (ofNat)

/-! ## Operands -/

def unsupportedVector (what : String) (width : Nat) : AppError :=
  ⟨.rcUnimplInsn, s!"unsupported vector {what} width {width}", []⟩

/-- The low bytes of a ZMM register; there are sixteen of them. -/
def VectorState.getBytes (v : VectorState) (index : U8) (width : Nat) : Result AppError (List U8) :=
  let bytes (value : XmmValue) := toLeBytes 8 value.low ++ toLeBytes 8 value.high
  let i := index.toNat
  if 16 ≤ i then .panic
  else .ok ((bytes (v.xmm i) ++ bytes (v.ymmUpper i) ++ bytes (v.zmmUpper i).low
    ++ bytes (v.zmmUpper i).high).take width)

def readVectorRegister (v : VectorState) (index : U8) (width : Nat) : Result AppError (List U8) :=
  if width ∈ [4, 8, 16, 32] then v.getBytes index width else .error (unsupportedVector "register" width)

def readVectorBytes (v : VectorState) (index : U8) (width : Nat) : Result AppError (List U8) :=
  if width ∈ [4, 8, 16, 32, 64] then v.getBytes index width
  else .error (unsupportedVector "byte read" width)

def readVectorOperandBytes (s : CpuState) (memory : MemoryImage) (operand : VectorOperand)
    (width : Nat) : Result AppError (List U8) :=
  match operand with
  | .register index => readVectorBytes s.vector index width
  | .memory address =>
    let target := resolveMemoryOperand s address
    if width = 4 then do
      return toLeBytes 4 (← readMemoryValue memory target 4)
    else if width ∈ [8, 16, 32, 64] then do
      let words ← (List.range (width / 8)).mapM fun i => memory.readU64 (target + ofNat 64 (8 * i))
      return words.flatMap (toLeBytes 8)
    else .error (unsupportedVector "operand byte read" width)

/-- `checked_u32_le` and `checked_u64_le`. -/
def checkedLe (n : Nat) (bytes : List U8) (offset : Nat) : Result AppError U64 :=
  if offset + n ≤ bytes.length then .ok (fromLeBytes 64 ((bytes.drop offset).take n))
  else
    let message := s!"byte slice too short for {n}-byte read at offset {offset} (len={bytes.length})"
    .error ⟨.rcUnimplInsn, message, []⟩

/-! ## x87 values -/

def x87ControlWord (x87 : X87State) : U64 :=
  0x037f ||| match x87.roundingMode with
    | .nearest => 0
    | .down => 0x0400
    | .up => 0x0800
    | .towardZero => 0x0c00

def x87StatusWord (x87 : X87State) : U64 :=
  (if x87.divideByZero then 1 <<< 2 else 0) ||| (if x87.precision then 1 <<< 5 else 0)

def X87State.top (x87 : X87State) : Result AppError U64 :=
  match x87.stack.getLast? with
  | some value => .ok value
  | none => .error ⟨.rcUnimplInsn, "x87 stack underflow", []⟩

/-- The sign with the exponent, and the significand, of an extended double. -/
def f64ToF80 (bits : U64) : U64 × U64 :=
  let sign := bits >>> 63
  let exp := (bits >>> 52) &&& 0x7ff
  let frac := bits &&& 0xfffffffffffff
  let lz := leadingZeros frac
  if exp = 0x7ff then ((sign <<< 15) ||| 0x7fff, (1 <<< 63) ||| (frac <<< 11))
  else if exp = 0 ∧ frac = 0 then (sign <<< 15, 0)
  else
    let (extExp, extMant) : U64 × U64 :=
      if exp = 0 then (ofNat 64 (15372 - lz), frac <<< lz) else (exp + 15360, (1 <<< 63) ||| (frac <<< 11))
    ((sign <<< 15) ||| (extExp &&& 0x7fff), extMant)

/-- The same for a store, which leaves a subnormal as it is. -/
def x87Extended (bits : U64) : U64 × U64 :=
  let sign := bits >>> 63
  let exp := (bits >>> 52) &&& 0x7ff
  let (x87Exp, x87Int) : U64 × U64 :=
    if exp = 0x7ff then (0x7fff, 1) else if exp = 0 then (0, 0) else (exp + 15360, 1)
  ((sign <<< 15) ||| x87Exp, (x87Int <<< 63) ||| ((bits &&& 0xfffffffffffff) <<< 11))

/-! ## Save areas -/

abbrev Part : Type := U64 × List U8

def part (base : U64) (offset width : Nat) (value : U64) : Part :=
  (base + ofNat 64 offset, toLeBytes width value)

/-- Sixteen registers of sixteen bytes. -/
def xmmParts (base : U64) (offset : Nat) (xmm : Nat → XmmValue) : List Part :=
  (List.range 16).flatMap fun i =>
    [part base (offset + 16 * i) 8 (xmm i).low, part base (offset + 16 * i + 8) 8 (xmm i).high]

def fxsaveToMemory (v : VectorState) (base : U64) : List Part :=
  let depth := min v.x87.stack.length 8
  let ftw : U8 := if 8 ≤ depth then 0 else 0xff <<< depth
  [part base 0 2 (x87ControlWord v.x87), part base 2 2 (x87StatusWord v.x87),
    part base 4 1 (ftw.setWidth 64), part base 5 1 0, part base 6 2 0, part base 8 8 0,
    part base 16 8 0, part base 24 4 (v.mxcsr.setWidth 64), part base 28 4 0xffff]
  ++ (List.range 8).flatMap (fun i =>
    let slot := 32 + 16 * i
    let (signExp, mant) := f64ToF80 (if i < depth then v.x87.stack.getD (depth - 1 - i) 0 else 0)
    [part base slot 8 mant, part base (slot + 8) 2 signExp, part base (slot + 10) 2 0,
      part base (slot + 12) 4 0])
  ++ xmmParts base 160 v.xmm

def xsaveToMemory (v : VectorState) (base requested : U64) : Result AppError (List Part) :=
  if base.umod 64 ≠ 0 then
    let message := "XSAVE/XRSTOR memory operand " ++ hex base ++ " is not 64-byte aligned"
    .error ⟨.rcInvalidState, message, []⟩
  else if requested &&& ~~~0b111 ≠ 0 then
    let message := "XSAVE requested mask " ++ hex requested
      ++ " includes unsupported state components (supported: 0x7)"
    .error ⟨.rcInvalidState, message, []⟩
  else
    let mask := requested &&& 0b111
    .ok <| (if mask &&& 0b11 ≠ 0 then fxsaveToMemory v base else [])
      ++ [part base 512 8 mask, part base 520 8 0]
      ++ (List.range 6).map (fun i => part base (528 + 8 * i) 8 0)
      ++ if mask &&& 0b100 ≠ 0 then xmmParts base 576 v.ymmUpper else []

/-! ## The stores -/

/-- The parts that an instruction writes one after the other. A lane of a scatter
is read when its turn comes. -/
def VectorStore.parts (host : Host P) (s : CpuState) (memory : MemoryImage) :
    VectorStore → Result AppError (List (Result AppError Part))
  | .fxsave address => .ok ((fxsaveToMemory s.vector (resolveMemoryOperand s address)).map .ok)
  | .xsave address | .xsaveopt address => do
    let requested := (s.get .rdx <<< 32) ||| (s.get .rax &&& 0xffffffff)
    return (← xsaveToMemory s.vector (resolveMemoryOperand s address) requested).map .ok
  | .storeDwordFromXmm address src => one address (s.vector.getBytes src 4)
  | .storeXmm src address => one address (s.vector.getBytes src 16)
  | .storeVector src address width => one address (readVectorRegister s.vector src width)
  | .x87StoreControlWord address => one address (.ok (toLeBytes 2 (x87ControlWord s.vector.x87)))
  | .x87Store address width _ => one address do
    let value ← s.vector.x87.top
    match width with
    | 4 => return toLeBytes 4 (host.asF32 value)
    | 8 => return toLeBytes 8 value
    | 10 => return toLeBytes 8 (x87Extended value).2 ++ toLeBytes 2 (x87Extended value).1
    | other => .error ⟨.rcUnimplInsn, s!"unsupported x87 store width {other}", []⟩
  | .x87StorePop address => one address do
    return toLeBytes 8 (← s.vector.x87.top)
  | .storeMxcsr address => one address (.ok (toLeBytes 4 s.vector.mxcsr))
  | .extractSubVector dst src index elementSize => one dst do
    let size := elementSize.toNat
    let srcBytes ← readVectorOperandBytes s memory src (size * 2)
    let offset := index.toNat * size
    if offset + size ≤ srcBytes.length then .ok ((srcBytes.drop offset).take size) else .panic
  | .compressVector dst src elementSize width => one dst do
    let srcBytes ← readVectorBytes s.vector src width
    let laneSize := if elementSize = 0 then 4 else 8
    return (List.range (width / laneSize)).flatMap fun i =>
      (srcBytes.drop (i * laneSize)).take laneSize
  | .scatterVector baseAddr indices src scale elementSize width => do
    let baseBytes ← readVectorOperandBytes s memory baseAddr width
    let idxBytes ← readVectorBytes s.vector indices width
    let srcBytes ← readVectorBytes s.vector src width
    let laneSize := elementSize.toNat
    let wordSize := if laneSize = 4 then 4 else 8
    if laneSize = 0 then .panic
    else .ok <| (List.range (width / laneSize)).map fun i => do
      let base ← checkedLe wordSize baseBytes (i * laneSize)
      let idx ← checkedLe wordSize idxBytes (i * laneSize)
      return (base + idx * scale.setWidth 64, (srcBytes.drop (i * laneSize)).take laneSize)
where
  one (address : MemoryOperand) (bytes : Result AppError (List U8)) :
      Result AppError (List (Result AppError Part)) := do
    return [.ok (resolveMemoryOperand s address, ← bytes)]

/-- The x87 forms that pop do so before anything can be refused. -/
def VectorStore.popped (form : VectorStore) (s : CpuState) : CpuState :=
  match form with
  | .x87Store _ _ true | .x87StorePop _ =>
    { s with vector.x87.stack := s.vector.x87.stack.dropLast }
  | _ => s

def storePart : Result AppError Part → Step P Unit
  | .ok (address, bytes) => storeBytes address bytes
  | .error reason => Exec.throw reason
  | .panic => Exec.panic

def vectorStore (host : Host P) (form : VectorStore) : Step P Unit := do
  let s ← cpu
  modifyCpu form.popped
  let parts ← Exec.read fun m => form.parts host s m.memory
  Exec.forEach storePart parts

/-! ## The other instructions -/

def extension (host : Host P) (op : P.Instruction) : Step P Unit := do
  let m ← Exec.get
  let (flags, value) ← Exec.zoom (fun m : Machine P => m.cpu.vector)
    (fun m v => { m with cpu.vector := v }) (host.execute op m.cpu m.memory)
  setFlags flags
  match host.target op with
  | some reg => setReg reg value
  | none => pure ()

/-! ## What they leave alone -/

theorem popped_frame (form : VectorStore) (s : CpuState) : CpuFrame regs s (form.popped s) := by
  unfold VectorStore.popped
  split <;> exact .keep rfl rfl rfl

theorem storePart_frame (part : Result AppError Part) :
    Exec.Relates (Frame regs) (storePart part : Step P Unit) := by
  cases part with
  | ok => exact storeBytes_frame
  | error => exact .throw _
  | panic => exact .panic

theorem storePart_atomic (part : Result AppError Part) :
    Exec.Atomic visible (storePart part : Step P Unit) := by
  cases part with
  | ok => exact storeBytes_atomic
  | error => exact .of_same (.throw _)
  | panic => exact .of_never .panic

theorem vectorStore_frame : Exec.Relates (Frame regs) (vectorStore host form : Step P Unit) :=
  .bind (.read _) fun _ => .bind (Sure.modifyCpu (popped_frame form)).frame fun _ =>
    .bind (.read _) fun _ => .forEach fun part _ => storePart_frame part

theorem extension_arm : Arm P (host.target op).toList (extension host op) := by
  refine .after ⟨.get, .get⟩ fun m => .after ⟨?_, ?_⟩ fun value =>
    .sure (.bind .setFlags fun _ => ?_)
  · exact .zoom (Q := fun _ _ => True) (fun _ _ _ => trivial) fun _ _ _ =>
      ⟨rfl, fun _ _ => rfl, .inl rfl, rfl⟩
  · exact .zoom (Q := fun _ _ => True) (fun _ _ _ => trivial) fun _ _ _ => rfl
  · cases host.target op with
    | none => exact .pure
    | some reg => exact .setReg List.mem_cons_self

end Casa.Cpu
