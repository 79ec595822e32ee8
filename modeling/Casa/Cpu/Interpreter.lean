import Casa.Cpu.ColdPath

/-! The interpreter's hot path and its entry point. What the hot path does with
arithmetic flags is a parameter, so that the interpreter of the source, which
parks the computation, can be compared with one that carries it out at once. -/
namespace Casa.Cpu
open Effect
variable {P : Platform}

structure FlagPolicy where
  add : U64 → U64 → U64 → Nat → CpuState → CpuState
  sub : U64 → U64 → U64 → Nat → CpuState → CpuState
  logic : U64 → Nat → CpuState → CpuState
  materialize : CpuState → CpuState
  discard : CpuState → CpuState

/-- The source: park on every arithmetic instruction, compute on the first use. -/
def FlagPolicy.lazy : FlagPolicy where
  add lhs rhs result bits s := s.deferAddFlags lhs rhs result bits
  sub lhs rhs result bits s := s.deferSubFlags lhs rhs result bits
  logic result bits s := s.deferLogicFlags result bits
  materialize := CpuState.materializeFlags
  discard := CpuState.discardPendingFlags

/-- Flags computed with the instruction that defines them; nothing is ever parked. -/
def FlagPolicy.eager : FlagPolicy where
  add lhs rhs result bits s := { s with flags := addFlags lhs rhs result bits }
  sub lhs rhs result bits s := { s with flags := subFlags lhs rhs result bits }
  logic result bits s := { s with flags := logicFlags result bits }
  materialize := id
  discard := id

/-! ## Hot arms -/

/-- `dst := dst op rhs`; `park` receives the masked operands and the result. -/
def hotAlu (op : U64 → U64 → U64) (park : U64 → U64 → U64 → Nat → CpuState → CpuState)
    (dst : Register) (rhs : U64) (width : Nat) : Step P Unit := do
  let s ← cpu
  let lhs := s.get dst &&& widthMask width
  let rhs := rhs &&& widthMask width
  let result := op lhs rhs &&& widthMask width
  mergeReg dst result width
  modifyCpu (park lhs rhs result (widthBits width))

/-- The logic operations park their result only. -/
def hotLogic (policy : FlagPolicy) (op : U64 → U64 → U64) (dst : Register)
    (rhs : U64) (width : Nat) : Step P Unit :=
  hotAlu op (fun _ _ => policy.logic) dst rhs width

def hotLogicOperand (policy : FlagPolicy) (op : U64 → U64 → U64) (dst : Register)
    (src : CompareOperand) (width : Nat) : Step P Unit := do
  let rhs ← readOperand src width
  hotLogic policy op dst rhs width

def hotXorReg (policy : FlagPolicy) (dst : Register) (src : CompareOperand) (width : Nat) :
    Step P Unit := do
  let s ← cpu
  let lhs := s.get dst &&& widthMask width
  let rhs ← readOperand src width
  let result := (lhs ^^^ (rhs &&& widthMask width)) &&& widthMask width
  moveReg "xor reg" dst result width
  modifyCpu (policy.logic result (widthBits width))

def hotExplicitFlags (policy : FlagPolicy) (op : U8) (lhs rhs result : Register) (width : Nat) :
    Step P Unit := do
  let s ← cpu
  let lhsValue := s.get lhs &&& widthMask width
  let rhsValue := s.get rhs &&& widthMask width
  let resultValue := s.get result &&& widthMask width
  match op.toNat with
  | 0 => modifyCpu (policy.add lhsValue rhsValue resultValue (widthBits width))
  | 1 => modifyCpu (policy.sub lhsValue rhsValue resultValue (widthBits width))
  | 2 => modifyCpu (policy.logic resultValue (widthBits width))
  | other => raise s!"unsupported explicit flag op {other}"

def jumpIfHot (policy : FlagPolicy) (condition : ConditionCode) (target fallthrough : U64) :
    Step P Unit := do
  modifyCpu policy.materialize
  let s ← cpu
  setRip (if evaluateCondition condition s.flags then target else fallthrough)

/-- Everything the hot path does not handle sees settled flags. -/
def coldFallback (policy : FlagPolicy) (cold : IrInstruction P → Step P Unit)
    (instruction : IrInstruction P) : Step P Unit := do
  modifyCpu policy.materialize
  cold instruction

/-- One round of the loop in `execute_ir_inner`. -/
def executeHotArm (policy : FlagPolicy) (cold : IrInstruction P → Step P Unit) :
    IrInstruction P → Step P Unit
  | .nop => pure ()
  | .movImm dst value => setReg dst value
  | .movReg dst src width => movReg dst src width
  | .movReg8 dst src => movReg8 dst src
  | .spillStore slot src => spillStore slot src
  | .spillLoad slot dst => spillLoad slot dst
  | .explicitFlags op lhs rhs result width => hotExplicitFlags policy op lhs rhs result width
  | .addImm dst value width => hotAlu (· + ·) policy.add dst value width
  | .subImm dst value width => hotAlu (· - ·) policy.sub dst value width
  | .andImm dst value width => hotLogic policy (· &&& ·) dst value width
  | .orImm dst value width => hotLogic policy (· ||| ·) dst value width
  | .xorImm dst value width => hotLogic policy (· ^^^ ·) dst value width
  | .xorReg dst src width => hotXorReg policy dst src width
  | .andReg dst src width => hotLogicOperand policy (· &&& ·) dst src width
  | .orReg dst src width => hotLogicOperand policy (· ||| ·) dst src width
  | .shlImm dst count width => shiftRegister .shl policy.discard dst count width
  | .shrImm dst count width => shiftRegister .shr policy.discard dst count width
  | .loadMemory dst address width => loadMemory dst address width
  | .loadMemory8 dst address => loadMemory8 dst address
  | .storeMemory src address width => storeTo address (fun s => s.get src &&& widthMask width) width
  | .storeMemory8 src address => storeTo address (byteSource src) 1
  | .storeImmediate address value width => storeTo address (fun _ => value) width
  | .pushReg src => pushRegHot src
  | .popReg dst => popReg dst
  | .pushImm value width => pushHot width fun _ => value
  | .pushFlags width => pushFlagsHot policy.materialize width
  | .popFlags width => popFlags policy.discard width
  | .leave => leaveHot
  | .loadEffectiveAddress dst address width => loadEffectiveAddress dst address width
  | .jump target => setRip target
  | .jumpIf condition target fallthrough => jumpIfHot policy condition target fallthrough
  | .return_ stackAdjust => returnHot stackAdjust
  | .call target returnAddress => callHot target returnAddress
  | instruction => coldFallback policy cold instruction

def executeIrInner (policy : FlagPolicy) (cold : IrInstruction P → Step P Unit)
    (ir : List (IrInstruction P)) : Step P Unit :=
  Exec.forEach (executeHotArm policy cold) ir

/-- Parked flags are settled for the caller, also when execution failed. -/
def executeIrWith (policy : FlagPolicy) (cold : IrInstruction P → Step P Unit)
    (ir : List (IrInstruction P)) : Step P Unit :=
  (executeIrInner policy cold ir).ensuring fun m => { m with cpu := policy.materialize m.cpu }

/-- With nothing ever parked there is nothing to settle. -/
theorem executeIrWith_eager_run (ir : List (IrInstruction P)) (m : Machine P) :
    (executeIrWith .eager cold ir).run m = (executeIrInner .eager cold ir).run m :=
  Outcome.mapState_of_fixed fun _ _ => rfl

/-- The cold path with one level of recursion left. -/
def executeColdOnce (policy : FlagPolicy) (host : Host P) : IrInstruction P → Step P Unit :=
  executeColdArm host fun instruction =>
    executeIrWith policy (executeColdArm host fun _ => Exec.panic) [instruction]

def executeColdPath (host : Host P) : IrInstruction P → Step P Unit := executeColdOnce .lazy host

def executeIr (host : Host P) (ir : List (IrInstruction P)) : Step P Unit :=
  executeIrWith .lazy (executeColdPath host) ir

/-- The forms that the cold path runs through the interpreter again. -/
def isRerun : IrInstruction P → Bool
  | .rolImm .. | .rclImm .. | .rcrImm .. | .shlImm .. | .shrImm .. | .sarImm .. => true
  | .rolImmMemory .. | .rorImmMemory .. | .rclImmMemory .. | .rcrImmMemory .. => true
  | .shlImmMemory .. | .shrImmMemory .. | .sarImmMemory .. => true
  | _ => false

theorem executeColdArm_congr
    (same : ∀ form, isRerun form → (rerun form).run m = (rerun' form).run m)
    (instruction : IrInstruction P) :
    (executeColdArm host rerun instruction).run m =
      (executeColdArm host rerun' instruction).run m := by
  cases instruction
  case rolCl | rclCl | rcrCl | shlCl | shrCl | sarCl | rolClMemory | rorClMemory | rclClMemory
      | rcrClMemory | shlClMemory | shrClMemory | sarClMemory =>
    exact same _ rfl
  all_goals rfl

def executeIrEager (host : Host P) (ir : List (IrInstruction P)) : Step P Unit :=
  executeIrWith .eager (executeColdOnce .eager host) ir

end Casa.Cpu
