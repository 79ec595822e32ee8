import Casa.Cpu.Interpreter

/-! The general registers that an instruction may write, and that the
interpreter writes no others. -/
namespace Casa.Cpu
open Effect
open List (Subset)

def writes (host : Host P) : IrInstruction P → List Register
  | .movImm dst _ | .movReg dst _ _ | .movFromDr dst _ | .spillLoad _ dst => [dst]
  | .addImm dst _ _ | .adcImm dst _ _ | .subImm dst _ _ | .sbbImm dst _ _ => [dst]
  | .andImm dst _ _ | .orImm dst _ _ | .xorImm dst _ _ => [dst]
  | .addOperand dst _ _ | .adcOperand dst _ _ | .subOperand dst _ _ | .sbbOperand dst _ _ => [dst]
  | .andReg dst _ _ | .orReg dst _ _ | .xorReg dst _ _ | .adcx dst _ _ | .adox dst _ _ => [dst]
  | .incReg dst _ | .decReg dst _ | .negReg dst _ | .notReg dst _ => [dst]
  | .rolImm dst _ _ | .rorImm dst _ _ | .rclImm dst _ _ | .rcrImm dst _ _ => [dst]
  | .shlImm dst _ _ | .shrImm dst _ _ | .sarImm dst _ _ => [dst]
  | .rolCl dst _ | .rorCl dst _ | .rclCl dst _ | .rcrCl dst _ => [dst]
  | .shlCl dst _ | .shrCl dst _ | .sarCl dst _ => [dst]
  | .shldImm dst _ _ _ | .shldCl dst _ _ | .shrdImm dst _ _ _ => [dst]
  | .imulImm dst _ _ _ | .imulReg dst _ _ => [dst]
  | .signExtendTo64 dst _ _ | .signExtend dst _ _ _ | .zeroExtendTo64 dst _ _ => [dst]
  | .cmov _ dst _ _ | .loadMemory dst _ _ | .loadEffectiveAddress dst _ _ => [dst]
  | .exchangeMemory _ dst _ | .lockXadd _ dst _ => [dst]
  | .popcnt dst _ | .lzcnt dst _ | .bsf dst _ | .bswap dst _ | .crc32 dst _ => [dst]
  | .rdrand dst | .rdseed dst => [dst]
  | .andn dst _ _ | .bextr dst _ _ | .blsi dst _ | .blsmsk dst _ | .blsr dst _ | .bzhi dst _ _ => [dst]
  | .pdep dst _ _ | .pext dst _ _ | .rorx dst _ _ => [dst]
  | .sarx dst _ _ | .shrx dst _ _ | .shlx dst _ _ => [dst]
  | .movImm8 dst _ | .movReg8 dst _ | .loadMemory8 dst _ | .setcc _ dst => [dst.fullRegister]
  | .addReg8 dst _ | .adcReg8 dst _ | .andReg8 dst _ | .orReg8 dst _ | .xorReg8 dst _ =>
    [dst.fullRegister]
  | .addReg8Op dst _ | .adcReg8Op dst _ | .subReg8 dst _ | .sbbReg8 dst _ => [dst.fullRegister]
  | .andReg8Op dst _ | .orReg8Op dst _ | .xorReg8Op dst _ => [dst.fullRegister]
  | .addImm8 dst _ | .adcImm8 dst _ | .subImm8 dst _ | .sbbImm8 dst _ => [dst.fullRegister]
  | .andImm8 dst _ | .orImm8 dst _ | .xorImm8 dst _ => [dst.fullRegister]
  | .incReg8 dst | .decReg8 dst | .negReg8 dst | .notReg8 dst => [dst.fullRegister]
  | .exchangeMemory8 _ dst => [dst.fullRegister]
  | .exchangeRegisters left right _ => [left, right]
  | .exchangeRegisters8 left right => [left.fullRegister, right.fullRegister]
  | .xaddRegisters dst src _ => [dst, src]
  | .cmpxchgRegisters dst _ _ => [.rax, dst]
  | .mulx dstLo dstHi _ => [dstLo, dstHi]
  | .mulAcc _ _ | .imulAcc _ _ | .div _ _ | .idiv _ _ | .cdq _ => accumulatorPair
  | .xgetbv | .rdtsc | .rdpmc _ | .lockCmpxchg8b _ => accumulatorPair
  | .lahf | .portIn _ _ | .lockCmpxchg _ _ _ => [.rax]
  | .xbegin _ | .xtest | .encls | .enclu => [.rax]
  | .cpuid => [.rax, .rbx, .rcx, .rdx]
  | .movs _ _ | .cmps _ _ _ => [.rsi, .rdi, .rcx]
  | .stos _ _ | .scas _ _ _ => [.rdi, .rcx]
  | .lods _ _ => [.rax, .rsi, .rcx]
  | .pushReg _ | .pushMemory _ _ | .pushImm _ _ | .pushFlags _ | .pushAll => [.rsp]
  | .popMemory _ _ | .popFlags _ | .popSeg _ | .return_ _ => [.rsp]
  | .call _ _ | .callRegister _ _ | .callMemory _ _ => [.rsp]
  | .popReg dst => [.rsp, dst]
  | .leave => [.rsp, .rbp]
  | .popAll => [.rdi, .rsi, .rbp, .rsp, .rbx, .rdx, .rcx, .rax]
  | .extension op => (host.target op).toList
  | _ => []

/-- The arms with several accesses, which may fail half way. -/
def inParts : IrInstruction P → Bool
  | .movs .. | .stos .. | .lods .. | .pushAll | .popAll | .bndmovMemStore .. | .vectorStore _ => true
  | _ => false

theorem inParts_of_isRerun (reruns : isRerun form) : inParts form = false := by
  cases form
  case movs | stos | lods | pushAll | popAll | bndmovMemStore | vectorStore => cases reruns
  all_goals rfl

theorem explicitFlags_arm : Arm P regs (explicitFlags op lhs rhs result width) := by
  refine .read fun s =>
    .after (.modifyCpu (fun _ => ⟨rfl, fun _ _ => rfl, .inr rfl⟩) fun _ => rfl) fun _ => ?_
  split
  · exact .sure .setFlags
  · exact .sure .setFlags
  · exact .sure .setFlags
  · exact .quiet .throw

section ColdArm
variable {rerun : IrInstruction P → Step P Unit}

variable (runs : ∀ form, isRerun form = true → Arm P (writes host form) (rerun form))
include runs

theorem withCl_arm (reruns : ∀ count, isRerun (form count))
    (same : ∀ count, writes host (form count) = regs) : Arm P regs (withCl rerun form) :=
  .read fun s => same (s.getByte .cl) ▸ runs _ (reruns _)

/-- One case for each family of arms. -/
theorem executeColdArm_arm (instruction : IrInstruction P) (whole : inParts instruction = false) :
    Arm P (writes host instruction) (executeColdArm host rerun instruction) := by
  have self {reg : Register} {rest : List Register} : reg ∈ reg :: rest := List.mem_cons_self
  have second {first reg : Register} : reg ∈ [first, reg] := List.mem_cons_of_mem _ self
  have keep {regs : List Register} (s : CpuState) : CpuFrame regs s (id s) := .keep rfl rfl rfl
  cases instruction
  case movs | stos | lods | pushAll | popAll | bndmovMemStore | vectorStore => cases whole
  case addImm | adcImm | subImm | sbbImm | andImm | orImm | xorImm | incReg | decReg =>
    exact aluRegister_arm self
  case addOperand | adcOperand | subOperand | sbbOperand | andReg | orReg =>
    exact aluOperand_arm self
  case addMemory | adcMemory | subMemory | sbbMemory | andMemory | orMemory | xorMemory | incMemory
      | decMemory | addImmMemory | adcImmMemory | subImmMemory | andImmMemory | orImmMemory
      | xorImmMemory | addMemory8 | adcMemory8 | subMemory8 | sbbMemory8 =>
    exact aluMemory_arm
  case addReg8 | adcReg8 | andReg8 | orReg8 | xorReg8 => exact aluByteRegister_arm self
  case addReg8Op | adcReg8Op | subReg8 | sbbReg8 | andReg8Op | orReg8Op | xorReg8Op =>
    exact aluByteOperand_arm self
  case addImm8 | adcImm8 | subImm8 | sbbImm8 | andImm8 | orImm8 | xorImm8 | incReg8 | decReg8 =>
    exact aluByte_arm self
  case andMemory8 | orMemory8 | xorMemory8 => exact logicMemory8_arm
  case xorReg => exact xorReg_arm self
  case compare => exact compare_arm
  case test => exact test_arm
  case adcx => exact adcx_arm self
  case adox => exact adox_arm self
  case negReg => exact negReg_arm self
  case negReg8 => exact negReg8_arm self
  case notReg => exact notReg_arm self
  case notReg8 => exact notReg8_arm self
  case notMemory => exact notMemory_arm
  case shlImm | shrImm | sarImm => exact shiftRegister_arm keep self
  case shlImmMemory | shrImmMemory | sarImmMemory => exact shiftMemory_arm
  case rolImm | rorImm => exact rotateRegister_arm self
  case rolImmMemory | rorImmMemory => exact rotateMemory_arm
  case rclImm | rcrImm => exact rotateCarryRegister_arm self
  case rclImmMemory | rcrImmMemory => exact rotateCarryMemory_arm
  case rorCl => exact rorCl_arm self
  case rolCl | rclCl | rcrCl | shlCl | shrCl | sarCl | rolClMemory | rorClMemory | rclClMemory
      | rcrClMemory | shlClMemory | shrClMemory | sarClMemory =>
    dsimp only [executeColdArm]
    exact withCl_arm runs (fun _ => rfl) fun _ => rfl
  case shldImm => exact executeShld_arm self
  case shldCl => exact .read fun _ => executeShld_arm self
  case shrdImm => exact executeShrd_arm self
  case imulImm => exact imulImm_arm self
  case imulReg => exact imulReg_arm self
  case mulAcc => exact mulAcc_arm
  case imulAcc => exact imulAcc_arm
  case div => exact div_arm
  case idiv => exact idiv_arm
  case cdq => exact cdq_arm
  case cmps => exact cmps_arm (Subset.refl _)
  case scas => exact scas_arm (Subset.refl _)
  case movImm | encls | enclu => exact .sure (.setReg self)
  case movImm8 => exact .sure (.setByteReg self)
  case movReg => exact movReg_arm self
  case movReg8 => exact movReg8_arm self
  case loadMemory => exact loadMemory_arm self
  case loadMemory8 => exact loadMemory8_arm self
  case storeMemory | storeMemory8 | storeImmediate | setccMemory | wrss | wruss => exact storeTo_arm
  case loadEffectiveAddress => exact loadEffectiveAddress_arm self
  case exchangeMemory => exact exchangeMemory_arm self
  case exchangeMemory8 => exact exchangeMemory8_arm self
  case exchangeRegisters => exact exchangeRegisters_arm self second
  case exchangeRegisters8 => exact exchangeRegisters8_arm self second
  case signExtendTo64 => exact signExtendTo64_arm self
  case signExtend => exact signExtendTo_arm self
  case zeroExtendTo64 => exact zeroExtendTo64_arm self
  case cmov => exact cmov_arm self
  case setcc => exact setcc_arm self
  case lockCmpxchg => exact lockCmpxchg_arm self
  case cmpxchgRegisters => exact cmpxchgRegisters_arm self second
  case lockCmpxchg8b => exact lockCmpxchg8b_arm self second
  case lockXadd => exact lockXadd_arm self
  case xaddRegisters => exact xaddRegisters_arm self second
  case bitTest => exact bitTest_arm
  case bitTestImm => exact bitTestImm_arm
  case popcnt => exact popcnt_arm self _
  case lzcnt => exact lzcnt_arm self _
  case bsf => exact bsf_arm self _
  case bswap => exact bswap_arm self
  case crc32 => exact crc32_arm self _
  case andn | pdep | pext | rorx => exact assign_arm self _
  case bextr | blsi | blsmsk | blsr | bzhi | sarx | shrx | shlx => exact assignLogic_arm self _
  case mulx => exact mulx_arm self second
  case pushReg => exact pushReg_arm self _
  case pushMemory => exact pushMemory_arm self _
  case pushImm => exact push_arm self _
  case pushFlags => exact pushFlags_arm self
  case popReg => exact popReg_arm self second
  case popMemory => exact popMemory_arm self _
  case popFlags => exact popFlags_arm self keep
  case popSeg => exact popSeg_arm self
  case call => exact call_arm self _
  case callRegister => exact callRegister_arm self _
  case callMemory => exact callMemory_arm self _
  case leave => exact leave_arm self second
  case return_ => exact return_arm self _
  case jump => exact .sure .setRip
  case jumpRegister | jumpIf => exact .read fun _ => .sure .setRip
  case jumpMemory => exact jumpMemory_arm
  case cpuid => exact cpuid_arm (Subset.refl _)
  case xgetbv => exact xgetbv_arm (Subset.refl _)
  case portIn => exact portIn_arm self
  case portOut => exact portOut_arm
  case rdtsc => exact rdtsc_arm (Subset.refl _)
  case rdrand | rdseed => exact rdrand_arm self
  case rdpmc => exact rdpmc_arm (Subset.refl _)
  case hlt | ud2 => exact .quiet .throw
  case breakpoint => exact breakpoint_arm
  case cli | sti | std | cld =>
    dsimp only [executeColdArm]
    exact modifyEflagsExtra_arm
  case setCarryFlag | complementCarryFlag =>
    dsimp only [executeColdArm]
    exact .sure (.modifyFlags _)
  case sahf => exact sahf_arm
  case lahf => exact lahf_arm self
  case movFromDr => exact movFromDr_arm self
  case movToDr => exact movToDr_arm
  case bound => exact bound_arm
  case loadSegment => exact loadSegment_arm
  case xbegin | xtest => exact noTransaction_arm self
  case saveSsP => exact saveSsP_arm
  case rstorssp => exact rstorssp_arm
  case incssp => exact incssp_arm
  case bndmkReg => exact bndmk_arm boundsRegister_quiet
  case bndmkMem => exact bndmk_arm boundsMemory_quiet
  case bndclReg => exact bndcl_arm boundsRegister_quiet
  case bndclMem => exact bndcl_arm boundsMemory_quiet
  case bndcuReg | bndcnReg => exact bndcUpper_arm boundsRegister_quiet
  case bndcuMem | bndcnMem => exact bndcUpper_arm boundsMemory_quiet
  case bndmovReg => exact bndmovReg_arm
  case bndmovMemLoad => exact bndmovMemLoad_arm
  case nop | clflush | clflushopt | clwb | pcommit | xend | xabort | mfence => exact .sure .pure
  case spillStore => exact spillStore_arm
  case spillLoad => exact spillLoad_arm self
  case explicitFlags => exact explicitFlags_arm
  case extension => exact extension_arm

theorem executeColdArm_frame (instruction : IrInstruction P) :
    Exec.Relates (Frame (writes host instruction)) (executeColdArm host rerun instruction) := by
  cases whole : inParts instruction with
  | false => exact (executeColdArm_arm runs instruction whole).frame
  | true =>
    cases instruction
    case movs => exact movs_frame (Subset.refl _)
    case stos => exact stos_frame (Subset.refl _)
    case lods => exact lods_frame (Subset.refl _)
    case pushAll => exact pushAll_frame List.mem_cons_self
    case popAll => exact popAll_frame (Subset.refl _)
    case bndmovMemStore => exact bndmovMemStore_frame
    case vectorStore => exact vectorStore_frame
    all_goals cases whole

end ColdArm

/-! ## The hot path

Stated for the eager interpreter, which never parks a computation. -/

theorem hotAlu_arm (member : dst ∈ regs)
    (parks : ∀ lhs rhs result bits s, CpuFrame regs s (park lhs rhs result bits s)) :
    Arm P regs (hotAlu op park dst rhs width) :=
  .read fun _ => .sure <| .bind (.mergeReg member) fun _ => .modifyCpu (parks _ _ _ _)

theorem hotLogic_arm (member : dst ∈ regs) : Arm P regs (hotLogic .eager op dst rhs width) := by
  refine hotAlu_arm member ?_
  intro _ _ _ _ _
  exact .keep rfl rfl rfl

theorem hotLogicOperand_arm (member : dst ∈ regs) :
    Arm P regs (hotLogicOperand .eager op dst src width) :=
  .read fun _ => hotLogic_arm member

theorem hotXorReg_arm (member : dst ∈ regs) : Arm P regs (hotXorReg .eager dst src width) :=
  .read fun _ => .read fun _ => .before (.moveReg member) fun _ => .modifyCpu fun _ =>
    .keep rfl rfl rfl

theorem hotExplicitFlags_arm : Arm P regs (hotExplicitFlags .eager op lhs rhs result width) := by
  refine .read fun s => ?_
  split
  · exact .sure (.modifyCpu fun _ => .keep rfl rfl rfl)
  · exact .sure (.modifyCpu fun _ => .keep rfl rfl rfl)
  · exact .sure (.modifyCpu fun _ => .keep rfl rfl rfl)
  · exact .quiet .throw

theorem jumpIfHot_arm : Arm P regs (jumpIfHot .eager condition target fallthrough) :=
  .sure <| .bind (.modifyCpu fun _ => .keep rfl rfl rfl) fun _ => .bind .cpu fun _ => .setRip

/-- The hot forms that move the stack pointer before they access memory. -/
def stackFirst : IrInstruction P → Bool
  | .pushReg _ | .pushImm .. | .pushFlags _ | .leave | .call .. => true
  | _ => false

/-- The other hot forms, and the instructions the hot path passes on. -/
theorem executeHotArm_arm (host : Host P) (later : stackFirst instruction = false) :
    Arm P (writes host instruction) (executeHotArm .eager cold instruction) ∨
      executeHotArm .eager cold instruction = coldFallback .eager cold instruction := by
  have self {reg : Register} {rest : List Register} : reg ∈ reg :: rest := List.mem_cons_self
  have second {first reg : Register} : reg ∈ [first, reg] := List.mem_cons_of_mem _ self
  have keep {regs : List Register} (s : CpuState) : CpuFrame regs s (FlagPolicy.eager.discard s) :=
    .keep rfl rfl rfl
  cases instruction
  case pushReg | pushImm | pushFlags | leave | call => cases later
  case nop => exact .inl (.sure .pure)
  case movImm => exact .inl (.sure (.setReg self))
  case movReg => exact .inl (movReg_arm self)
  case movReg8 => exact .inl (movReg8_arm self)
  case spillStore => exact .inl spillStore_arm
  case spillLoad => exact .inl (spillLoad_arm self)
  case explicitFlags => exact .inl hotExplicitFlags_arm
  case addImm | subImm =>
    refine .inl (hotAlu_arm self ?_)
    intro _ _ _ _ _
    exact .keep rfl rfl rfl
  case andImm | orImm | xorImm => exact .inl (hotLogic_arm self)
  case xorReg => exact .inl (hotXorReg_arm self)
  case andReg | orReg => exact .inl (hotLogicOperand_arm self)
  case shlImm | shrImm => exact .inl (shiftRegister_arm keep self)
  case loadMemory => exact .inl (loadMemory_arm self)
  case loadMemory8 => exact .inl (loadMemory8_arm self)
  case storeMemory | storeMemory8 | storeImmediate => exact .inl storeTo_arm
  case popReg => exact .inl (popReg_arm self second)
  case popFlags => exact .inl (popFlags_arm self keep)
  case loadEffectiveAddress => exact .inl (loadEffectiveAddress_arm self)
  case jump => exact .inl (.sure .setRip)
  case jumpIf => exact .inl jumpIfHot_arm
  case return_ => exact .inl (returnHot_arm self _)
  all_goals exact .inr rfl

theorem coldBase_runs (form : IrInstruction P) (_ : isRerun form) :
    Arm P (writes host form) (Exec.panic : Step P Unit) := .sure ⟨.panic, .panic⟩

/-- A form that the cold path runs again, through the eager entry point. -/
theorem executeEagerOne_arm (form : IrInstruction P) (reruns : isRerun form) :
    Arm P (writes host form) (executeIrWith .eager (executeColdArm host fun _ => Exec.panic) [form]) := by
  have hot : Arm P (writes host form) (executeHotArm .eager (executeColdArm host fun _ => Exec.panic) form) := by
    have later : stackFirst form = false := by
      cases form
      case pushReg | pushImm | pushFlags | leave | call => cases reruns
      all_goals rfl
    rcases executeHotArm_arm host later with arm | passed
    · exact arm
    · rw [passed]
      exact .after (.modifyCpu (fun _ => .keep rfl rfl rfl) fun _ => rfl) fun _ =>
        executeColdArm_arm coldBase_runs form (inParts_of_isRerun reruns)
  have inner : Arm P (writes host form) (executeIrInner .eager (executeColdArm host fun _ => Exec.panic) [form]) :=
    .before hot fun _ => .pure
  have same : executeIrWith .eager (executeColdArm host fun _ => Exec.panic) [form] =
      executeIrInner .eager _ [form] :=
    congrArg Exec.mk (funext (executeIrWith_eager_run [form]))
  rwa [same]

end Casa.Cpu
