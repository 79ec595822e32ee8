import Casa.Cpu.Alu
import Casa.Cpu.Shift
import Casa.Cpu.Bits
import Casa.Cpu.Multiply
import Casa.Cpu.Transfer
import Casa.Cpu.Strings
import Casa.Cpu.Stack
import Casa.Cpu.Vector

/-! The cold path of the interpreter, one arm for each instruction in the order
of the instruction set. The CL forms of the shifts run their immediate form
through the interpreter again, which is the parameter `rerun` here. -/
namespace Casa.Cpu
open Effect MachineInt

/-- Flags requested by number: addition, subtraction or logic. -/
def explicitFlags (op : U8) (lhs rhs result : Register) (width : Nat) : Step P Unit := do
  let s ← cpu
  let lhsValue := s.get lhs &&& widthMask width
  let rhsValue := s.get rhs &&& widthMask width
  let resultValue := s.get result &&& widthMask width
  modifyCpu (·.discardPendingFlags)
  match op.toNat with
  | 0 => setFlags (addFlags lhsValue rhsValue resultValue (widthBits width))
  | 1 => setFlags (subFlags lhsValue rhsValue resultValue (widthBits width))
  | 2 => setFlags (logicFlags resultValue (widthBits width))
  | other => raise s!"unsupported explicit flag op {other}"

/-- Run an immediate form with the count in CL. -/
def withCl (rerun : IrInstruction P → Step P Unit) (form : U8 → IrInstruction P) : Step P Unit := do
  let s ← cpu
  rerun (form (s.getByte .cl))

def executeColdArm (host : Host P) (rerun : IrInstruction P → Step P Unit) :
    IrInstruction P → Step P Unit
  | .cpuid => cpuid host
  | .xgetbv => xgetbv host
  | .movImm dst value => setReg dst value
  | .movImm8 dst value => setByteReg dst value
  | .movReg dst src width => movReg dst src width
  | .movReg8 dst src => movReg8 dst src
  | .notMemory address width => notMemory address width
  | .addImm dst value width => aluRegister .add dst value width
  | .addReg8 dst src => aluByteRegister .add dst src
  | .addReg8Op dst src => aluByteOperand .add dst src
  | .addMemory8 address src => aluMemory .add address (byteSource src) 1
  | .addOperand dst src width => aluOperand .add dst src width
  | .addMemory address src width => aluMemory .add address (·.get src) width
  | .addImmMemory address value width => aluMemory .add address (fun _ => value) width
  | .adcOperand dst src width => aluOperand .adc dst src width
  | .adcReg8Op dst src => aluByteOperand .adc dst src
  | .adcMemory address src width => aluMemory .adc address (·.get src) width
  | .adcMemory8 address src => aluMemory .adc address (byteSource src) 1
  | .adcImm dst value width => aluRegister .adc dst value width
  | .adcImm8 dst value => aluByte .adc dst value
  | .addImm8 dst value => aluByte .add dst value
  | .adcImmMemory address value width => aluMemory .adc address (fun _ => value) width
  | .orImm dst value width => aluRegister .or dst value width
  | .orImm8 dst value => aluByte .or dst value
  | .andImm8 dst value => aluByte .and dst value
  | .orImmMemory address value width => aluMemory .or address (fun _ => value) width
  | .subImm dst value width => aluRegister .sub dst value width
  | .subImm8 dst value => aluByte .sub dst value
  | .subImmMemory address value width => aluMemory .sub address (fun _ => value) width
  | .andImm dst value width => aluRegister .and dst value width
  | .andImmMemory address value width => aluMemory .and address (fun _ => value) width
  | .andReg dst src width => aluOperand .and dst src width
  | .andMemory address src width => aluMemory .and address (·.get src) width
  | .rolImm dst count width => rotateRegister .left dst count width
  | .rorImm dst count width => rotateRegister .right dst count width
  | .rclImm dst count width => rotateCarryRegister .left dst count width
  | .rcrImm dst count width => rotateCarryRegister .right dst count width
  | .rolImmMemory address count width => rotateMemory .left address count width
  | .rorImmMemory address count width => rotateMemory .right address count width
  | .rclImmMemory address count width => rotateCarryMemory .left address count width
  | .rcrImmMemory address count width => rotateCarryMemory .right address count width
  | .shlImm dst count width => shiftRegister .shl id dst count width
  | .shrImm dst count width => shiftRegister .shr id dst count width
  | .sarImm dst count width => shiftRegister .sar id dst count width
  | .shlImmMemory address count width => shiftMemory .shl address count width
  | .shrImmMemory address count width => shiftMemory .shr address count width
  | .sarImmMemory address count width => shiftMemory .sar address count width
  | .rolCl dst width => withCl rerun (.rolImm dst · width)
  | .rclCl dst width => withCl rerun (.rclImm dst · width)
  | .rcrCl dst width => withCl rerun (.rcrImm dst · width)
  | .rolClMemory address width => withCl rerun (.rolImmMemory address · width)
  | .rorClMemory address width => withCl rerun (.rorImmMemory address · width)
  | .rclClMemory address width => withCl rerun (.rclImmMemory address · width)
  | .rcrClMemory address width => withCl rerun (.rcrImmMemory address · width)
  | .shlClMemory address width => withCl rerun (.shlImmMemory address · width)
  | .shrClMemory address width => withCl rerun (.shrImmMemory address · width)
  | .sarClMemory address width => withCl rerun (.sarImmMemory address · width)
  | .shlCl dst width => withCl rerun (.shlImm dst · width)
  | .rorCl dst width => rorCl dst width
  | .shrCl dst width => withCl rerun (.shrImm dst · width)
  | .sarCl dst width => withCl rerun (.sarImm dst · width)
  | .shldImm dst src count width => executeShld dst src count width
  | .shldCl dst src width => do
    let s ← cpu
    executeShld dst src (s.getByte .cl) width
  | .shrdImm dst src count width => executeShrd dst src count width
  | .imulImm dst src imm width => imulImm dst src imm width
  | .imulReg dst src width => imulReg dst src width
  | .mulAcc src width => mulAcc src width
  | .imulAcc src width => imulAcc src width
  | .div src width => div src width
  | .idiv src width => idiv src width
  | .subReg8 dst src => aluByteOperand .sub dst src
  | .sbbReg8 dst src => aluByteOperand .sbb dst src
  | .negReg dst width => negReg dst width
  | .negReg8 dst => negReg8 dst
  | .notReg dst width => notReg dst width
  | .notReg8 dst => notReg8 dst
  | .cdq width => cdq width
  | .movs width rep => movs width rep
  | .stos width rep => stos width rep
  | .lods width rep => lods width rep
  | .cmps width rep repne => cmps width rep repne
  | .scas width rep repne => scas width rep repne
  | .bound reg address width => bound reg address width
  | .hlt => halt
  | .cli => modifyEflagsExtra (· &&& ~~~(1#64 <<< 9))
  | .sti => modifyEflagsExtra (· ||| 1#64 <<< 9)
  | .std => modifyEflagsExtra (· ||| 1#64 <<< 10)
  | .ud2 => raise "ud2: undefined instruction"
  | .sahf => sahf
  | .lahf => lahf
  | .setCarryFlag value => modifyFlags fun flags => { flags with cf := value }
  | .complementCarryFlag => modifyFlags fun flags => { flags with cf := !flags.cf }
  | .pushAll => pushAll
  | .popAll => popAll
  | .loadSegment segment src => loadSegment segment src
  | .portIn port width => portIn host port width
  | .portOut port width => portOut host port width
  | .movFromDr dst index => movFromDr dst index
  | .movToDr index src => movToDr index src
  | .subOperand dst src width => aluOperand .sub dst src width
  | .subMemory address src width => aluMemory .sub address (·.get src) width
  | .subMemory8 address src => aluMemory .sub address (byteSource src) 1
  | .sbbMemory address src width => aluMemory .sbb address (·.get src) width
  | .sbbMemory8 address src => aluMemory .sbbFolded address (byteSource src) 1
  | .sbbImm8 dst value => aluByte .sbb dst value
  | .sbbImm dst value width => aluRegister .sbbFolded dst value width
  | .sbbOperand dst src width => aluOperand .sbb dst src width
  | .compare lhs rhs width => compare lhs rhs width
  | .test lhs rhs width => test lhs rhs width
  | .exchangeRegisters left right width => exchangeRegisters left right width
  | .exchangeMemory address register width => exchangeMemory address register width
  | .exchangeRegisters8 left right => exchangeRegisters8 left right
  | .exchangeMemory8 address reg => exchangeMemory8 address reg
  | .signExtendTo64 dst src width => signExtendTo64 dst src width
  | .signExtend dst src srcWidth dstWidth => signExtendTo dst src srcWidth dstWidth
  | .zeroExtendTo64 dst src width => zeroExtendTo64 dst src width
  | .xorImm dst value width => aluRegister .xor dst value width
  | .xorImm8 dst value => aluByte .xor dst value
  | .xorImmMemory address value width => aluMemory .xor address (fun _ => value) width
  | .xorReg dst src width => xorReg dst src width
  | .xorReg8 dst src => aluByteRegister .xor dst src
  | .xorReg8Op dst src => aluByteOperand .xor dst src
  | .xorMemory8 address src => logicMemory8 .xor address src
  | .xorMemory address src width => aluMemory .xor address (·.get src) width
  | .orReg dst src width => aluOperand .or dst src width
  | .orMemory address src width => aluMemory .or address (·.get src) width
  | .orMemory8 address src => logicMemory8 .or address src
  | .andReg8 dst src => aluByteRegister .and dst src
  | .andReg8Op dst src => aluByteOperand .and dst src
  | .andMemory8 address src => logicMemory8 .and address src
  | .bitTest base bit width => bitTest base bit width
  | .bitTestImm src bit width => bitTestImm src bit width
  | .orReg8 dst src => aluByteRegister .or dst src
  | .orReg8Op dst src => aluByteOperand .or dst src
  | .incReg dst width => aluRegister .inc dst 1 width
  | .decReg dst width => aluRegister .dec dst 1 width
  | .incReg8 dst => aluByte .inc dst 1
  | .decReg8 dst => aluByte .dec dst 1
  | .incMemory address width => aluMemory .inc address (fun _ => 1) width
  | .decMemory address width => aluMemory .dec address (fun _ => 1) width
  | .cmov condition dst src width => cmov condition dst src width
  | .loadMemory8 dst address => loadMemory8 dst address
  | .loadMemory dst address width => loadMemory dst address width
  | .storeMemory8 src address => storeTo address (byteSource src) 1
  | .storeMemory src address width => storeTo address (·.get src) width
  | .storeImmediate address value width => storeTo address (fun _ => value) width
  | .call target returnAddress => call target returnAddress
  | .callRegister src returnAddress => callRegister src returnAddress
  | .callMemory address returnAddress => callMemory address returnAddress
  | .jumpRegister src => do
    let s ← cpu
    setRip (s.get src)
  | .jumpMemory address => jumpMemory address
  | .setcc condition dst => setcc condition dst
  | .setccMemory condition address =>
    storeTo address (fun s => flagWord (conditionHolds s.flags condition)) 1
  | .jumpIf condition target fallthrough => do
    let s ← cpu
    setRip (if conditionHolds s.flags condition then target else fallthrough)
  | .jump target => setRip target
  | .nop => pure ()
  | .loadEffectiveAddress dst address width => loadEffectiveAddress dst address width
  | .pushReg src => pushReg src
  | .pushMemory address width => pushMemory address width
  | .pushImm value width => push value width
  | .pushFlags width => pushFlags width
  | .popReg dst => popReg dst
  | .popMemory address width => popMemory address width
  | .popFlags width => popFlags id width
  | .cld => modifyEflagsExtra (· &&& ~~~(1#64 <<< 10))
  | .leave => leave
  | .return_ stackAdjust => return_ stackAdjust
  | .popcnt dst src => popcnt dst src
  | .lzcnt dst src => lzcnt dst src
  | .bsf dst src => bsf dst src
  | .bswap dst width => bswap dst width
  | .rdtsc => rdtsc host
  | .crc32 dst src => crc32 dst src
  | .rdrand dst => rdrand host dst
  | .rdseed dst => rdrand host dst
  | .rdpmc _ => rdpmc
  | .clflush _ => pure ()
  | .clflushopt _ => pure ()
  | .clwb _ => pure ()
  | .pcommit => pure ()
  | .xbegin _ => noTransaction
  | .xend => pure ()
  | .xabort _ => pure ()
  | .xtest => noTransaction
  | .encls => setReg .rax 0
  | .enclu => setReg .rax 0
  | .saveSsP _ => saveSsP
  | .rstorssp address => rstorssp address
  | .incssp src => incssp src
  | .wrss dst src => storeTo dst (·.get src) 8
  | .wruss dst src => storeTo dst (·.get src) 8
  | .bndmkReg dst src => bndmk dst (boundsRegister src)
  | .bndmkMem dst address => bndmk dst (boundsMemory address)
  | .bndclReg bnd src => bndcl bnd (boundsRegister src)
  | .bndclMem bnd address => bndcl bnd (boundsMemory address)
  | .bndcuReg bnd src => bndcUpper "BNDCU" bnd (boundsRegister src)
  | .bndcuMem bnd address => bndcUpper "BNDCU" bnd (boundsMemory address)
  | .bndcnReg bnd src => bndcUpper "BNDCN" bnd (boundsRegister src)
  | .bndcnMem bnd address => bndcUpper "BNDCN" bnd (boundsMemory address)
  | .bndmovReg dst src => bndmovReg dst src
  | .bndmovMemLoad dst address => bndmovMemLoad dst address
  | .bndmovMemStore src address => bndmovMemStore src address
  | .andn dst lhs rhs => assign dst fun s => ~~~s.get lhs &&& s.get rhs
  | .bextr dst src range => assignLogic dst fun s => bitField (s.get src) (s.get range)
  | .blsi dst src => assignLogic dst fun s => isolateLowestOne (s.get src)
  | .blsmsk dst src => assignLogic dst fun s => s.get src ^^^ (s.get src - 1)
  | .blsr dst src => assignLogic dst fun s => s.get src &&& (s.get src - 1)
  | .bzhi dst src index => assignLogic dst fun s => zeroHighBits (s.get src) (s.get index)
  | .mulx dstLo dstHi src => mulx dstLo dstHi src
  | .pdep dst src mask => assign dst fun s => bitDeposit (s.get src) (s.get mask)
  | .pext dst src mask => assign dst fun s => bitExtract (s.get src) (s.get mask)
  | .rorx dst src imm => assign dst fun s => (s.get src).rotateRight (imm &&& 0x3f).toNat
  | .sarx dst src shift => assignLogic dst fun s => sar (s.get src) (bmiCount (s.get shift))
  | .shrx dst src shift => assignLogic dst fun s => shr (s.get src) (bmiCount (s.get shift))
  | .shlx dst src shift => assignLogic dst fun s => shl (s.get src) (bmiCount (s.get shift))
  | .lockCmpxchg address src width => lockCmpxchg address src width
  | .cmpxchgRegisters dst src width => cmpxchgRegisters dst src width
  | .lockCmpxchg8b address => lockCmpxchg8b address
  | .lockXadd address src width => lockXadd address src width
  | .xaddRegisters dst src width => xaddRegisters dst src width
  | .mfence => pure ()
  | .adcReg8 dst src => aluByteRegister .adc dst src
  | .adcx dst src width => adcx dst src width
  | .adox dst src width => adox dst src width
  | .popSeg width => popSeg width
  | .breakpoint => breakpoint
  | .spillStore slot src => spillStore slot src
  | .spillLoad slot dst => spillLoad slot dst
  | .explicitFlags op lhs rhs result width => explicitFlags op lhs rhs result width
  | .vectorStore form => vectorStore host form
  | .extension op => extension host op

end Casa.Cpu
