import Casa.Cpu.State

/-! The interpreter's instruction set (cpu/ir.rs), in the order of the source.
Operand widths are in bytes. The vector, x87, mask-register, AES and SHA
instructions are the abstract instructions of the platform, apart from the ones
that store. -/
namespace Casa.Cpu

inductive VectorOperand where
  | register (index : U8)
  | memory (address : MemoryOperand)

/-- The instructions that store vector or x87 state; the two with a vector
operand as destination in the form with a memory one. -/
inductive VectorStore where
  | fxsave (address : MemoryOperand)
  | xsave (address : MemoryOperand)
  | xsaveopt (address : MemoryOperand)
  | storeDwordFromXmm (address : MemoryOperand) (src : U8)
  | storeXmm (src : U8) (address : MemoryOperand)
  | storeVector (src : U8) (address : MemoryOperand) (width : Nat)
  | x87StoreControlWord (address : MemoryOperand)
  | x87Store (address : MemoryOperand) (width : Nat) (pop : Bool)
  | x87StorePop (address : MemoryOperand)
  | storeMxcsr (address : MemoryOperand)
  | extractSubVector (dst : MemoryOperand) (src : VectorOperand) (index elementSize : U8)
  | compressVector (dst : MemoryOperand) (src elementSize : U8) (width : Nat)
  | scatterVector (baseAddr : VectorOperand) (indices src scale elementSize : U8) (width : Nat)

inductive IrInstruction (P : Platform) where
  | cpuid
  | xgetbv
  | movImm (dst : Register) (value : U64)
  | movImm8 (dst : ByteRegister) (value : U8)
  | movReg (dst src : Register) (width : Nat)
  | movReg8 (dst src : ByteRegister)
  | notMemory (address : MemoryOperand) (width : Nat)
  | addImm (dst : Register) (value : U64) (width : Nat)
  | addReg8 (dst src : ByteRegister)
  | addReg8Op (dst : ByteRegister) (src : CompareOperand)
  | addMemory8 (address : MemoryOperand) (src : ByteRegister)
  | addOperand (dst : Register) (src : CompareOperand) (width : Nat)
  | addMemory (address : MemoryOperand) (src : Register) (width : Nat)
  | addImmMemory (address : MemoryOperand) (value : U64) (width : Nat)
  | adcOperand (dst : Register) (src : CompareOperand) (width : Nat)
  | adcReg8Op (dst : ByteRegister) (src : CompareOperand)
  | adcMemory (address : MemoryOperand) (src : Register) (width : Nat)
  | adcMemory8 (address : MemoryOperand) (src : ByteRegister)
  | adcImm (dst : Register) (value : U64) (width : Nat)
  | adcImm8 (dst : ByteRegister) (value : U8)
  | addImm8 (dst : ByteRegister) (value : U8)
  | adcImmMemory (address : MemoryOperand) (value : U64) (width : Nat)
  | orImm (dst : Register) (value : U64) (width : Nat)
  | orImm8 (dst : ByteRegister) (value : U8)
  | andImm8 (dst : ByteRegister) (value : U8)
  | orImmMemory (address : MemoryOperand) (value : U64) (width : Nat)
  | subImm (dst : Register) (value : U64) (width : Nat)
  | subImm8 (dst : ByteRegister) (value : U8)
  | subImmMemory (address : MemoryOperand) (value : U64) (width : Nat)
  | andImm (dst : Register) (value : U64) (width : Nat)
  | andImmMemory (address : MemoryOperand) (value : U64) (width : Nat)
  | andReg (dst : Register) (src : CompareOperand) (width : Nat)
  | andMemory (address : MemoryOperand) (src : Register) (width : Nat)
  | rolImm (dst : Register) (count : U8) (width : Nat)
  | rorImm (dst : Register) (count : U8) (width : Nat)
  | rclImm (dst : Register) (count : U8) (width : Nat)
  | rcrImm (dst : Register) (count : U8) (width : Nat)
  | rolImmMemory (address : MemoryOperand) (count : U8) (width : Nat)
  | rorImmMemory (address : MemoryOperand) (count : U8) (width : Nat)
  | rclImmMemory (address : MemoryOperand) (count : U8) (width : Nat)
  | rcrImmMemory (address : MemoryOperand) (count : U8) (width : Nat)
  | shlImm (dst : Register) (count : U8) (width : Nat)
  | shrImm (dst : Register) (count : U8) (width : Nat)
  | sarImm (dst : Register) (count : U8) (width : Nat)
  | shlImmMemory (address : MemoryOperand) (count : U8) (width : Nat)
  | shrImmMemory (address : MemoryOperand) (count : U8) (width : Nat)
  | sarImmMemory (address : MemoryOperand) (count : U8) (width : Nat)
  | rolCl (dst : Register) (width : Nat)
  | rclCl (dst : Register) (width : Nat)
  | rcrCl (dst : Register) (width : Nat)
  | rolClMemory (address : MemoryOperand) (width : Nat)
  | rorClMemory (address : MemoryOperand) (width : Nat)
  | rclClMemory (address : MemoryOperand) (width : Nat)
  | rcrClMemory (address : MemoryOperand) (width : Nat)
  | shlClMemory (address : MemoryOperand) (width : Nat)
  | shrClMemory (address : MemoryOperand) (width : Nat)
  | sarClMemory (address : MemoryOperand) (width : Nat)
  | shlCl (dst : Register) (width : Nat)
  | rorCl (dst : Register) (width : Nat)
  | shrCl (dst : Register) (width : Nat)
  | sarCl (dst : Register) (width : Nat)
  | shldImm (dst src : Register) (count : U8) (width : Nat)
  | shldCl (dst src : Register) (width : Nat)
  | shrdImm (dst src : Register) (count : U8) (width : Nat)
  | imulImm (dst : Register) (src : CompareOperand) (imm : U64) (width : Nat)
  | imulReg (dst : Register) (src : CompareOperand) (width : Nat)
  | mulAcc (src : CompareOperand) (width : Nat)
  | imulAcc (src : CompareOperand) (width : Nat)
  | div (src : CompareOperand) (width : Nat)
  | idiv (src : CompareOperand) (width : Nat)
  | subReg8 (dst : ByteRegister) (src : CompareOperand)
  | sbbReg8 (dst : ByteRegister) (src : CompareOperand)
  | negReg (dst : Register) (width : Nat)
  | negReg8 (dst : ByteRegister)
  | notReg (dst : Register) (width : Nat)
  | notReg8 (dst : ByteRegister)
  | cdq (width : Nat)
  | movs (width : Nat) (rep : Bool)
  | stos (width : Nat) (rep : Bool)
  | lods (width : Nat) (rep : Bool)
  | cmps (width : Nat) (rep repne : Bool)
  | scas (width : Nat) (rep repne : Bool)
  | bound (reg : Register) (address : MemoryOperand) (width : Nat)
  | hlt
  | cli
  | sti
  | std
  | ud2
  | sahf
  | lahf
  | setCarryFlag (value : Bool)
  | complementCarryFlag
  | pushAll
  | popAll
  | loadSegment (segment : U8) (src : CompareOperand)
  | portIn (port : Option U16) (width : Nat)
  | portOut (port : Option U16) (width : Nat)
  | movFromDr (dst : Register) (index : U8)
  | movToDr (index : U8) (src : Register)
  | subOperand (dst : Register) (src : CompareOperand) (width : Nat)
  | subMemory (address : MemoryOperand) (src : Register) (width : Nat)
  | subMemory8 (address : MemoryOperand) (src : ByteRegister)
  | sbbMemory (address : MemoryOperand) (src : Register) (width : Nat)
  | sbbMemory8 (address : MemoryOperand) (src : ByteRegister)
  | sbbImm8 (dst : ByteRegister) (value : U8)
  | sbbImm (dst : Register) (value : U64) (width : Nat)
  | sbbOperand (dst : Register) (src : CompareOperand) (width : Nat)
  | compare (lhs rhs : CompareOperand) (width : Nat)
  | test (lhs rhs : CompareOperand) (width : Nat)
  | exchangeRegisters (left right : Register) (width : Nat)
  | exchangeMemory (address : MemoryOperand) (register : Register) (width : Nat)
  | exchangeRegisters8 (left right : ByteRegister)
  | exchangeMemory8 (address : MemoryOperand) (reg : ByteRegister)
  | signExtendTo64 (dst : Register) (src : CompareOperand) (width : Nat)
  | signExtend (dst : Register) (src : CompareOperand) (srcWidth dstWidth : Nat)
  | zeroExtendTo64 (dst : Register) (src : CompareOperand) (width : Nat)
  | xorImm (dst : Register) (value : U64) (width : Nat)
  | xorImm8 (dst : ByteRegister) (value : U8)
  | xorImmMemory (address : MemoryOperand) (value : U64) (width : Nat)
  | xorReg (dst : Register) (src : CompareOperand) (width : Nat)
  | xorReg8 (dst src : ByteRegister)
  | xorReg8Op (dst : ByteRegister) (src : CompareOperand)
  | xorMemory8 (address : MemoryOperand) (src : ByteRegister)
  | xorMemory (address : MemoryOperand) (src : Register) (width : Nat)
  | orReg (dst : Register) (src : CompareOperand) (width : Nat)
  | orMemory (address : MemoryOperand) (src : Register) (width : Nat)
  | orMemory8 (address : MemoryOperand) (src : ByteRegister)
  | andReg8 (dst src : ByteRegister)
  | andReg8Op (dst : ByteRegister) (src : CompareOperand)
  | andMemory8 (address : MemoryOperand) (src : ByteRegister)
  | bitTest (base bit : Register) (width : Nat)
  | bitTestImm (src : CompareOperand) (bit : U64) (width : Nat)
  | orReg8 (dst src : ByteRegister)
  | orReg8Op (dst : ByteRegister) (src : CompareOperand)
  | incReg (dst : Register) (width : Nat)
  | decReg (dst : Register) (width : Nat)
  | incReg8 (dst : ByteRegister)
  | decReg8 (dst : ByteRegister)
  | incMemory (address : MemoryOperand) (width : Nat)
  | decMemory (address : MemoryOperand) (width : Nat)
  | cmov (condition : ConditionCode) (dst : Register) (src : CompareOperand) (width : Nat)
  | loadMemory8 (dst : ByteRegister) (address : MemoryOperand)
  | loadMemory (dst : Register) (address : MemoryOperand) (width : Nat)
  | storeMemory8 (src : ByteRegister) (address : MemoryOperand)
  | storeMemory (src : Register) (address : MemoryOperand) (width : Nat)
  | storeImmediate (address : MemoryOperand) (value : U64) (width : Nat)
  | call (target returnAddress : U64)
  | callRegister (src : Register) (returnAddress : U64)
  | callMemory (address : MemoryOperand) (returnAddress : U64)
  | jumpRegister (src : Register)
  | jumpMemory (address : MemoryOperand)
  | setcc (condition : ConditionCode) (dst : ByteRegister)
  | setccMemory (condition : ConditionCode) (address : MemoryOperand)
  | jumpIf (condition : ConditionCode) (target fallthrough : U64)
  | jump (target : U64)
  | nop
  | loadEffectiveAddress (dst : Register) (address : MemoryOperand) (width : Nat)
  | pushReg (src : Register)
  | pushMemory (address : MemoryOperand) (width : Nat)
  | pushImm (value : U64) (width : Nat)
  | pushFlags (width : Nat)
  | popReg (dst : Register)
  | popMemory (address : MemoryOperand) (width : Nat)
  | popFlags (width : Nat)
  | cld
  | leave
  | return_ (stackAdjust : U64)
  | popcnt (dst src : Register)
  | lzcnt (dst src : Register)
  | bsf (dst src : Register)
  | bswap (dst : Register) (width : Nat)
  | rdtsc
  | crc32 (dst src : Register)
  | rdrand (dst : Register)
  | rdseed (dst : Register)
  | rdpmc (counter : U8)
  | clflush (address : U64)
  | clflushopt (address : U64)
  | clwb (address : U64)
  | pcommit
  | xbegin (target : U64)
  | xend
  | xabort (imm : U8)
  | xtest
  | encls
  | enclu
  | saveSsP (address : U64)
  | rstorssp (address : MemoryOperand)
  | incssp (src : Register)
  | wrss (dst : MemoryOperand) (src : Register)
  | wruss (dst : MemoryOperand) (src : Register)
  | bndmkReg (dst src : U8)
  | bndmkMem (dst : U8) (address : MemoryOperand)
  | bndclReg (bnd src : U8)
  | bndclMem (bnd : U8) (address : MemoryOperand)
  | bndcuReg (bnd src : U8)
  | bndcuMem (bnd : U8) (address : MemoryOperand)
  | bndcnReg (bnd src : U8)
  | bndcnMem (bnd : U8) (address : MemoryOperand)
  | bndmovReg (dst src : U8)
  | bndmovMemLoad (dst : U8) (address : MemoryOperand)
  | bndmovMemStore (src : U8) (address : MemoryOperand)
  | andn (dst lhs rhs : Register)
  | bextr (dst src range : Register)
  | blsi (dst src : Register)
  | blsmsk (dst src : Register)
  | blsr (dst src : Register)
  | bzhi (dst src index : Register)
  | mulx (dstLo dstHi src : Register)
  | pdep (dst src mask : Register)
  | pext (dst src mask : Register)
  | rorx (dst src : Register) (imm : U8)
  | sarx (dst src shift : Register)
  | shrx (dst src shift : Register)
  | shlx (dst src shift : Register)
  | lockCmpxchg (address : MemoryOperand) (src : Register) (width : Nat)
  | cmpxchgRegisters (dst src : Register) (width : Nat)
  | lockCmpxchg8b (address : MemoryOperand)
  | lockXadd (address : MemoryOperand) (src : Register) (width : Nat)
  | xaddRegisters (dst src : Register) (width : Nat)
  | mfence
  | adcReg8 (dst src : ByteRegister)
  | adcx (dst : Register) (src : CompareOperand) (width : Nat)
  | adox (dst : Register) (src : CompareOperand) (width : Nat)
  | popSeg (width : Nat)
  | breakpoint
  | spillStore (slot : U16) (src : Register)
  | spillLoad (slot : U16) (dst : Register)
  | explicitFlags (op : U8) (lhs rhs result : Register) (width : Nat)
  | vectorStore (form : VectorStore)
  | extension (op : P.Instruction)

end Casa.Cpu
