import Casa.Cpu.Frame

/-! Bit tests, bit counts and the BMI instructions of the cold path, with the
helpers of cpu/flags.rs and cpu/simd.rs that they use. -/
namespace Casa.Cpu
open Effect MachineInt

/-- `dst := f state`. -/
def assign (dst : Register) (f : CpuState → U64) : Step P Unit := do
  let s ← cpu
  setReg dst (f s)

/-- `dst := f state`, with the flags of a 64-bit logic operation. -/
def assignLogic (dst : Register) (f : CpuState → U64) : Step P Unit := do
  let s ← cpu
  setReg dst (f s)
  setFlags (logicFlags (f s) 64)

/-! ## Bit tests -/

def bitIndex (bit : U64) (width : Nat) : Nat :=
  if widthBits width = 0 then 0 else bit.toNat % widthBits width

def bitTest (base bit : Register) (width : Nat) : Step P Unit := do
  let s ← cpu
  let value := s.get base &&& widthMask width
  modifyFlags fun flags => { flags with cf := shr value (bitIndex (s.get bit) width) &&& 1 != 0 }

def bitTestImm (src : CompareOperand) (bit : U64) (width : Nat) : Step P Unit := do
  let value ← readOperand src width
  let value := value &&& widthMask width
  modifyFlags fun flags => { flags with cf := shr value (bitIndex bit width) &&& 1 != 0 }

/-! ## Counts and byte order -/

def popcnt (dst src : Register) : Step P Unit := do
  let s ← cpu
  let value := s.get src
  setReg dst (BitVec.ofNat 64 (countOnes value))
  setFlags { zf := value == 0 }

def lzcnt (dst src : Register) : Step P Unit := do
  let s ← cpu
  let value := s.get src
  let result := match s.arch with
    | .x64 => BitVec.ofNat 64 (leadingZeros value)
    | .x86 => BitVec.ofNat 64 (leadingZeros (value.setWidth 32))
  setReg dst result
  setFlags { cf := value == 0, zf := result == 0 }

/-- BSF leaves the destination alone when the source is zero. -/
def bsf (dst src : Register) : Step P Unit := do
  let s ← cpu
  let value := s.get src
  if value = 0 then modifyFlags fun flags => { flags with zf := true }
  else
    let result := match s.arch with
      | .x64 => BitVec.ofNat 64 (trailingZeros value)
      | .x86 => BitVec.ofNat 64 (trailingZeros (value.setWidth 32))
    setReg dst result
    modifyFlags fun flags => { flags with zf := false }

def bswap (dst : Register) (width : Nat) : Step P Unit := do
  let s ← cpu
  let value := s.get dst
  match width with
  | 2 => mergeReg dst (((value &&& 0xff) <<< 8) ||| ((value >>> 8) &&& 0xff)) 2
  | 4 => setReg dst (zeroExtend ((swapBytes 4 (value.setWidth 32)).setWidth 64) 4)
  | 8 => mergeReg dst (swapBytes 8 value) 8
  | other => raise s!"unsupported bswap width {other}"

/-! ## Bit deposit and extract

Both loops clear the lowest bit of the mask, so 64 rounds empty it. -/

def bitDepositLoop : Nat → U64 → U64 → U64 → U64
  | 0, _, _, result => result
  | fuel + 1, source, mask, result =>
    if mask = 0 then result
    else
      let result := if source &&& 1 != 0 then result ||| isolateLowestOne mask else result
      bitDepositLoop fuel (source >>> 1) (mask &&& (mask - 1)) result

def bitDeposit (source mask : U64) : U64 := bitDepositLoop 64 source mask 0

def bitExtractLoop : Nat → U64 → U64 → Nat → U64 → U64
  | 0, _, _, _, result => result
  | fuel + 1, source, mask, bit, result =>
    if mask = 0 then result
    else
      let result := if source &&& isolateLowestOne mask != 0 then result ||| shl 1 bit else result
      bitExtractLoop fuel source (mask &&& (mask - 1)) (bit + 1) result

def bitExtract (source mask : U64) : U64 := bitExtractLoop 64 source mask 0 0

/-! ## Checksums -/

def crcBit (crc : U32) : U32 := (crc >>> 1) ^^^ ((0 - (crc &&& 1)) &&& 0xedb88320)

def crc32U64 (seed : U32) (value : U64) : U32 :=
  ~~~(toLeBytes 8 value).foldl (fun crc byte => crcBit^[8] (crc ^^^ byte.setWidth 32)) (~~~seed)

def crc32 (dst src : Register) : Step P Unit := do
  let s ← cpu
  let crc := (crc32U64 ((s.get dst).setWidth 32) (s.get src)).setWidth 64
  setReg dst crc
  setFlags (logicFlags crc 32)

/-! ## BMI -/

/-- BEXTR: the length is cut to what is left above the start, in 8-bit arithmetic. -/
def bitField (source range : U64) : U64 :=
  let start := range.setWidth 8
  let len := (range >>> 8).setWidth 8
  let len := if len = 0 then 64 else if len.ult (64 - start) then len else 64 - start
  let mask := if len.ult 64 then shl 1 len.toNat - 1 else BitVec.allOnes 64
  shr source start.toNat &&& mask

def zeroHighBits (source index : U64) : U64 :=
  let index := index &&& 0xff
  source &&& if index.ult 64 then shl 1 index.toNat - 1 else BitVec.allOnes 64

/-- MULX: the high half is written last. -/
def mulx (dstLo dstHi src : Register) : Step P Unit := do
  let s ← cpu
  let full : BitVec 128 := (s.get .rdx).setWidth 128 * (s.get src).setWidth 128
  setReg dstLo (full.setWidth 64)
  setReg dstHi ((full >>> 64).setWidth 64)

/-- The count of SARX, SHRX and SHLX. -/
def bmiCount (shift : U64) : Nat := (shift &&& 0x3f).toNat

/-! ## Their shapes -/

section Shapes
variable {regs : List Register}

section
variable (member : dst ∈ regs)
include member

theorem assign_arm (f : CpuState → U64) : Arm P regs (assign dst f) :=
  .read fun _ => .sure (.setReg member)

theorem assignLogic_arm (f : CpuState → U64) : Arm P regs (assignLogic dst f) :=
  .read fun _ => .sure <| .bind (.setReg member) fun _ => .setFlags

omit member in
theorem bitTest_arm : Arm P regs (bitTest base bit width) :=
  .read fun _ => .sure (.modifyFlags _)

omit member in
theorem bitTestImm_arm : Arm P regs (bitTestImm src bit width) :=
  .read fun _ => .sure (.modifyFlags _)

theorem popcnt_arm (src : Register) : Arm P regs (popcnt dst src) :=
  .read fun _ => .sure <| .bind (.setReg member) fun _ => .setFlags

theorem lzcnt_arm (src : Register) : Arm P regs (lzcnt dst src) :=
  .read fun _ => .sure <| .bind (.setReg member) fun _ => .setFlags

theorem bsf_arm (src : Register) : Arm P regs (bsf dst src) :=
  .read fun _ => .sure <| .ite (.modifyFlags _) <| .bind (.setReg member) fun _ => .modifyFlags _

theorem bswap_arm : Arm P regs (bswap dst width) := by
  refine .read fun s => ?_
  split
  · exact .sure (.mergeReg member)
  · exact .sure (.setReg member)
  · exact .sure (.mergeReg member)
  · exact .quiet .throw

theorem crc32_arm (src : Register) : Arm P regs (crc32 dst src) :=
  .read fun _ => .sure <| .bind (.setReg member) fun _ => .setFlags

end

theorem mulx_arm (low : dstLo ∈ regs) (high : dstHi ∈ regs) : Arm P regs (mulx dstLo dstHi src) :=
  .read fun _ => .sure <| .bind (.setReg low) fun _ => .setReg high

end Shapes

end Casa.Cpu
