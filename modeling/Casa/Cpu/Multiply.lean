import Casa.Cpu.Frame

/-! Multiplication and division of the cold path. Products and dividends are
128-bit words, read as signed numbers where the source has an `i128`. -/
namespace Casa.Cpu
open Effect MachineInt

/-- `sign_extend(value, width) as i64 as i128`. -/
def wideSigned (value : U64) (width : Nat) : BitVec 128 := (signExtend value width).signExtend 128

/-- A multiplication leaves its overflow in CF and OF and clears the rest. -/
def multiplyFlags (overflow : Bool) : Flags := { cf := overflow, of := overflow }

/-- `dst := lhs * rhs` on signed operands, truncated to the width. -/
def imulTo (dst : Register) (lhs rhs : U64) (width : Nat) : Step P Unit := do
  let product := wideSigned lhs width * wideSigned rhs width
  let truncated := product.setWidth 64 &&& widthMask width
  mergeReg dst truncated width
  setFlags (multiplyFlags (product != wideSigned truncated width))

def imulImm (dst : Register) (src : CompareOperand) (imm : U64) (width : Nat) : Step P Unit := do
  let lhs ← readOperand src width
  imulTo dst lhs imm width

def imulReg (dst : Register) (src : CompareOperand) (width : Nat) : Step P Unit := do
  let s ← cpu
  let rhs ← readOperand src width
  imulTo dst (s.get dst) rhs width

/-! ## Double-width products -/

def lowMask (width : Nat) : BitVec 128 :=
  if widthBits width = 64 then (BitVec.allOnes 64).setWidth 128 else shl 1 (widthBits width) - 1

def productLow (product : BitVec 128) (width : Nat) : U64 := (product &&& lowMask width).setWidth 64

def productHigh (product : BitVec 128) (width : Nat) : U64 :=
  (shr product (widthBits width) &&& lowMask width).setWidth 64

/-- The low half goes to the accumulator and the high half to RDX, at every width. -/
def writeProduct (product : BitVec 128) (overflow : Bool) (width : Nat) : Step P Unit := do
  mergeReg .rax (productLow product width) width
  mergeReg .rdx (productHigh product width) width
  setFlags (multiplyFlags overflow)

def mulAcc (src : CompareOperand) (width : Nat) : Step P Unit := do
  let s ← cpu
  let multiplicand := s.get .rax &&& widthMask width
  let multiplier ← readOperand src width
  let product : BitVec 128 :=
    multiplicand.setWidth 128 * (multiplier &&& widthMask width).setWidth 128
  writeProduct product (productHigh product width != 0) width

def imulAcc (src : CompareOperand) (width : Nat) : Step P Unit := do
  let s ← cpu
  let multiplier ← readOperand src width
  let product := wideSigned (s.get .rax) width * wideSigned multiplier width
  writeProduct product (product != wideSigned (productLow product width) width) width

/-! ## Unsigned division -/

def divideByZero : Step P Unit := raise "integer divide by zero"

def divideOverflow : Step P Unit := raise "integer divide overflow"

/-- The four widths differ in where the dividend is and how the results are stored. -/
def divStore (divisor : U64) (width : Nat) : Step P Unit := do
  let s ← cpu
  match width with
  | 1 =>
    let dividend := s.get .rax &&& 0xffff
    let quotient := dividend / divisor
    if (0xff : U64).ult quotient then divideOverflow
    else
      let remainder := dividend % divisor
      setReg .rax
        ((s.get .rax &&& ~~~0xffff#64) ||| ((remainder &&& 0xff) <<< 8) ||| (quotient &&& 0xff))
  | 2 =>
    let dividend := ((s.get .rdx &&& 0xffff) <<< 16) ||| (s.get .rax &&& 0xffff)
    let quotient := dividend / divisor
    if (0xffff : U64).ult quotient then divideOverflow
    else
      let remainder := dividend % divisor
      setReg .rax ((s.get .rax &&& ~~~0xffff#64) ||| (quotient &&& 0xffff))
      setReg .rdx ((s.get .rdx &&& ~~~0xffff#64) ||| (remainder &&& 0xffff))
  | 4 =>
    let dividend := ((s.get .rdx &&& 0xffffffff) <<< 32) ||| (s.get .rax &&& 0xffffffff)
    let quotient := dividend / divisor
    if (0xffffffff : U64).ult quotient then divideOverflow
    else
      let remainder := dividend % divisor
      setReg .rax (quotient &&& 0xffffffff)
      setReg .rdx (remainder &&& 0xffffffff)
  | 8 =>
    let dividend : BitVec 128 := ((s.get .rdx).setWidth 128 <<< 64) ||| (s.get .rax).setWidth 128
    let wideDivisor : BitVec 128 := divisor.setWidth 128
    let quotient := dividend / wideDivisor
    if ((BitVec.allOnes 64).setWidth 128).ult quotient then divideOverflow
    else
      let remainder := dividend % wideDivisor
      setReg .rax (quotient.setWidth 64)
      setReg .rdx (remainder.setWidth 64)
  | other => raise s!"unsupported div width {other}"

def div (src : CompareOperand) (width : Nat) : Step P Unit := do
  let operand ← readOperand src width
  let divisor := operand &&& widthMask width
  if divisor = 0 then divideByZero else divStore divisor width

/-! ## Signed division -/

def idivDivisor (operand : U64) : Nat → Option (BitVec 128)
  | 1 => some ((operand.setWidth 8).signExtend 128)
  | 2 => some ((operand.setWidth 16).signExtend 128)
  | 4 => some ((operand.setWidth 32).signExtend 128)
  | 8 => some (operand.signExtend 128)
  | _ => none

def idivDividend (s : CpuState) : Nat → BitVec 128
  | 1 => ((s.get .rax).setWidth 16).signExtend 128
  | 2 =>
    let combined := (((s.get .rdx &&& 0xffff) <<< 16) ||| (s.get .rax &&& 0xffff)).setWidth 32
    combined.signExtend 128
  | 4 =>
    let combined := ((s.get .rdx &&& 0xffffffff) <<< 32) ||| (s.get .rax &&& 0xffffffff)
    combined.signExtend 128
  | _ => ((s.get .rdx).signExtend 128 <<< 64) ||| (s.get .rax).setWidth 128

def outOfSignedRange (quotient : BitVec 128) (bits : Nat) : Bool :=
  quotient.slt ((BitVec.intMin bits).signExtend 128) ||
    ((BitVec.intMax bits).signExtend 128).slt quotient

/-- The 8-byte form stores the low half of the quotient without a range check. -/
def idivStore (quotient remainder : BitVec 128) (width : Nat) : Step P Unit := do
  let s ← cpu
  match width with
  | 1 =>
    if outOfSignedRange quotient 8 then divideOverflow
    else
      setReg .rax ((s.get .rax &&& ~~~0xffff#64) ||| ((remainder.setWidth 8).setWidth 64 <<< 8)
        ||| (quotient.setWidth 8).setWidth 64)
  | 2 =>
    if outOfSignedRange quotient 16 then divideOverflow
    else
      setReg .rax (zeroExtend ((quotient.setWidth 16).setWidth 64) 2)
      setReg .rdx (zeroExtend ((remainder.setWidth 16).setWidth 64) 2)
  | 4 =>
    if outOfSignedRange quotient 32 then divideOverflow
    else
      setReg .rax (zeroExtend ((quotient.setWidth 32).setWidth 64) 4)
      setReg .rdx (zeroExtend ((remainder.setWidth 32).setWidth 64) 4)
  | _ =>
    setReg .rax (quotient.setWidth 64)
    setReg .rdx (remainder.setWidth 64)

def idiv (src : CompareOperand) (width : Nat) : Step P Unit := do
  let operand ← readOperand src width
  let s ← cpu
  match idivDivisor operand width with
  | none => raise s!"unsupported idiv width {width}"
  | some divisor =>
    if divisor = 0 then divideByZero
    else
      let dividend := idivDividend s width
      -- The one quotient that does not fit 128 bits aborts the division itself.
      if dividend = BitVec.intMin 128 ∧ divisor = BitVec.allOnes 128 then Exec.panic
      else idivStore (dividend.sdiv divisor) (dividend.srem divisor) width

def cdq (width : Nat) : Step P Unit := do
  let s ← cpu
  let extend (negative : Bool) : Step P Unit :=
    setReg .rdx (if negative then widthMask width else 0)
  match width with
  | 2 => extend ((s.get .rax).setWidth 16).msb
  | 4 => extend ((s.get .rax).setWidth 32).msb
  | 8 => extend (s.get .rax).msb
  | other => raise s!"unsupported cdq width {other}"

/-! ## Their shapes

A divide error is raised before either half of the pair is written. -/

theorem imulTo_arm (member : dst ∈ regs) : Arm P regs (imulTo dst lhs rhs width) :=
  .sure <| .bind (.mergeReg member) fun _ => .setFlags

theorem imulImm_arm (member : dst ∈ regs) : Arm P regs (imulImm dst src imm width) :=
  .read fun _ => imulTo_arm member

theorem imulReg_arm (member : dst ∈ regs) : Arm P regs (imulReg dst src width) :=
  .read fun _ => .read fun _ => imulTo_arm member

def accumulatorPair : List Register := [.rax, .rdx]

theorem writeProduct_arm : Arm P accumulatorPair (writeProduct product overflow width) :=
  .sure <| .bind (.mergeReg (by decide)) fun _ => .bind (.mergeReg (by decide)) fun _ => .setFlags

theorem mulAcc_arm : Arm P accumulatorPair (mulAcc src width) :=
  .read fun _ => .read fun _ => writeProduct_arm

theorem imulAcc_arm : Arm P accumulatorPair (imulAcc src width) :=
  .read fun _ => .read fun _ => writeProduct_arm

private theorem writePair_arm :
    Arm P accumulatorPair (do setReg .rax quotient; setReg .rdx remainder) :=
  .sure <| .bind (.setReg (by decide)) fun _ => .setReg (by decide)

theorem divStore_arm : Arm P accumulatorPair (divStore divisor width) := by
  refine .read fun s => ?_
  split
  · exact .ite (.quiet .throw) (.sure (.setReg (by decide)))
  · exact .ite (.quiet .throw) writePair_arm
  · exact .ite (.quiet .throw) writePair_arm
  · exact .ite (.quiet .throw) writePair_arm
  · exact .quiet .throw

theorem div_arm : Arm P accumulatorPair (div src width) :=
  .read fun _ => .ite (.quiet .throw) divStore_arm

theorem idivStore_arm : Arm P accumulatorPair (idivStore quotient remainder width) := by
  refine .read fun s => ?_
  split
  · exact .ite (.quiet .throw) (.sure (.setReg (by decide)))
  · exact .ite (.quiet .throw) writePair_arm
  · exact .ite (.quiet .throw) writePair_arm
  · exact writePair_arm

theorem idiv_arm : Arm P accumulatorPair (idiv src width) := by
  refine .read fun operand => .read fun s => ?_
  split
  · exact .quiet .throw
  · exact .ite (.quiet .throw) <| .ite (.sure ⟨.panic, .panic⟩) idivStore_arm

theorem cdq_arm : Arm P accumulatorPair (cdq width) := by
  refine .read fun s => ?_
  split
  · exact .sure (.setReg (by decide))
  · exact .sure (.setReg (by decide))
  · exact .sure (.setReg (by decide))
  · exact .quiet .throw

end Casa.Cpu
