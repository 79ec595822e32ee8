import Casa.Lib.MachineInt

/-! Arithmetic flags of the guest processor (cpu/flags.rs). Operands and results
are 64-bit words already masked to the operand width, given in bits. The 128-bit
intermediate values of the source are 128-bit words here. -/
namespace Casa.Cpu
open MachineInt

structure Flags where
  cf : Bool := false
  pf : Bool := false
  af : Bool := false
  zf : Bool := false
  sf : Bool := false
  of : Bool := false

/-- All bits of an operand of `width` bytes; an unknown width keeps the whole word. -/
def widthMask : Nat → U64
  | 1 => 0xff
  | 2 => 0xffff
  | 4 => 0xffffffff
  | _ => BitVec.allOnes 64

/-- `1_u64 << (width - 1)`, both operations wrapping. -/
def signBit (width : Nat) : U64 := shl 1 (wrapSub 64 width 1)

def parity (value : U8) : Bool := countOnes value % 2 == 0

def addFlags (lhs rhs result : U64) (width : Nat) : Flags where
  cf := result.ult lhs
  pf := parity (result.setWidth 8)
  af := (lhs ^^^ rhs ^^^ result) &&& 0x10 != 0
  zf := result == 0
  sf := result &&& signBit width != 0
  of := (~~~(lhs ^^^ rhs) &&& (lhs ^^^ result)) &&& signBit width != 0

def signedValue (value : U64) (width : Nat) : BitVec 128 :=
  if value &&& signBit width != 0 then value.setWidth 128 - shl 1 width else value.setWidth 128

def adcFlags (lhs rhs carry result : U64) (width : Nat) : Flags :=
  let mask : U64 := if width = 64 then BitVec.allOnes 64 else shl 1 width - 1
  let unsignedSum : BitVec 128 := lhs.setWidth 128 + rhs.setWidth 128 + carry.setWidth 128
  let signedSum := signedValue lhs width + signedValue rhs width + carry.setWidth 128
  let minSigned : BitVec 128 := -shl 1 (wrapSub 64 width 1)
  let maxSigned : BitVec 128 := shl 1 (wrapSub 64 width 1) - 1
  { cf := (mask.setWidth 128).ult unsignedSum
    pf := parity (result.setWidth 8)
    af := (0x0f : U64).ult ((lhs &&& 0x0f) + (rhs &&& 0x0f) + carry)
    zf := result == 0
    sf := result &&& signBit width != 0
    of := signedSum.slt minSigned || maxSigned.slt signedSum }

def subFlags (lhs rhs result : U64) (width : Nat) : Flags where
  cf := lhs.ult rhs
  pf := parity (result.setWidth 8)
  af := (lhs ^^^ rhs ^^^ result) &&& 0x10 != 0
  zf := result == 0
  sf := result &&& signBit width != 0
  of := ((lhs ^^^ rhs) &&& (lhs ^^^ result)) &&& signBit width != 0

def sbbFlags (lhs rhs borrow result : U64) (width : Nat) : Flags :=
  let rhsWithBorrow := (rhs + borrow) &&& widthMask (width / 8)
  { cf := (lhs.setWidth 128).ult (rhs.setWidth 128 + borrow.setWidth 128)
    pf := parity (result.setWidth 8)
    af := (lhs ^^^ rhsWithBorrow ^^^ result) &&& 0x10 != 0
    zf := result == 0
    sf := result &&& signBit width != 0
    of := ((lhs ^^^ rhsWithBorrow) &&& (lhs ^^^ result)) &&& signBit width != 0 }

def logicFlags (result : U64) (width : Nat) : Flags where
  pf := parity (result.setWidth 8)
  zf := result == 0
  sf := result &&& signBit width != 0

/-! ## Parked flag computations -/

inductive FlagOp where
  | add
  | sub
  | logic

/-- A deferred flag computation. The width in bits is kept in one byte. -/
structure PendingFlags where
  lhs : U64
  rhs : U64
  result : U64
  op : FlagOp
  widthBits : U8

def PendingFlags.evaluate (parked : PendingFlags) : Flags :=
  match parked.op with
  | .add => addFlags parked.lhs parked.rhs parked.result parked.widthBits.toNat
  | .sub => subFlags parked.lhs parked.rhs parked.result parked.widthBits.toNat
  | .logic => logicFlags parked.result parked.widthBits.toNat

/-! ## Conditions -/

inductive ConditionCode where
  | equal
  | notEqual
  | overflow
  | notOverflow
  | below
  | notBelow
  | above
  | notAbove
  | sign
  | notSign
  | less
  | greaterEqual
  | lessEqual
  | greater
  | parity
  | notParity
  deriving DecidableEq

def evaluateCondition (condition : ConditionCode) (flags : Flags) : Bool :=
  match condition with
  | .equal => flags.zf
  | .notEqual => !flags.zf
  | .overflow => flags.of
  | .notOverflow => !flags.of
  | .below => flags.cf
  | .notBelow => !flags.cf
  | .above => !flags.cf && !flags.zf
  | .notAbove => flags.cf || flags.zf
  | .sign => flags.sf
  | .notSign => !flags.sf
  | .less => flags.sf != flags.of
  | .greaterEqual => flags.sf == flags.of
  | .lessEqual => flags.zf || flags.sf != flags.of
  | .greater => !flags.zf && flags.sf == flags.of
  | .parity => flags.pf
  | .notParity => !flags.pf

/-- The interpreter's own copy of `evaluateCondition`, with the arguments the other way round. -/
def conditionHolds (flags : Flags) (condition : ConditionCode) : Bool :=
  evaluateCondition condition flags

/-! ## Widths kept in one byte

The sign-bit position only depends on the width modulo the word size, so the
byte in which a parked computation keeps its width loses nothing. -/

theorem signBit_eq : signBit width = (1 : U64) <<< ((width + 63) % 64) := by
  have position : wrapSub 64 width 1 % 64 = (width + 63) % 64 := by
    unfold wrapSub
    omega
  rw [signBit, shl, position]

theorem signBit_byte : signBit (width % 256) = signBit width := by
  have position : (width % 256 + 63) % 64 = (width + 63) % 64 := by omega
  rw [signBit_eq, signBit_eq, position]

theorem addFlags_byte : addFlags lhs rhs result (width % 256) = addFlags lhs rhs result width := by
  simp [addFlags, signBit_byte]

theorem subFlags_byte : subFlags lhs rhs result (width % 256) = subFlags lhs rhs result width := by
  simp [subFlags, signBit_byte]

theorem logicFlags_byte : logicFlags result (width % 256) = logicFlags result width := by
  simp [logicFlags, signBit_byte]

end Casa.Cpu
