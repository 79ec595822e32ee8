import Casa.Cpu.RotateCarry
import Casa.Lib.Overflow

/-! Shifts and rotates of compiled code (`jit_helper_shift` and the merge that
`emit_shift_helper` emits after it) against the interpreter's arms. The two are
written independently: the helper works with 64-bit amounts and one masked
count for every kind, the interpreter with 32-bit amounts and reduces the count
of a rotate before it looks whether there is anything to do. -/
namespace Casa.Jit
open Casa.Cpu Effect MachineInt

inductive PlainShift where
  | shl
  | shr
  | sar

inductive ShiftKind where
  | shift (op : PlainShift)
  | rotate (kind : RotateKind)

/-- The numbers by which compiled code names the kinds. -/
def ShiftKind.code : ShiftKind → U32
  | .shift .shl => 0
  | .shift .shr => 1
  | .shift .sar => 2
  | .rotate .left => 3
  | .rotate .right => 4

def ShiftKind.fromCode (code : U32) : Option ShiftKind :=
  match code.toNat with
  | 0 => some (.shift .shl)
  | 1 => some (.shift .shr)
  | 2 => some (.shift .sar)
  | 3 => some (.rotate .left)
  | 4 => some (.rotate .right)
  | _ => none

/-! ## The helper -/

section Helper
variable {M : Type → Type} [Monad M] (profile : Profile M)

def helperMask (bits : Nat) : M U64 :=
  if 64 ≤ bits then pure (BitVec.allOnes 64)
  else do
    let bound ← profile.shl 1 bits
    pure (bound - 1)

/-- The bits a negative operand of SAR is filled with from above. -/
def helperFill (lhs signBit : U64) (bits shift : Nat) : M U64 :=
  if lhs &&& signBit != 0 then do
    let amount ← profile.sub 64 bits shift
    profile.shl (BitVec.allOnes 64) amount
  else pure 0

def helperResult (kind : ShiftKind) (lhs signBit mask : U64) (bits shift : Nat) : M U64 :=
  match kind with
  | .shift .shl => do
    let moved ← profile.shl lhs shift
    pure (moved &&& mask)
  | .shift .shr => do
    let moved ← profile.shr lhs shift
    pure (moved &&& mask)
  | .shift .sar => do
    let fill ← helperFill profile lhs signBit bits shift
    let moved ← profile.shr lhs shift
    pure ((moved ||| fill) &&& mask)
  | .rotate .left => do
    let rotate := shift % bits
    let high ← profile.shl lhs rotate
    let amount ← profile.sub 64 bits rotate
    let low ← profile.shr lhs amount
    pure ((high ||| low) &&& mask)
  | .rotate .right => do
    let rotate := shift % bits
    let low ← profile.shr lhs rotate
    let amount ← profile.sub 64 bits rotate
    let high ← profile.shl lhs amount
    pure ((low ||| high) &&& mask)

def helperCarry (kind : ShiftKind) (lhs result signBit : U64) (bits shift : Nat) : M Bool :=
  match kind with
  | .shift .shl => do
    let amount ← profile.sub 64 bits shift
    let last ← profile.shr lhs amount
    pure (last &&& 1 != 0)
  | .shift .shr | .shift .sar => do
    let amount ← profile.sub 64 shift 1
    let last ← profile.shr lhs amount
    pure (last &&& 1 != 0)
  | .rotate .left => pure (result &&& 1 != 0)
  | .rotate .right => pure (result &&& signBit != 0)

def helperOverflow (kind : ShiftKind) (lhs result signBit : U64) (shift : Nat) (cf : Bool) : Bool :=
  match kind with
  | .shift .shl => shift == 1 && (lhs ^^^ result) &&& signBit != 0
  | .shift .shr => shift == 1 && lhs &&& signBit != 0
  | .shift .sar => false
  | .rotate .left => shift == 1 && (result &&& signBit != 0) != cf
  | .rotate .right => shift == 1 && (result &&& signBit != 0) != (result &&& (signBit >>> 1) != 0)

/-- The result and the flags for a masked count other than zero. -/
def helperShift (kind : ShiftKind) (lhs signBit mask : U64) (bits shift : Nat) :
    M (U64 × Flags) := do
  let result ← helperResult profile kind lhs signBit mask bits shift
  let cf ← helperCarry profile kind lhs result signBit bits shift
  pure (result,
    { cf
      pf := parity (result.setWidth 8)
      af := false
      zf := result == 0
      sf := result &&& signBit != 0
      of := helperOverflow kind lhs result signBit shift cf })

/-- What the helper returns and what it leaves of the processor state, if there is one. -/
def jitHelperShift (state : Option CpuState) (value : U64) (count width kind : U32) :
    M (U64 × Option CpuState) :=
  match state with
  | none => pure (value, none)
  | some s => do
    let bits := width.toNat * 8
    let mask ← helperMask profile bits
    let shift := count.toNat &&& (if bits = 64 then 63 else 31)
    if shift = 0 then pure (value &&& mask, some s)
    else
      let top ← profile.sub 64 bits 1
      let signBit ← profile.shl 1 top
      match ShiftKind.fromCode kind with
      | none => pure (value &&& mask, some s)
      | some kind =>
        let (result, flags) ← helperShift profile kind (value &&& mask) signBit mask bits shift
        pure (result, some { s with pendingFlags := none, flags })

/-- A compiled shift: the call and the merge of its result into the register. -/
def emitShiftHelper (kind : ShiftKind) (dst : Register) (count : U8) (width : Nat) (s : CpuState) :
    M CpuState := do
  let (result, after) ← jitHelperShift profile (some s) (s.get dst) (count.setWidth 32)
    (BitVec.ofNat 32 width)
    kind.code
  pure ((after.getD s).set dst (mergeRegisterResult (s.get dst) result width))

end Helper

/-! ## The interpreter's arms -/

section Interpreter
variable {M : Type → Type} [Monad M] (profile : Profile M)

def shiftResult (op : PlainShift) (lhs : U64) (shift width : Nat) : M U64 :=
  match op with
  | .shl => do
    let moved ← profile.shl lhs shift
    pure (moved &&& widthMask width)
  | .shr => profile.shr lhs shift
  | .sar => do
    let moved ← profile.sar (signExtend lhs width) shift
    pure (moved &&& widthMask width)

def shiftCarryAmount (op : PlainShift) (bits shift : Nat) : M Nat :=
  match op with
  | .shl => profile.sub 32 bits shift
  | .shr | .sar => profile.sub 32 shift 1

def shiftOverflow (op : PlainShift) (lhs result signBit : U64) : Bool :=
  match op with
  | .shl => (lhs ^^^ result) &&& signBit != 0
  | .shr => lhs &&& signBit != 0
  | .sar => false

/-- SHL, SHR and SAR: the result and the flags, or nothing for a count of zero. -/
def shiftArm (op : PlainShift) (lhs : U64) (count : U8) (width : Nat) :
    M (Option (U64 × Flags)) := do
  let bits := shiftBits width
  let shift := shiftCount count bits
  if shift = 0 then pure none
  else
    let result ← shiftResult profile op lhs shift width
    let top ← profile.sub 32 bits 1
    let signBit ← profile.shl 1 top
    let amount ← shiftCarryAmount profile op bits shift
    let last ← profile.shr lhs amount
    pure (some (result,
      { cf := last &&& 1 != 0
        pf := parity (result.setWidth 8)
        af := false
        zf := result == 0
        sf := result &&& signBit != 0
        of := shift == 1 && shiftOverflow op lhs result signBit }))

def rotateResult (kind : RotateKind) (value : U64) (rotate bits : Nat) : M U64 := do
  let amount ← profile.sub 32 bits rotate
  match kind with
  | .left =>
    let high ← profile.shl value rotate
    let low ← profile.shr value amount
    pure (high ||| low)
  | .right =>
    let low ← profile.shr value rotate
    let high ← profile.shl value amount
    pure (low ||| high)

/-- The bit of a result that the flags of a rotate look at, counted from the width. -/
def bitBelow (result : U64) (bits distance : Nat) : M Bool := do
  let position ← profile.sub 32 bits distance
  let low ← profile.shr result position
  pure (low &&& 1 != 0)

def rotateFlags (flags : Flags) (result : U64) (bits rotate : Nat) (kind : RotateKind) :
    M Flags := do
  let msb ← bitBelow profile result bits 1
  let shared :=
    { flags with pf := parity (result.setWidth 8), af := false, zf := result == 0, sf := msb }
  match kind with
  | .left =>
    let cf := result &&& 1 != 0
    pure { shared with cf, of := rotate == 1 && msb != cf }
  | .right =>
    let next ← bitBelow profile result bits 2
    pure { shared with cf := msb, of := rotate == 1 && msb != next }

/-- ROL and ROR: the result and the flags, or nothing for a whole number of turns. -/
def rotateArm (kind : RotateKind) (value : U64) (flags : Flags) (count : U8) (width : Nat) :
    M (Option (U64 × Flags)) := do
  let bits := shiftBits width
  let rotate := rotateCount count bits
  if rotate = 0 then pure none
  else
    let turned ← rotateResult profile kind value rotate bits
    let result := turned &&& widthMask width
    let flags ← rotateFlags profile flags result bits rotate kind
    pure (some (result, flags))

def interpreterArm (kind : ShiftKind) (value : U64) (flags : Flags) (count : U8) (width : Nat) :
    M (Option (U64 × Flags)) :=
  match kind with
  | .shift op => shiftArm profile op value count width
  | .rotate kind => rotateArm profile kind value flags count width

end Interpreter

def ShiftKind.instruction (kind : ShiftKind) (dst : Register) (count : U8) (width : Nat) :
    IrInstruction P :=
  match kind with
  | .shift .shl => .shlImm dst count width
  | .shift .shr => .shrImm dst count width
  | .shift .sar => .sarImm dst count width
  | .rotate .left => .rolImm dst count width
  | .rotate .right => .rorImm dst count width

/-! ## The two profiles -/

section Profiles
open Profile

theorem helperMask_refines : Refines (helperMask checked bits) (helperMask optimised bits) :=
  .ite (.pure _) (.bind (.shl _ _) fun _ => .pure _)

theorem helperResult_refines (signBit : U64) (fits : bits < 2 ^ 64) :
    Refines (helperResult checked kind lhs signBit mask bits shift)
      (helperResult optimised kind lhs signBit mask bits shift) := by
  rcases kind with op | turn
  · cases op with
    | shl => exact .bind (.shl _ _) fun _ => .pure _
    | shr => exact .bind (.shr _ _) fun _ => .pure _
    | sar =>
      exact .bind (.ite (.bind (.sub fits) fun _ => .shl _ _) (.pure _)) fun _ =>
        .bind (.shr _ _) fun _ => .pure _
  · cases turn with
    | left =>
      exact .bind (.shl _ _) fun _ => .bind (.sub fits) fun _ => .bind (.shr _ _) fun _ => .pure _
    | right =>
      exact .bind (.shr _ _) fun _ => .bind (.sub fits) fun _ => .bind (.shl _ _) fun _ => .pure _

theorem helperCarry_refines {signBit : U64} (fits : bits < 2 ^ 64) (small : shift < 2 ^ 64) :
    Refines (helperCarry checked kind lhs result signBit bits shift)
      (helperCarry optimised kind lhs result signBit bits shift) := by
  rcases kind with op | turn
  · cases op with
    | shl => exact .bind (.sub fits) fun _ => .bind (.shr _ _) fun _ => .pure _
    | shr | sar => exact .bind (.sub small) fun _ => .bind (.shr _ _) fun _ => .pure _
  · cases turn <;> exact .pure _

theorem helperShift_refines {signBit : U64} (fits : bits < 2 ^ 64) (small : shift < 2 ^ 64) :
    Refines (helperShift checked kind lhs signBit mask bits shift)
      (helperShift optimised kind lhs signBit mask bits shift) :=
  .bind (helperResult_refines signBit fits) fun _ =>
    .bind (helperCarry_refines fits small) fun _ => .pure _

theorem jitHelperShift_refines : Refines (jitHelperShift checked state value count width kind)
      (jitHelperShift optimised state value count width kind) := by
  cases state with
  | none => exact .pure _
  | some s =>
    have fits : width.toNat * 8 < 2 ^ 64 := by have := width.isLt; omega
    have small : count.toNat &&& (if width.toNat * 8 = 64 then 63 else 31) < 2 ^ 64 :=
      Nat.lt_of_le_of_lt Nat.and_le_left (count.isLt.trans (by decide))
    refine .bind helperMask_refines fun mask => .ite (.pure _) (.bind (.sub fits) fun top =>
      .bind (.shl _ _) fun signBit => ?_)
    cases ShiftKind.fromCode kind with
    | none => exact .pure _
    | some => exact .bind (helperShift_refines fits small) fun _ => .pure _

theorem emitShiftHelper_refines : Refines (emitShiftHelper checked kind dst count width s)
      (emitShiftHelper optimised kind dst count width s) :=
  .bind jitHelperShift_refines fun _ => .pure _

theorem shiftBits_lt (width : Nat) : shiftBits width < 2 ^ 32 := Nat.mod_lt _ (by decide)

theorem shiftCount_lt : shiftCount count bits < 2 ^ 32 :=
  Nat.lt_of_le_of_lt Nat.and_le_left (count.isLt.trans (by decide))

theorem shiftResult_refines :
    Refines (shiftResult checked op lhs shift width) (shiftResult optimised op lhs shift width) := by
  cases op with
  | shl => exact .bind (.shl _ _) fun _ => .pure _
  | shr => exact .shr _ _
  | sar => exact .bind (.sar _ _) fun _ => .pure _

theorem shiftCarryAmount_refines (fits : bits < 2 ^ 32) (small : shift < 2 ^ 32) :
    Refines (shiftCarryAmount checked op bits shift) (shiftCarryAmount optimised op bits shift) := by
  cases op with
  | shl => rw [shiftCarryAmount, shiftCarryAmount]; exact .sub fits
  | shr | sar => rw [shiftCarryAmount, shiftCarryAmount]; exact .sub small

theorem shiftArm_refines :
    Refines (shiftArm checked op lhs count width) (shiftArm optimised op lhs count width) :=
  have fits := shiftBits_lt width
  .ite (.pure _) (.bind shiftResult_refines fun _ => .bind (.sub fits) fun _ =>
    .bind (.shl _ _) fun _ => .bind (shiftCarryAmount_refines fits shiftCount_lt) fun _ =>
      .bind (.shr _ _) fun _ => .pure _)

theorem bitBelow_refines (fits : bits < 2 ^ 32) :
    Refines (bitBelow checked result bits distance) (bitBelow optimised result bits distance) :=
  .bind (.sub fits) fun _ => .bind (.shr _ _) fun _ => .pure _

theorem rotateArm_refines :
    Refines (rotateArm checked kind value flags count width) (rotateArm optimised kind value flags count width) := by
  have fits := shiftBits_lt width
  cases kind with
  | left =>
    exact .ite (.pure _) (.bind (.bind (.sub fits) fun _ => .bind (.shl _ _) fun _ => .bind (.shr _ _) fun _ =>
      .pure _) fun _ => .bind (.bind (bitBelow_refines fits) fun _ => .pure _) fun _ => .pure _)
  | right =>
    exact .ite (.pure _) (.bind (.bind (.sub fits) fun _ => .bind (.shr _ _) fun _ => .bind (.shl _ _) fun _ =>
      .pure _) fun _ => .bind (.bind (bitBelow_refines fits) fun _ => .bind (bitBelow_refines fits)
        fun _ => .pure _) fun _ => .pure _)

theorem interpreterArm_refines : Refines (interpreterArm checked kind value flags count width)
      (interpreterArm optimised kind value flags count width) := by
  cases kind with
  | shift op => exact shiftArm_refines
  | rotate => exact rotateArm_refines

end Profiles

/-! ## The arms of the interpreter are these -/

/-- The machine after an arm that returned a result and flags, or left it alone. -/
def afterArm (m : Machine P) (dst : Register) (width : Nat) : Option (U64 × Flags) → Machine P
  | none => m
  | some (result, flags) =>
    { m with cpu := { m.cpu.set dst (mergeRegisterResult (m.cpu.get dst) result width) with flags } }

def PlainShift.op : PlainShift → ShiftOp
  | .shl => .shl
  | .shr => .shr
  | .sar => .sar

theorem shiftArm_optimised (shifts : shiftCount count (shiftBits width) ≠ 0) :
    shiftArm Profile.optimised op lhs count width = pure (some
      (op.op.result lhs (shiftCount count (shiftBits width)) width,
        op.op.flags lhs (op.op.result lhs (shiftCount count (shiftBits width)) width)
          (shiftCount count (shiftBits width)) (shiftBits width))) := by
  rw [shiftArm, if_neg shifts]
  generalize shiftCount count (shiftBits width) = shift
  generalize shiftBits width = bits
  cases op with
  | shl | shr =>
    rw [shiftResult, shiftCarryAmount]
    simp only [Profile.optimised_sub, Profile.optimised_shl, Profile.optimised_shr, pure_bind]
    rfl
  | sar =>
    rw [shiftResult, shiftCarryAmount]
    simp only [Profile.optimised_sub, Profile.optimised_shl, Profile.optimised_shr,
      Profile.optimised_sar, pure_bind]
    rfl

theorem shiftRegister_arm (op : PlainShift) (dst : Register) (count : U8) (width : Nat)
    (m : Machine P) :
    (shiftRegister op.op id dst count width).run m = .ok () (afterArm m dst width
      (shiftArm Profile.optimised op (m.cpu.get dst &&& widthMask width) count width).run) := by
  rw [shiftRegister, cpu, Exec.read_bind_run]
  dsimp only
  by_cases idle : shiftCount count (shiftBits width) = 0
  · rw [shiftArm, if_pos idle, if_pos idle]
    rfl
  · rw [shiftArm_optimised idle, if_neg idle]
    rfl

theorem rotateRegister_arm (kind : RotateKind) (dst : Register) (count : U8) (width : Nat)
    (m : Machine P) :
    (rotateRegister kind dst count width).run m = .ok () (afterArm m dst width
      (rotateArm Profile.optimised kind (m.cpu.get dst &&& widthMask width) m.cpu.flags count width).run) := by
  rw [rotateRegister, cpu, Exec.read_bind_run]
  dsimp only
  by_cases idle : rotateCount count (shiftBits width) = 0
  · rw [rotateArm, if_pos idle, if_pos idle]
    rfl
  · rw [rotateArm, if_neg idle, if_neg idle]
    cases kind <;>
      simp only [rotateResult, rotateFlags, bitBelow, Profile.optimised_sub, Profile.optimised_shl,
        Profile.optimised_shr, pure_bind, Id.run_pure, afterArm, mergeReg, modifyCpu, modifyFlags,
        Exec.modify_bind_run, Exec.modify_run, rotated, setRotateFlags, lowBit]

theorem executeIr_arm (host : Host P) (kind : ShiftKind) (dst : Register) (count : U8) (width : Nat)
    (m : Machine P) :
    (executeIr host [kind.instruction dst count width]).run m = .ok () (afterArm m.settle dst width
      (interpreterArm Profile.optimised kind (m.cpu.get dst &&& widthMask width) m.cpu.currentFlags count
        width).run) := by
  have register : m.settle.cpu.get dst = m.cpu.get dst := m.cpu.materializeFlags_get dst
  rw [← register, ← settle_flags]
  rcases kind with op | turn
  · have arm := shiftRegister_arm op dst count width m.settle
    cases op <;> exact (executeIr_single fun _ => rfl).trans arm
  · have arm := rotateRegister_arm turn dst count width m.settle
    cases turn <;> exact (executeIr_single fun _ => rfl).trans arm

end Casa.Jit
