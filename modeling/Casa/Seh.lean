import Casa.Cpu.State
import Casa.Lib.LeBytes

/-! Structured exception handling (seh.rs): unwind information of the x64 convention, as
the parser delivers it, and the virtual unwind of one frame. A memory reader answers with
the bytes it was asked for, or not at all. -/
namespace Casa.Seh
open Casa.Cpu MachineInt

inductive UnwindCode where
  | pushNonVolatile (codeOffset register : U8)
  | allocLarge (codeOffset : U8) (size : U32)
  | allocSmall (codeOffset size : U8)
  | setFramePointer (codeOffset register : U8) (offset : U32)
  | saveNonVolatile (codeOffset register : U8) (offset : U32)
  | saveNonVolatileFar (codeOffset register : U8) (offset : U32)
  | epilog (codeOffset : U8) (offset : U32) (size flags : U8)
  | spare (codeOffset value : U8)
  | saveXmm128 (codeOffset register : U8) (offset : U32)
  | saveXmm128Far (codeOffset register : U8) (offset : U32)
  | pushMachineFrame (codeOffset code : U8)
  deriving DecidableEq

def UnwindCode.codeOffset : UnwindCode → U8
  | .pushNonVolatile codeOffset _ => codeOffset
  | .allocLarge codeOffset _ => codeOffset
  | .allocSmall codeOffset _ => codeOffset
  | .setFramePointer codeOffset _ _ => codeOffset
  | .saveNonVolatile codeOffset _ _ => codeOffset
  | .saveNonVolatileFar codeOffset _ _ => codeOffset
  | .epilog codeOffset _ _ _ => codeOffset
  | .spare codeOffset _ => codeOffset
  | .saveXmm128 codeOffset _ _ => codeOffset
  | .saveXmm128Far codeOffset _ _ => codeOffset
  | .pushMachineFrame codeOffset _ => codeOffset

structure UnwindInfo where
  flags : U8
  codes : List UnwindCode
  handlerRva : Option U32
  chainedInfoRva : Option U32

structure Xmm128 where
  low : U64
  high : U64

/-- The registers of CONTEXT64 that unwinding touches. -/
@[ext] structure X64Context where
  gpr : Register → U64
  rip : U64
  xmm : Fin 16 → Xmm128

inductive UnwindResult where
  | handlerFound (rva : U32)
  | completed
  | collided
  | notFound
  deriving DecidableEq

/-! ## Unwinding -/

/-- The bytes of a guest range, if the reader has them. -/
def MemoryReader : Type := U64 → Nat → Option (List U8)

def readU64FromGuest (reader : MemoryReader) (address : U64) : Option U64 :=
  (reader address 8).map (fromLeBytes 64)

def readXmm128FromGuest (reader : MemoryReader) (address : U64) : Option Xmm128 :=
  (reader address 16).map fun bytes =>
    ⟨fromLeBytes 64 (bytes.take 8), fromLeBytes 64 (bytes.drop 8)⟩

def getNonvolatileRegister (register : U8) : Option Register :=
  if register.toNat < 16 then some (Register.fromIndex register.toNat) else none

namespace X64Context

def set (context : X64Context) (register : Register) (value : U64) : X64Context :=
  { context with gpr := fun other => if other = register then value else context.gpr other }

def setXmm (context : X64Context) (register : Fin 16) (value : Xmm128) : X64Context :=
  { context with xmm := fun other => if other = register then value else context.xmm other }

/-- A saved value goes to its register if both exist. -/
def restore (context : X64Context) (register : U8) (saved : Option U64) : X64Context :=
  match saved, getNonvolatileRegister register with
  | some value, some register => context.set register value
  | _, _ => context

def restoreXmm (context : X64Context) (register : U8) (saved : Option Xmm128) : X64Context :=
  match saved with
  | some value => context.setXmm ⟨register.toNat % 16, Nat.mod_lt _ (by decide)⟩ value
  | none => context

variable (context : X64Context)
include context

@[simp] theorem set_gpr (register other : Register) (value : U64) :
    (context.set register value).gpr other = if other = register then value
      else context.gpr other := rfl

@[simp] theorem set_xmm (register : Register) (value : U64) :
    (context.set register value).xmm = context.xmm := rfl

@[simp] theorem set_rip (register : Register) (value : U64) :
    (context.set register value).rip = context.rip := rfl

omit context in
theorem restore_gpr {context : X64Context} (other : getNonvolatileRegister index ≠ some register) :
    (context.restore index saved).gpr register = context.gpr register := by
  cases saved with
  | none => rfl
  | some =>
    cases found : getNonvolatileRegister index with
    | none => simp only [restore, found]
    | some target =>
      have differ : register ≠ target := fun same => other (found.trans (congrArg some same.symm))
      simp only [restore, found, set_gpr, if_neg differ]

theorem restore_xmm :
    (context.restore index saved).xmm = context.xmm := by
  cases saved with
  | none => rfl
  | some => cases found : getNonvolatileRegister index <;> simp only [restore, found, set_xmm]

theorem restore_rip :
    (context.restore index saved).rip = context.rip := by
  cases saved with
  | none => rfl
  | some => cases found : getNonvolatileRegister index <;> simp only [restore, found, set_rip]

theorem restoreXmm_rip :
    (context.restoreXmm index saved).rip = context.rip := by
  cases saved <;> rfl

theorem restoreXmm_gpr :
    (context.restoreXmm index saved).gpr = context.gpr := by
  cases saved <;> rfl

end X64Context

/-- The variables of the loop over the codes. -/
structure Replay where
  context : X64Context
  frameBase : U64
  stackAdjust : U64
  machineFrame : Bool

def inEpilog (codes : List UnwindCode) (target : Option U32) : Bool :=
  target.any fun target => codes.any fun code =>
    match code with
    | .epilog _ offset size _ =>
      offset ≤ target && target < saturatingAdd offset (BitVec.ofNat 32 (max size.toNat 1))
    | _ => false

/-- The code has not executed at the target. -/
def pending (target : Option U32) (code : UnwindCode) : Bool :=
  target.any fun target => target < code.codeOffset.setWidth 32

section Unwind
variable (reader : MemoryReader)

def replayCode (s : Replay) : UnwindCode → Replay
  | .pushNonVolatile _ register =>
    { s with
      context := s.context.restore register (readU64FromGuest reader (s.frameBase + s.stackAdjust))
      stackAdjust := s.stackAdjust + 8 }
  | .allocLarge _ size => { s with stackAdjust := s.stackAdjust + size.setWidth 64 }
  | .allocSmall _ size => { s with stackAdjust := s.stackAdjust + size.setWidth 64 }
  | .setFramePointer _ register offset =>
    { s with
      frameBase := ((getNonvolatileRegister register).map s.context.gpr).getD 0 - offset.setWidth 64
      stackAdjust := 0 }
  | .saveNonVolatile _ register offset =>
    { s with context := s.context.restore register (readU64FromGuest reader (s.frameBase + offset.setWidth 64)) }
  | .saveNonVolatileFar _ register offset =>
    { s with context := s.context.restore register (readU64FromGuest reader (s.frameBase + offset.setWidth 64)) }
  | .saveXmm128 _ register offset =>
    { s with context := s.context.restoreXmm register (readXmm128FromGuest reader (s.frameBase + offset.setWidth 64)) }
  | .saveXmm128Far _ register offset =>
    { s with context := s.context.restoreXmm register (readXmm128FromGuest reader (s.frameBase + offset.setWidth 64)) }
  | .pushMachineFrame _ code =>
    let errorCodeOffset : U64 := if code &&& 0x01 ≠ 0 then 8 else 0
    let top := s.frameBase + s.stackAdjust
    let rip := (readU64FromGuest reader (top + errorCodeOffset)).getD s.context.rip
    let rsp :=
      (readU64FromGuest reader (top + (errorCodeOffset + 24))).getD (top + errorCodeOffset + 40)
    { s with context := { s.context.set .rsp rsp with rip }, machineFrame := true }
  | .epilog _ _ _ _ => s
  | .spare _ _ => s

/-- The first code past the target ends the loop. -/
def replayCodes (target : Option U32) : List UnwindCode → Replay → Replay
  | [], s => s
  | code :: rest, s =>
    if pending target code then s else replayCodes target rest (replayCode reader s code)

def popReturn (s : Replay) : X64Context :=
  if s.machineFrame then s.context
  else
    let returnSlot := s.frameBase + s.stackAdjust
    { s.context.set .rsp (returnSlot + 8) with rip := (readU64FromGuest reader returnSlot).getD s.context.rip }

def virtualUnwindAt (info : UnwindInfo) (context : X64Context) (target : Option U32) :
    UnwindResult × X64Context :=
  if context.gpr .rsp = 0 ∨ context.gpr .rsp &&& 7 ≠ 0 then (.notFound, context)
  else
    let start : Replay := ⟨context, context.gpr .rsp, 0, false⟩
    let s :=
      if inEpilog info.codes target then start else replayCodes reader target info.codes start
    if info.flags &&& 0x04 ≠ 0 then (.collided, s.context)
    else
      let handler := info.handlerRva.filter fun _ => info.flags &&& 0x01 ≠ 0 || info.flags &&& 0x02 ≠ 0
      (match handler with
        | some rva => .handlerFound rva
        | none => .completed, popReturn reader s)

end Unwind

end Casa.Seh
