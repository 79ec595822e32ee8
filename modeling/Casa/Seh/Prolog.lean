import Casa.Seh
import Mathlib.Data.BitVec
import Mathlib.Data.List.TakeWhile
import Mathlib.Tactic.Ring

/-! Prologs and their unwind codes. A prolog runs on a machine and is recorded in descending
order of its offsets, a save by its distance from the frame that the prolog sets up; replaying
the whole record takes the machine back to its caller. The replay stops at the first code that
has not executed, which stands in front of all the others. -/
namespace Casa.Seh
open Casa.Cpu MachineInt X64Context List Prod Option
open BitVec (ofNat setWidth_eq)

/-! ## The machine -/

structure Machine where
  context : X64Context
  memory : U64 → U8

namespace Machine

def rsp (m : Machine) : U64 := m.context.gpr .rsp

def read (m : Machine) (address : U64) (n : Nat) : List U8 :=
  (List.range n).map fun i => m.memory (address + ofNat 64 i)

def write (m : Machine) (address : U64) (bytes : List U8) : Machine :=
  { m with memory := fun other => bytes.getD (other - address).toNat (m.memory other) }

/-- The whole stack is mapped. -/
def reader (m : Machine) : MemoryReader := fun address n => some (m.read address n)

end Machine

inductive PrologOp where
  | push (register : Register)
  | allocSmall (size : U8)
  | allocLarge (size : U32)
  | save (far : Bool) (register : Register) (place : U64)
  | saveXmm (far : Bool) (register : Fin 16) (place : U64)
  | setFramePointer (register : Register) (offset : U32)

def xmmBytes (value : Xmm128) : List U8 := toLeBytes 8 value.low ++ toLeBytes 8 value.high

namespace PrologOp

/-- A save goes to its place from the stack pointer of the moment. -/
def execute (m : Machine) : PrologOp → Machine
  | push register =>
    { m.write (m.rsp - 8) (toLeBytes 8 (m.context.gpr register)) with context := m.context.set .rsp (m.rsp - 8) }
  | allocSmall size => { m with context := m.context.set .rsp (m.rsp - size.setWidth 64) }
  | allocLarge size => { m with context := m.context.set .rsp (m.rsp - size.setWidth 64) }
  | save _ register place => m.write (m.rsp + place) (toLeBytes 8 (m.context.gpr register))
  | saveXmm _ register place => m.write (m.rsp + place) (xmmBytes (m.context.xmm register))
  | setFramePointer register offset =>
    { m with context := m.context.set register (m.rsp + offset.setWidth 64) }

def code (register : Register) : U8 := ofNat 8 register.index

/-- The code of an operation behind which the stack moves by `drift` until the frame is set up:
a save is recorded by its distance from the frame. -/
def record (codeOffset : U8) (drift : U64) : PrologOp → UnwindCode
  | push register => .pushNonVolatile codeOffset (code register)
  | allocSmall size => .allocSmall codeOffset size
  | allocLarge size => .allocLarge codeOffset size
  | save false register place =>
    .saveNonVolatile codeOffset (code register) ((place + drift).setWidth 32)
  | save true register place =>
    .saveNonVolatileFar codeOffset (code register) ((place + drift).setWidth 32)
  | saveXmm false register place =>
    .saveXmm128 codeOffset (ofNat 8 register) ((place + drift).setWidth 32)
  | saveXmm true register place =>
    .saveXmm128Far codeOffset (ofNat 8 register) ((place + drift).setWidth 32)
  | setFramePointer register offset => .setFramePointer codeOffset (code register) offset

def stackBytes : PrologOp → U64
  | push _ => 8
  | allocSmall size => size.setWidth 64
  | allocLarge size => size.setWidth 64
  | _ => 0

def saves : PrologOp → Option Register
  | push register => some register
  | save _ register _ => some register
  | _ => none

def savesXmm : PrologOp → Option (Fin 16)
  | saveXmm _ register _ => some register
  | _ => none

def savePlace : PrologOp → Option U64
  | save _ _ place => some place
  | saveXmm _ _ place => some place
  | _ => none

def sets : PrologOp → Option Register
  | setFramePointer register _ => some register
  | _ => none

end PrologOp

def run (m : Machine) (ops : List PrologOp) : Machine := ops.foldl PrologOp.execute m

def depth (ops : List PrologOp) : U64 := (ops.map PrologOp.stackBytes).sum

/-! ## Prologs -/

/-- A stretch of the stack, by its distance from the stack pointer at the function's entry. -/
structure Slot where
  start : U64
  length : Nat

def Slot.Apart (a b : Slot) : Prop :=
  ∀ i < a.length, ∀ j < b.length, a.start + ofNat 64 i ≠ b.start + ofNat 64 j

instance (a b : Slot) : Decidable (a.Apart b) :=
  inferInstanceAs (Decidable (∀ i < a.length, ∀ j < b.length,
    a.start + ofNat 64 i ≠ b.start + ofNat 64 j))

def returnSlot : Slot := ⟨0, 8⟩

/-- What an operation writes that starts `below` under the entry. -/
def PrologOp.slot (below : U64) : PrologOp → Option Slot
  | push _ => some ⟨-below - 8, 8⟩
  | save _ _ place => some ⟨-below + place, 8⟩
  | saveXmm _ _ place => some ⟨-below + place, 16⟩
  | _ => none

def slots (below : U64) : List PrologOp → List Slot
  | [] => []
  | op :: rest => (op.slot below).toList ++ slots (below + op.stackBytes) rest

/-- The movement of the stack up to the next frame pointer, or to the end. -/
def drift : List PrologOp → U64
  | [] => 0
  | op :: rest => if op.sets.isSome then 0 else op.stackBytes + drift rest

/-- The register becomes a frame pointer and was not saved before. -/
def lost (register : Register) : List PrologOp → Bool
  | [] => false
  | op :: rest =>
    if op.saves = some register then false else op.sets = some register || lost register rest

/-- What the recorded codes can express, operation by operation. -/
def Orderly : List PrologOp → Prop
  | [] => True
  | op :: rest =>
    -- the distance of a save from the frame fits its 32-bit field
    (∀ place, op.savePlace = some place →
      ((place + drift rest).setWidth 32).setWidth 64 = place + drift rest) ∧
    -- the frame pointer still has its value when the unwinder asks for it
    (∀ register, op.sets = some register → register ≠ .rsp ∧ lost register rest = false) ∧
    Orderly rest

/-- Operations with the offsets at which they are done, as many as an unwind information can
record. Nothing is written twice, nor over the return address. -/
structure Prolog where
  ops : List (U8 × PrologOp)
  few : ops.length ≤ 255
  ordered : ops.Pairwise fun first second => first.1 ≤ second.1
  apart : (returnSlot :: slots 0 (ops.map Prod.snd)).Pairwise Slot.Apart
  orderly : Orderly (ops.map Prod.snd)
  saved : ∀ op ∈ ops, ∀ register, op.2.saves = some register → register ≠ .rsp →
    lost register (ops.map Prod.snd) = false

/-- The codes in the order of the operations, with the operations behind them. -/
def recordAll (behind : List PrologOp) : List (U8 × PrologOp) → List UnwindCode
  | [] => []
  | op :: rest => op.2.record op.1 (drift (rest.map Prod.snd ++ behind)) :: recordAll behind rest

namespace Prolog

def codes (p : Prolog) : List UnwindCode := (recordAll [] p.ops).reverse

/-- The operations done when the given offset is reached. -/
def executed (p : Prolog) (point : U32) : List PrologOp :=
  (p.ops.takeWhile fun op => op.1.setWidth 32 ≤ point).map Prod.snd

/-- The whole prolog is done. -/
def Past (p : Prolog) (point : U32) : Prop := ∀ op ∈ p.ops, op.1.setWidth 32 ≤ point

instance (p : Prolog) (point : U32) : Decidable (p.Past point) :=
  inferInstanceAs (Decidable (∀ op ∈ p.ops, op.1.setWidth 32 ≤ point))

end Prolog

/-- The caller has its stack pointer, its next instruction and the registers that were saved. -/
structure Restored (entry : Machine) (ops : List PrologOp) (context : X64Context) : Prop where
  stackPointer : context.gpr .rsp = entry.rsp + 8
  returnAddress : context.rip = fromLeBytes 64 (entry.read entry.rsp 8)
  registers : ∀ op ∈ ops, ∀ register, op.saves = some register → register ≠ .rsp →
    context.gpr register = entry.context.gpr register
  xmm : ∀ op ∈ ops, ∀ register, op.savesXmm = some register →
    context.xmm register = entry.context.xmm register

/-! ## Memory -/

theorem write_inside (m : Machine) (inside : i < bytes.length) (small : bytes.length ≤ 2 ^ 64) :
    (m.write address bytes).memory (address + ofNat 64 i) = bytes[i] := by
  have index : (address + ofNat 64 i - address).toNat = i := by
    rw [add_sub_cancel_left, BitVec.toNat_ofNat, Nat.mod_eq_of_lt (by omega)]
  simp only [Machine.write, index, getD_eq_getElem _ _ inside]

theorem write_outside (m : Machine) (outside : ∀ i < bytes.length, other ≠ address + ofNat 64 i) :
    (m.write address bytes).memory other = m.memory other := by
  have past : bytes.length ≤ (other - address).toNat := by
    refine Nat.le_of_not_lt fun inside => outside _ inside ?_
    rw [BitVec.ofNat_toNat, setWidth_eq, BitVec.add_comm, BitVec.sub_add_cancel]
  simp only [Machine.write, getD_eq_default _ _ past]

/-! ## Runs -/

theorem run_append : run m (ops ++ rest) = run (run m ops) rest :=
  foldl_append

theorem depth_append : depth (ops ++ rest) = depth ops + depth rest := by
  rw [depth, depth, depth, map_append, sum_append]

theorem depth_cons : depth (op :: rest) = op.stackBytes + depth rest := by
  rw [depth, depth, map_cons, sum_cons]

theorem depth_concat : depth (ops ++ [op]) = depth ops + op.stackBytes := by
  have single : depth [op] = op.stackBytes := sum_singleton
  rw [depth_append, single]

theorem drift_of_none (sets : op.sets = none) :
    drift (op :: rest) = op.stackBytes + drift rest := by
  rw [drift, sets, if_neg (by decide)]

theorem drift_of_some (sets : op.sets = some register) : drift (op :: rest) = 0 := by
  rw [drift, sets, isSome_some, if_pos rfl]

theorem slots_append :
    slots below (ops ++ rest) = slots below ops ++ slots (below + depth ops) rest := by
  induction ops generalizing below with
  | nil => rw [nil_append, slots, nil_append, depth, map_nil, sum_nil, add_zero]
  | cons op ops ih => rw [cons_append, slots, slots, ih, append_assoc, depth_cons, add_assoc]

theorem Orderly.suffix (orderly : Orderly (ops ++ rest)) : Orderly rest := by
  induction ops with
  | nil => exact orderly
  | cons op ops ih => exact ih orderly.2.2

section Step
variable {op : PrologOp}

theorem execute_rsp (other : op.sets ≠ some .rsp) : (op.execute m).rsp = m.rsp - op.stackBytes := by
  cases op with
  | push | allocSmall | allocLarge => rfl
  | save | saveXmm => exact (sub_zero _).symm
  | setFramePointer register =>
    have differ : Register.rsp ≠ register := fun same => other (congrArg some same.symm)
    simp only [PrologOp.execute, Machine.rsp, X64Context.set, if_neg differ, PrologOp.stackBytes,
      sub_zero]

theorem execute_gpr (notStack : register ≠ .rsp) (other : op.sets ≠ some register) :
    (op.execute m).context.gpr register = m.context.gpr register := by
  cases op with
  | save | saveXmm => rfl
  | setFramePointer frame =>
    have differ : register ≠ frame := fun same => other (congrArg some same.symm)
    simp [PrologOp.execute, if_neg differ]
  | _ => simp only [PrologOp.execute, X64Context.set, if_neg notStack]

theorem execute_xmm : (op.execute m).context.xmm = m.context.xmm := by
  cases op <;> rfl

def PrologOp.contents (m : Machine) : PrologOp → List U8
  | push register => toLeBytes 8 (m.context.gpr register)
  | save _ register _ => toLeBytes 8 (m.context.gpr register)
  | saveXmm _ register _ => xmmBytes (m.context.xmm register)
  | _ => []

theorem contents_length (written : op.slot below = some slot) :
    (op.contents m).length = slot.length := by
  cases op with
  | push | save =>
    cases written
    exact toLeBytes_length 8 _
  | saveXmm =>
    cases written
    simp [PrologOp.contents, xmmBytes, toLeBytes_length]
  | _ => cases written

theorem execute_memory (position : m.rsp = entry - below) (written : op.slot below = some slot) :
    (op.execute m).memory = (m.write (entry + slot.start) (op.contents m)).memory := by
  cases op with
  | push =>
    cases written
    have address : m.rsp - 8 = entry + (-below - 8) := by
      rw [position]
      ring
    simp only [PrologOp.execute, PrologOp.contents, address]
  | save far register place | saveXmm far register place =>
    cases written
    have address : m.rsp + place = entry + (-below + place) := by
      rw [position]
      ring
    simp [PrologOp.execute, PrologOp.contents, address]
  | _ => cases written

theorem execute_memory_of_none (none : op.slot below = none) :
    (op.execute m).memory = m.memory := by
  cases op with
  | allocSmall | allocLarge | setFramePointer => rfl
  | _ => cases none

end Step

theorem Orderly.frame_ne_rsp (orderly : Orderly ops) (op : PrologOp) (member : op ∈ ops) :
    op.sets ≠ some .rsp := by
  induction ops with
  | nil => cases member
  | cons first rest ih =>
    obtain ⟨-, frames, orderly⟩ := orderly
    rcases mem_cons.mp member with rfl | later
    · exact fun same => (frames _ same).1 rfl
    · exact ih orderly later

theorem run_rsp (frames : ∀ op ∈ ops, op.sets ≠ some .rsp) :
    (run m ops).rsp = m.rsp - depth ops := by
  induction ops generalizing m with
  | nil => exact (sub_zero _).symm
  | cons op rest ih =>
    have step : (op.execute m).rsp = m.rsp - op.stackBytes := execute_rsp (frames op mem_cons_self)
    have later : (run m (op :: rest)).rsp = (op.execute m).rsp - depth rest :=
      ih fun other member => frames other (mem_cons_of_mem op member)
    rw [later, step, depth_cons, sub_sub]

theorem run_xmm : (run m ops).context.xmm = m.context.xmm := by
  induction ops generalizing m with
  | nil => rfl
  | cons op rest ih =>
    have later : (run m (op :: rest)).context.xmm = (op.execute m).context.xmm := ih
    rw [later, execute_xmm]

/-- Bytes outside the slots of a run stay as they are. -/
theorem run_memory (frames : ∀ op ∈ ops, op.sets ≠ some .rsp) (position : m.rsp = entry - below)
    (outside : ∀ slot ∈ slots below ops, ∀ i < slot.length, address ≠ entry + slot.start + ofNat 64 i) :
    (run m ops).memory address = m.memory address := by
  induction ops generalizing m below with
  | nil => rfl
  | cons op rest ih =>
    have step : (op.execute m).rsp = entry - (below + op.stackBytes) := by
      rw [execute_rsp (frames op mem_cons_self), position, sub_sub]
    have later : (run m (op :: rest)).memory address = (op.execute m).memory address :=
      ih (fun other member => frames other (mem_cons_of_mem op member)) step
        fun slot member => outside slot (mem_append_right _ member)
    rw [later]
    cases written : op.slot below with
    | none => rw [execute_memory_of_none written]
    | some slot =>
      rw [execute_memory position written]
      refine write_outside m fun i inside => outside slot ?_ i ?_
      · rw [slots, written]
        exact mem_append_left _ mem_cons_self
      · rwa [← contents_length written]

/-! ## Undoing -/

/-- The replay after the operations `rest` are undone and `done` are still to be. -/
structure Undone (entry : Machine) (done rest : List PrologOp) (s : Replay) : Prop where
  frameBase : s.frameBase = entry.rsp - (depth done + drift rest)
  stackAdjust : s.stackAdjust = drift rest
  registers : ∀ register ≠ .rsp, lost register rest = false →
    s.context.gpr register = (run entry done).context.gpr register
  xmm : s.context.xmm = entry.context.xmm
  machineFrame : s.machineFrame = false

theorem getNonvolatileRegister_code :
    getNonvolatileRegister (PrologOp.code register) = some register := by
  cases register <;> rfl

theorem Slot.Apart.address_ne {a : Slot} (apart : a.Apart b) (base : U64) (left : i < a.length)
    (right : j < b.length) : base + a.start + ofNat 64 i ≠ base + b.start + ofNat 64 j := by
  rw [add_assoc, add_assoc]
  exact fun same => apart i left j right (add_left_cancel same)

/-- At the end of the prolog a slot still has what its operation wrote. -/
theorem read_slot (frames : ∀ other ∈ done ++ op :: rest, other.sets ≠ some .rsp)
    (apart : (slots 0 (done ++ op :: rest)).Pairwise Slot.Apart)
    (written : op.slot (depth done) = some slot) :
    (run entry (done ++ op :: rest)).read (entry.rsp + slot.start) slot.length =
      op.contents (run entry done) := by
  have before : (run entry done).rsp = entry.rsp - depth done :=
    run_rsp fun other member => frames other (mem_append_left _ member)
  have after : (op.execute (run entry done)).rsp = entry.rsp - (depth done + op.stackBytes) := by
    rw [execute_rsp (frames op (mem_append_right _ mem_cons_self)), before, sub_sub]
  have apartRest (other : Slot) (member : other ∈ slots (depth done + op.stackBytes) rest) :
      slot.Apart other := by
    rw [slots_append, zero_add, slots, written] at apart
    have later := (pairwise_append.mp apart).2.1
    exact (pairwise_cons.mp later).1 other member
  have length : (op.contents (run entry done)).length = slot.length := contents_length written
  have split : run entry (done ++ op :: rest) = run (op.execute (run entry done)) rest := run_append
  rw [split]
  refine ext_getElem ?_ fun i left right => ?_
  · rw [Machine.read, length_map, length_range, length]
  · have kept : (run (op.execute (run entry done)) rest).memory (entry.rsp + slot.start + ofNat 64 i) =
        (op.execute (run entry done)).memory (entry.rsp + slot.start + ofNat 64 i) :=
      run_memory (fun other member => frames other (mem_append_right _ (mem_cons_of_mem op member))) after
        fun other member j within => (apartRest other member).address_ne entry.rsp (length ▸ right) within
    simp only [Machine.read, getElem_map, getElem_range]
    rw [kept, execute_memory before written]
    refine write_inside _ right ?_
    cases op <;> simp only [PrologOp.contents, xmmBytes, length_append, toLeBytes_length] <;> decide

theorem readU64_slot {m : Machine} (contents : m.read address 8 = toLeBytes 8 value) :
    readU64FromGuest m.reader address = some value := by
  rw [readU64FromGuest, Machine.reader, map_some, contents, fromLeBytes_toLeBytes, setWidth_eq,
    setWidth_eq]

theorem readXmm_slot {m : Machine} (contents : m.read address 16 = xmmBytes value) :
    readXmm128FromGuest m.reader address = some value := by
  have low : (xmmBytes value).take 8 = toLeBytes 8 value.low := take_left' (toLeBytes_length 8 _)
  have high : (xmmBytes value).drop 8 = toLeBytes 8 value.high := drop_left' (toLeBytes_length 8 _)
  rw [readXmm128FromGuest, Machine.reader, map_some, contents, low, high, fromLeBytes_toLeBytes,
    fromLeBytes_toLeBytes, setWidth_eq, setWidth_eq, setWidth_eq, setWidth_eq]

theorem restore_code (context : X64Context) :
    context.restore (PrologOp.code register) (some value) = context.set register value := by
  simp [restore, getNonvolatileRegister_code]

theorem restoreXmm_code (context : X64Context) (register : Fin 16) :
    context.restoreXmm (ofNat 8 register) (some value) = context.setXmm register value := by
  have index : (⟨(ofNat 8 register).toNat % 16, Nat.mod_lt _ (by decide)⟩ : Fin 16) = register := by
    apply Fin.ext
    dsimp only
    rw [BitVec.toNat_ofNat]
    omega
  rw [restoreXmm, index]

section
variable (undone : Undone entry (done ++ [op]) rest s)
include undone

/-- An operation that does not save the register, and does not set it either. -/
theorem Undone.register_kept (notStack : register ≠ .rsp)
    (kept : lost register (op :: rest) = false) (other : op.saves ≠ some register) :
    s.context.gpr register = (run entry done).context.gpr register := by
  rw [lost, if_neg other, Bool.or_eq_false_iff, decide_eq_false_iff_not] at kept
  rw [undone.registers register notStack kept.2, run_append]
  exact execute_gpr notStack kept.1

/-- A saved register goes back to what it was before the save. -/
theorem Undone.register_restored (saves : op.saves = some saved) (register : Register)
    (notStack : register ≠ .rsp) (kept : lost register (op :: rest) = false) :
    (s.context.set saved ((run entry done).context.gpr saved)).gpr register =
      (run entry done).context.gpr register := by
  by_cases same : register = saved
  · rw [set_gpr, if_pos same, same]
  · rw [set_gpr, if_neg same]
    exact undone.register_kept notStack kept fun eq => same (some.inj (eq.symm.trans saves))

theorem Undone.top : s.frameBase + s.stackAdjust = entry.rsp - (depth done + op.stackBytes) := by
  rw [undone.frameBase, undone.stackAdjust, depth_concat]
  ring

/-- The distance of a save from the frame leads to the place of the save. -/
theorem Undone.addressed
    (fits : ((place + drift rest).setWidth 32).setWidth 64 = place + drift rest)
    (unmoved : op.stackBytes = 0) :
    s.frameBase + ((place + drift rest).setWidth 32).setWidth 64 =
      entry.rsp + (-depth done + place) := by
  rw [fits, undone.frameBase, depth_concat, unmoved]
  ring

variable {context : X64Context} (sets : op.sets = none)
  (registers : ∀ register ≠ .rsp, lost register (op :: rest) = false →
    context.gpr register = (run entry done).context.gpr register)
  (xmm : context.xmm = entry.context.xmm)
include sets registers xmm

/-- An operation that may move the stack, with the registers as they turn out. -/
theorem Undone.moved :
    Undone entry done (op :: rest) { s with context, stackAdjust := s.stackAdjust + op.stackBytes } where
  frameBase := by
    rw [undone.frameBase, depth_concat, drift_of_none sets, add_assoc]
  stackAdjust := by
    rw [undone.stackAdjust, drift_of_none sets, add_comm]
  registers := registers
  xmm := xmm
  machineFrame := undone.machineFrame

theorem Undone.unmoved (unmoved : op.stackBytes = 0) :
    Undone entry done (op :: rest) { s with context } := by
  have moved := undone.moved sets registers xmm
  rwa [unmoved, add_zero] at moved

end

/-- The code of an operation undoes it. -/
theorem Undone.step (orderly : Orderly (done ++ op :: rest))
    (apart : (slots 0 (done ++ op :: rest)).Pairwise Slot.Apart)
    (undone : Undone entry (done ++ [op]) rest s) (codeOffset : U8) :
    Undone entry done (op :: rest)
      (replayCode (run entry (done ++ op :: rest)).reader s (op.record codeOffset (drift rest))) := by
  obtain ⟨fits, frames, -⟩ := orderly.suffix
  have slot {slot : Slot} (written : op.slot (depth done) = some slot) :
      (run entry (done ++ op :: rest)).read (entry.rsp + slot.start) slot.length = op.contents (run entry done) :=
    read_slot orderly.frame_ne_rsp apart written
  have top := undone.top
  cases op with
  | push =>
    have address : s.frameBase + s.stackAdjust = entry.rsp + (-depth done - 8) := by
      rw [top, PrologOp.stackBytes]
      ring
    rw [PrologOp.record, replayCode, address, readU64_slot (slot rfl), restore_code]
    exact undone.moved rfl (undone.register_restored rfl) undone.xmm
  | allocSmall | allocLarge =>
    exact undone.moved rfl (fun register notStack kept => undone.register_kept notStack kept (some_ne_none register).symm)
      undone.xmm
  | save far =>
    have contents := readU64_slot (slot rfl)
    rw [← undone.addressed (fits _ rfl) rfl] at contents
    cases far
    all_goals
      rw [PrologOp.record, replayCode, contents, restore_code]
      exact undone.unmoved rfl (undone.register_restored rfl) undone.xmm rfl
  | saveXmm far register place =>
    have contents := readXmm_slot (slot rfl)
    rw [← undone.addressed (fits _ rfl) rfl] at contents
    have others (other : Register) (notStack : other ≠ .rsp) (kept : lost other (.saveXmm far register place :: rest) = false) :=
      undone.register_kept notStack kept (some_ne_none other).symm
    have same : (s.context.setXmm register ((run entry done).context.xmm register)).xmm = entry.context.xmm := by
      funext other
      rw [run_xmm, setXmm]
      dsimp only
      split
      case isTrue same => rw [same]
      case isFalse => rw [undone.xmm]
    cases far
    all_goals
      rw [PrologOp.record, replayCode, contents, restoreXmm_code]
      exact undone.unmoved rfl others same rfl
  | setFramePointer register offset =>
    obtain ⟨notStack, kept⟩ := frames register rfl
    have before : (run entry done).rsp = entry.rsp - depth done :=
      run_rsp fun other member => orderly.frame_ne_rsp other (mem_append_left _ member)
    have value : s.context.gpr register = entry.rsp - depth done + offset.setWidth 64 := by
      rw [undone.registers register notStack kept, run_append, ← before]
      exact if_pos rfl
    rw [PrologOp.record, replayCode, getNonvolatileRegister_code, map_some, getD_some, value,
      add_sub_cancel_right]
    exact
      { frameBase := by rw [drift_of_some rfl, add_zero]
        stackAdjust := (drift_of_some rfl).symm
        registers := fun other notStack kept => undone.register_kept notStack kept (some_ne_none other).symm
        xmm := undone.xmm
        machineFrame := undone.machineFrame }

/-! ## Whole prologs -/

theorem record_codeOffset (op : PrologOp) :
    (op.record codeOffset moved).codeOffset = codeOffset := by
  cases op with
  | save far | saveXmm far => cases far <;> rfl
  | _ => rfl

theorem recordAll_concat : recordAll behind (done ++ [op]) =
    recordAll (op.2 :: behind) done ++ [op.2.record op.1 (drift behind)] := by
  induction done with
  | nil => rfl
  | cons first rest ih =>
    rw [cons_append, recordAll, recordAll, ih, map_append, map_singleton, append_assoc,
      singleton_append, cons_append]

theorem mem_recordAll (member : code ∈ recordAll behind ops) :
    ∃ op : U8 × PrologOp, ∃ drift, code = op.2.record op.1 drift := by
  induction ops with
  | nil => cases member
  | cons op rest ih =>
    rcases mem_cons.mp member with rfl | later
    · exact ⟨op, _, rfl⟩
    · exact ih later

namespace Prolog
variable {p : Prolog}

theorem not_inEpilog (p : Prolog) : inEpilog p.codes target = false := by
  cases target with
  | none => rfl
  | some =>
    refine any_eq_false.mpr fun code member => ?_
    obtain ⟨⟨codeOffset, op⟩, drift, rfl⟩ := mem_recordAll (mem_reverse.mp member)
    cases op with
    | save far | saveXmm far => cases far <;> exact Bool.false_ne_true
    | _ => exact Bool.false_ne_true

/-- Codes that have all executed undo the operations from the last to the first. -/
theorem replay_undone (done rest : List (U8 × PrologOp)) (whole : p.ops = done ++ rest)
    (past : p.Past point) (undone : Undone entry (done.map snd) (rest.map snd) s) :
    Undone entry [] (p.ops.map snd)
      (replayCodes (run entry (p.ops.map snd)).reader (some point)
        (recordAll (rest.map snd) done).reverse s) := by
  induction done using reverseRecOn generalizing rest s with
  | nil =>
    rw [whole]
    exact undone
  | append_singleton done op ih =>
    have member : op ∈ p.ops := by
      rw [whole]
      exact mem_append_left _ (mem_append_right _ mem_cons_self)
    have executed : pending (some point) (op.2.record op.1 (drift (rest.map snd))) = false := by
      rw [pending, any_some, record_codeOffset, decide_eq_false_iff_not, BitVec.not_lt]
      exact past op member
    have split : p.ops = done ++ op :: rest := by rw [whole, append_assoc, singleton_append]
    have ops : p.ops.map snd = done.map snd ++ op.2 :: rest.map snd := by
      rw [split, map_append, map_cons]
    have orderly := p.orderly
    have apart := (pairwise_cons.mp p.apart).2
    rw [ops] at orderly apart
    rw [map_append] at undone
    have step := undone.step orderly apart op.1
    rw [← ops] at step
    rw [recordAll_concat, reverse_append, reverse_singleton, singleton_append, replayCodes,
      if_neg (by rw [executed]; decide)]
    exact ih (op :: rest) split step

/-- In front of the end of the prolog the first code is pending. -/
theorem replay_stops (notPast : ¬ p.Past point) :
    replayCodes reader (some point) p.codes s = s := by
  obtain ⟨late, member, after⟩ : ∃ op ∈ p.ops, ¬ op.1.setWidth 32 ≤ point := by
    simpa only [Past, not_forall, exists_prop] using notPast
  obtain none | ⟨init, last, ops⟩ := eq_nil_or_concat p.ops
  · rw [none] at member
    cases member
  rw [concat_eq_append] at ops
  have beforeLast : late.1 ≤ last.1 := by
    have ordered := p.ordered
    rw [ops] at ordered member
    rcases mem_append.mp member with earlier | final
    · exact (pairwise_append.mp ordered).2.2 late earlier last mem_cons_self
    · rw [mem_singleton.mp final]
      exact BitVec.le_refl _
  have isPending : pending (some point) (last.2.record last.1 (drift [])) := by
    rw [pending, any_some, record_codeOffset, decide_eq_true_iff]
    simp only [BitVec.le_def, BitVec.lt_def, BitVec.toNat_setWidth] at *
    omega
  rw [codes, ops, recordAll_concat, reverse_append, reverse_singleton, singleton_append,
    replayCodes, if_pos isPending]

theorem executed_of_past (past : p.Past point) : p.executed point = p.ops.map snd := by
  rw [executed, takeWhile_eq_self_iff.mpr fun op member => decide_eq_true (past op member)]

theorem executed_prefix (p : Prolog) : ∃ rest, p.ops.map snd = p.executed point ++ rest := by
  refine ⟨(p.ops.dropWhile fun op => op.1.setWidth 32 ≤ point).map snd, ?_⟩
  rw [executed, ← map_append, takeWhile_append_dropWhile]

theorem executed_rsp (p : Prolog) (point : U32) (entry : Machine) :
    (run entry (p.executed point)).rsp = entry.rsp - depth (p.executed point) := by
  obtain ⟨rest, split⟩ := p.executed_prefix
  refine run_rsp fun op member => p.orderly.frame_ne_rsp op ?_
  rw [split]
  exact mem_append_left _ member

/-- The prolog leaves the return address alone. -/
theorem return_kept (p : Prolog) (point : U32) (entry : Machine) :
    (run entry (p.executed point)).read entry.rsp 8 = entry.read entry.rsp 8 := by
  obtain ⟨rest, split⟩ := p.executed_prefix
  have apart (slot : Slot) (member : slot ∈ slots 0 (p.executed point)) :
      returnSlot.Apart slot := by
    refine (pairwise_cons.mp p.apart).1 slot ?_
    rw [split, slots_append]
    exact mem_append_left _ member
  have frames (op : PrologOp) (member : op ∈ p.executed point) : op.sets ≠ some .rsp := by
    refine p.orderly.frame_ne_rsp op ?_
    rw [split]
    exact mem_append_left _ member
  refine map_congr_left fun i member =>
    run_memory frames (sub_zero _).symm fun slot inside j within => ?_
  have differ := (apart slot inside).address_ne entry.rsp (mem_range.mp member) within
  rwa [returnSlot, add_zero] at differ

theorem depth_small (ops : List PrologOp) : (depth ops).toNat ≤ ops.length * 2 ^ 32 := by
  induction ops with
  | nil => exact Nat.le_refl 0
  | cons op rest ih =>
    have single : op.stackBytes.toNat ≤ 2 ^ 32 := by
      cases op with
      | allocSmall size | allocLarge size =>
        rw [PrologOp.stackBytes, BitVec.toNat_setWidth]
        omega
      | push => exact (by decide : (8 : U64).toNat ≤ 2 ^ 32)
      | _ => exact Nat.zero_le _
    rw [depth_cons, BitVec.toNat_add, length_cons]
    omega

/-- No prolog takes the stack pointer up to where the caller had it. -/
theorem executed_rsp_ne (p : Prolog) : (run entry (p.executed point)).rsp ≠ entry.rsp + 8 := by
  intro same
  rw [executed_rsp, sub_eq_add_neg] at same
  have negative : depth (p.executed point) = -8 := by
    rw [← neg_neg (depth _), add_left_cancel same]
  have small := depth_small (p.executed point)
  have few : (p.executed point).length ≤ 255 := by
    rw [executed, length_map]
    exact (List.takeWhile_prefix _).length_le.trans p.few
  rw [negative] at small
  have large : (-8 : U64).toNat = 2 ^ 64 - 8 := by decide
  omega

/-- The replay that the unwinder pops the return address from. -/
def replayed (p : Prolog) (point : U32) (m : Machine) (pc : U64) : Replay :=
  replayCodes m.reader (some point) p.codes ⟨{ m.context with rip := pc }, m.rsp, 0, false⟩

theorem unwind_accepted (recorded : info.codes = p.codes) (primary : info.flags &&& 0x04 = 0)
    (accepted : m.rsp ≠ 0 ∧ m.rsp &&& 7 = 0) :
    (virtualUnwindAt m.reader info { m.context with rip := pc } (some point)).2 =
      popReturn m.reader (p.replayed point m pc) := by
  have passes : ¬ (m.rsp = 0 ∨ m.rsp &&& 7 ≠ 0) := by
    rw [not_or, not_not]
    exact accepted
  have notChained : ¬ info.flags &&& 0x04 ≠ 0 := not_not_intro primary
  have start : (m.context.gpr .rsp) = m.rsp := rfl
  simp only [virtualUnwindAt, start, if_neg passes, if_neg notChained, recorded, p.not_inEpilog,
    Bool.false_eq_true, if_false, replayed]

theorem unwind_refused {m : Machine} (refused : ¬ (m.rsp ≠ 0 ∧ m.rsp &&& 7 = 0)) :
    (virtualUnwindAt m.reader info { m.context with rip := pc } (some point)).2 =
      { m.context with rip := pc } := by
  have fails : m.rsp = 0 ∨ m.rsp &&& 7 ≠ 0 := by
    rwa [not_and_or, not_not] at refused
  exact congrArg snd (if_pos fails)

/-- Behind the prolog every operation is undone. -/
theorem restored_of_past (past : p.Past point) (pc : U64) :
    Restored entry (p.executed point)
      (popReturn (run entry (p.executed point)).reader (p.replayed point (run entry (p.executed point)) pc)) := by
  have position := p.executed_rsp point entry
  have returned := p.return_kept point entry
  rw [executed_of_past past] at position returned ⊢
  have start : Undone entry (p.ops.map snd) []
      ⟨{ (run entry (p.ops.map snd)).context with rip := pc }, (run entry (p.ops.map snd)).rsp, 0, false⟩ :=
    { frameBase := by rw [drift, add_zero, position]
      stackAdjust := rfl
      registers := fun _ _ _ => rfl
      xmm := run_xmm
      machineFrame := rfl }
  have undone : Undone entry [] (p.ops.map snd) (p.replayed point (run entry (p.ops.map snd)) pc) :=
    replay_undone p.ops [] (append_nil _).symm past start
  have top : (p.replayed point (run entry (p.ops.map snd)) pc).frameBase +
      (p.replayed point (run entry (p.ops.map snd)) pc).stackAdjust = entry.rsp := by
    rw [undone.frameBase, undone.stackAdjust]
    exact (by ring : entry.rsp - (0 + drift (p.ops.map snd)) + drift (p.ops.map snd) = entry.rsp)
  rw [popReturn, undone.machineFrame, if_neg Bool.false_ne_true, top]
  dsimp only
  refine ⟨?_, ?_, ?_, ?_⟩
  · rw [set_gpr, if_pos rfl]
  · rw [readU64FromGuest, Machine.reader, map_some, getD_some, returned]
  · intro op member register saves notStack
    obtain ⟨recorded, inside, rfl⟩ := mem_map.mp member
    have restored :=
      undone.registers register notStack (p.saved recorded inside register saves notStack)
    rwa [set_gpr, if_neg notStack]
  · intro op member register saves
    exact congrFun undone.xmm register

/-- Inside the prolog nothing is undone but the call. -/
theorem restored_inside_iff (notPast : ¬ p.Past point) : Restored entry (p.executed point)
      (popReturn (run entry (p.executed point)).reader (p.replayed point (run entry (p.executed point)) pc)) ↔
    depth (p.executed point) = 0 ∧ ∀ op ∈ p.executed point, ∀ register, op.saves = some register →
      register ≠ .rsp →
      (run entry (p.executed point)).context.gpr register = entry.context.gpr register := by
  have position := p.executed_rsp point entry
  rw [replayed, replay_stops notPast, popReturn, if_neg Bool.false_ne_true]
  dsimp only
  constructor
  · intro restored
    refine ⟨?_, fun op member register saves notStack => ?_⟩
    · have moved := restored.stackPointer
      simp only [add_zero, position] at moved
      exact sub_eq_self.mp (add_right_cancel moved)
    · have kept := restored.registers op member register saves notStack
      rwa [set_gpr, if_neg notStack] at kept
  · rintro ⟨unmoved, registers⟩
    rw [unmoved, sub_zero] at position
    refine ⟨?_, ?_, fun op member register saves notStack => ?_, fun op member register saves => ?_⟩
    · simp only [set_gpr, if_true, add_zero, position]
    · rw [add_zero, position, readU64FromGuest, Machine.reader, map_some, getD_some, p.return_kept]
    · rw [set_gpr, if_neg notStack]
      exact registers op member register saves notStack
    · exact congrFun run_xmm register

end Prolog

/-- `mov [rsp+8], rbx`, `push rdi` and `sub rsp, 0x20`. -/
def homedSave : Prolog where
  ops := [(5, .save false .rbx 8), (6, .push .rdi), (10, .allocSmall 0x20)]
  few := by decide
  ordered := by decide
  apart := by decide
  orderly := by simp [Orderly, PrologOp.savePlace, PrologOp.sets, drift, PrologOp.stackBytes]
  saved := by simp [PrologOp.saves, PrologOp.sets, lost]

def homedSaveInfo : UnwindInfo := ⟨0, homedSave.codes, none, none⟩

/-- A stack that ends at 0x1000, with a caller whose registers hold their numbers. -/
def shallow : Machine where
  context := ⟨fun register => if register = .rsp then 0x1000 else ofNat 64 register.index, 0,
    fun _ => ⟨0, 0⟩⟩
  memory := fun _ => 0

/-- Before the allocation the push is not undone. -/
theorem virtual_unwind_skips_push :
    ¬ Restored shallow (homedSave.executed 6)
      (virtualUnwindAt (run shallow (homedSave.executed 6)).reader homedSaveInfo
        (run shallow (homedSave.executed 6)).context (some 6)).2 := by
  intro restored
  exact absurd restored.stackPointer (by decide)

/-- Unwinding at a point restores the caller if and only if the stack pointer passes the check
and the prolog is over, or has not moved the stack nor replaced a register it saved. -/
theorem virtual_unwind_restores_iff (p : Prolog) (info : UnwindInfo)
    (recorded : info.codes = p.codes) (primary : info.flags &&& 0x04 = 0) (point : U32) (pc : U64)
    (entry : Machine) :
    Restored entry (p.executed point)
      (virtualUnwindAt (run entry (p.executed point)).reader info
        { (run entry (p.executed point)).context with rip := pc } (some point)).2 ↔
    ((run entry (p.executed point)).rsp ≠ 0 ∧ (run entry (p.executed point)).rsp &&& 7 = 0) ∧
      (p.Past point ∨ depth (p.executed point) = 0 ∧
        ∀ op ∈ p.executed point, ∀ register, op.saves = some register → register ≠ .rsp →
          (run entry (p.executed point)).context.gpr register = entry.context.gpr register) := by
  by_cases accepted : (run entry (p.executed point)).rsp ≠ 0 ∧
    (run entry (p.executed point)).rsp &&& 7 = 0
  · rw [Prolog.unwind_accepted recorded primary accepted]
    refine Iff.trans ?_ (and_iff_right accepted).symm
    by_cases past : p.Past point
    · exact iff_of_true (Prolog.restored_of_past past pc) (.inl past)
    · rw [Prolog.restored_inside_iff past, or_iff_right past]
  · rw [Prolog.unwind_refused accepted]
    refine iff_of_false (fun restored => ?_) fun holds => accepted holds.1
    exact p.executed_rsp_ne restored.stackPointer

theorem virtual_unwind_restores_iff_homed :
    homedSave.codes = [.allocSmall 10 0x20, .pushNonVolatile 6 7, .saveNonVolatile 5 3 0x30] ∧
    Restored shallow (homedSave.executed 12)
      (virtualUnwindAt (run shallow (homedSave.executed 12)).reader homedSaveInfo
        { (run shallow (homedSave.executed 12)).context with rip := 0x400 } (some 12)).2 :=
  ⟨by decide,
    (virtual_unwind_restores_iff homedSave homedSaveInfo rfl (by decide) 12 0x400 shallow).mpr
    ⟨by decide, .inl (by decide)⟩⟩

end Casa.Seh
