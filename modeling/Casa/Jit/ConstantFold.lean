import Mathlib.Data.List.Induction
import Casa.Cpu.Bare
import Casa.Cpu.FlagUse

/-! Constant folding of a straight-line block before it is emitted (constant_fold in
jit/arm64_emitter.rs), and when the interpreter cannot tell the folded block from the
original: no instruction writes behind the back of the pass to a register that holds a
constant, what is folded is exact at its width, and the flags of what is dropped are dead. -/
namespace Casa.Jit
open Effect MachineInt Casa.Cpu Machine List Function Exec

/-! ## The pass -/

inductive KnownValue where
  | immediate (value : U64)
  | registerCopy (reg : Register)
  | knownHighLow (high low : U64)

abbrev KnownValues : Type := Register → Option KnownValue

/-- A constant write replaces a write to the same register that stands directly before it. -/
def pushFoldedImmediate (result : List (IrInstruction P)) (dst : Register) (value : U64) :
    List (IrInstruction P) :=
  match result.getLast? with
  | some (.movImm lastDst _) =>
    if lastDst = dst then result.dropLast ++ [.movImm dst value] else result ++ [.movImm dst value]
  | _ => result ++ [.movImm dst value]

/-- The mask that makes AND keep every bit of the operand. -/
def fullMask : Nat → U64
  | 1 => 0xff
  | 2 => 0xffff
  | 4 => 0xffffffff
  | 8 => 0xffffffffffffffff
  | _ => 0

/-- The registers whose values are forgotten after an instruction that is passed through. -/
def invalidateKnownDst : IrInstruction P → List Register
  | .movImm dst _ | .movReg dst _ _ | .addImm dst _ _ | .subImm dst _ _ | .andImm dst _ _ => [dst]
  | .orImm dst _ _ | .xorImm dst _ _ | .shlImm dst _ _ | .shrImm dst _ _ | .sarImm dst _ _ => [dst]
  | .rolImm dst _ _ | .negReg dst _ | .notReg dst _ | .incReg dst _ | .decReg dst _ | .popReg dst => [dst]
  | .movReg8 dst _ | .addReg8 dst _ | .subReg8 dst _ | .andReg8 dst _ | .orReg8 dst _ =>
    [dst.fullRegister]
  | .xorReg8 dst _ | .incReg8 dst | .decReg8 dst | .negReg8 dst | .notReg8 dst => [dst.fullRegister]
  | .loadMemory8 dst _ => [dst.fullRegister]
  | .loadMemory dst _ _ | .signExtendTo64 dst _ _ | .signExtend dst _ _ _ | .zeroExtendTo64 dst _ _ => [dst]
  | .cmov _ dst _ _ | .popcnt dst _ | .lzcnt dst _ | .bsf dst _ | .crc32 dst _ | .rdrand dst | .rdseed dst => [dst]
  | .andn dst _ _ | .bextr dst _ _ | .blsi dst _ | .blsmsk dst _ | .blsr dst _ | .bzhi dst _ _ => [dst]
  | .pdep dst _ _ | .pext dst _ _ | .rorx dst _ _ | .sarx dst _ _ | .shrx dst _ _ | .shlx dst _ _ => [dst]
  | .mulx dstLo dstHi _ => [dstLo, dstHi]
  | .exchangeRegisters left right _ => [left, right]
  | .loadEffectiveAddress dst _ _ => [dst]
  | _ => []

structure FoldState (P : Platform) where
  known : KnownValues
  result : List (IrInstruction P)

namespace FoldState

def write (st : FoldState P) (dst : Register) (value : U64) : FoldState P where
  known := Function.update st.known dst (some (.immediate value))
  result := pushFoldedImmediate st.result dst value

def keep (st : FoldState P) (insn : IrInstruction P) (known : KnownValues) : FoldState P where
  known := known
  result := st.result ++ [insn]

/-- `dst := dst op constant`: skipped as a no-op, folded when `dst` is known, kept otherwise. -/
def foldImmediate (st : FoldState P) (insn : IrInstruction P) (dst : Register) (noOp : Bool)
    (fold : U64 → U64) : FoldState P :=
  if noOp then st
  else
    match st.known dst with
    | some (.immediate value) => st.write dst (fold value)
    | _ => st.keep insn (Function.update st.known dst none)

/-- MOV between registers passes a known value on. -/
def foldMove (st : FoldState P) (insn : IrInstruction P) (dst src : Register) : FoldState P :=
  match st.known src with
  | some (.immediate value) => st.write dst value
  | some copy => st.keep insn (Function.update st.known dst (some copy))
  | none => st.keep insn (Function.update st.known dst (some (.registerCopy src)))

/-- One round of the loop in `constant_fold`. -/
def step (st : FoldState P) (insn : IrInstruction P) : FoldState P :=
  match insn with
  | .movImm dst value => st.write dst value
  | .movReg dst src _ => st.foldMove insn dst src
  | .addImm dst value _ => st.foldImmediate insn dst (value == 0) (· + value)
  | .subImm dst value _ => st.foldImmediate insn dst (value == 0) (· - value)
  | .shlImm dst count _ => st.foldImmediate insn dst (count == 0) (shl · count.toNat)
  | .andImm dst value width => st.foldImmediate insn dst (value == fullMask width) (· &&& value)
  | .orImm dst value _ => st.foldImmediate insn dst false (· ||| value)
  | .xorImm dst value _ => st.foldImmediate insn dst false (· ^^^ value)
  | other => st.keep insn fun reg => if reg ∈ invalidateKnownDst other then none else st.known reg

end FoldState

def constantFold (ir : List (IrInstruction P)) : List (IrInstruction P) :=
  (ir.foldl FoldState.step ⟨fun _ => none, []⟩).result

/-! ## Constants in the text of a block -/

/-- An instruction that the pass may leave out or replace by a constant write. -/
structure Foldable (P : Platform) where
  dst : Register
  /-- the register whose constant decides -/
  source : Register
  /-- left out whatever is known -/
  noOp : Bool
  fold : U64 → U64
  /-- what the interpreter leaves in the register file, unless it refuses the instruction -/
  left : CpuState → Option U64

def Foldable.alu (dst : Register) (noOp : Bool) (fold : U64 → U64) (op : U64 → U64 → U64)
    (value : U64) (width : Nat) : Foldable P where
  dst := dst
  source := dst
  noOp := noOp
  fold := fold
  left s :=
    let result := op (s.get dst &&& widthMask width) (value &&& widthMask width) &&& widthMask width
    some (mergeRegisterResult (s.get dst) result width &&& s.arch.registerMask)

/-- MOV between registers accepts three widths. -/
def movedValue (s : CpuState) (dst src : Register) : Nat → Option U64
  | 8 => some (s.get src &&& widthMask 8)
  | 4 => some (zeroExtend (s.get src &&& widthMask 4) 4)
  | 2 => some ((s.get dst &&& ~~~widthMask 2) ||| (s.get src &&& widthMask 2))
  | _ => none

def foldable : IrInstruction P → Option (Foldable P)
  | .movReg dst src width =>
    some ⟨dst, src, false, id, fun s => (movedValue s dst src width).map (· &&& s.arch.registerMask)⟩
  | .addImm dst value width => some (.alu dst (value == 0) (· + value) (· + ·) value width)
  | .subImm dst value width => some (.alu dst (value == 0) (· - value) (· - ·) value width)
  | .shlImm dst count width =>
    some ⟨dst, dst, count == 0, (shl · count.toNat), fun s => some <|
      if shiftCount count (shiftBits width) = 0 then s.gpr dst else (shifted .shl s dst count width).gpr dst⟩
  | .andImm dst value width =>
    some (.alu dst (value == fullMask width) (· &&& value) (· &&& ·) value width)
  | .orImm dst value width => some (.alu dst false (· ||| value) (· ||| ·) value width)
  | .xorImm dst value width => some (.alu dst false (· ^^^ value) (· ^^^ ·) value width)
  | _ => none

/-- The constant that instructions, the latest first, give a register, if every other instruction
takes the constants of the registers listed for it. -/
def constantAfter (forgets : IrInstruction P → List Register) :
    List (IrInstruction P) → Register → Option U64
  | [], _ => none
  | insn :: past, reg =>
    match foldable insn with
    | some form =>
      if form.dst = reg ∧ form.noOp = false then (constantAfter forgets past form.source).map form.fold
      else constantAfter forgets past reg
    | none =>
      match insn with
      | .movImm dst value => if dst = reg then some value else constantAfter forgets past reg
      | insn => if reg ∈ forgets insn then none else constantAfter forgets past reg

theorem constantAfter_foldable (found : foldable insn = some form) :
    constantAfter forgets (insn :: past) reg =
    if form.dst = reg ∧ form.noOp = false then (constantAfter forgets past form.source).map form.fold
    else constantAfter forgets past reg := by
  simp only [constantAfter, found]

/-- What stands in the folded block for an instruction whose text or whose source decides. -/
def Foldable.replacement (form : Foldable P) (source : Option U64) (insn : IrInstruction P) :
    List (IrInstruction P) :=
  if form.noOp then []
  else
    match source with
    | some value => [.movImm form.dst (form.fold value)]
    | none => [insn]

def replacement (constants : Register → Option U64) (insn : IrInstruction P) :
    List (IrInstruction P) :=
  match foldable insn with
  | some form => form.replacement (constants form.source) insn
  | none => [insn]

def KnownValue.constant? : KnownValue → Option U64
  | .immediate value => some value
  | _ => none

def constants (known : KnownValues) (reg : Register) : Option U64 :=
  (known reg).bind KnownValue.constant?

namespace FoldState
variable (st : FoldState P) (insn : IrInstruction P)

end FoldState

/-- What one round of the pass does with an instruction. -/
inductive Round (insn : IrInstruction P) : Prop where
  | constant {dst value} (form : insn = .movImm dst value)
  | move {dst src width} (form : insn = .movReg dst src width)
  | immediate {form : Foldable P} (found : foldable insn = some form) (own : form.source = form.dst)
      (folds : ∀ st : FoldState P, st.step insn = st.foldImmediate insn form.dst form.noOp form.fold)
  | kept (unfoldable : foldable insn = none)
      (after : ∀ forgets past reg, constantAfter forgets (insn :: past) reg =
        if reg ∈ forgets insn then none else constantAfter forgets past reg)
      (keeps : ∀ st : FoldState P, st.step insn =
        st.keep insn fun reg => if reg ∈ invalidateKnownDst insn then none else st.known reg)

theorem round (insn : IrInstruction P) : Round insn := by
  cases found : foldable insn with
  | some =>
    unfold foldable at found
    split at found
    case h_1 => exact .move rfl
    case h_8 => cases found
    all_goals
      cases found
      exact .immediate rfl rfl fun _ => rfl
  | none =>
    by_cases constant : ∃ dst value, insn = .movImm dst value
    · obtain ⟨dst, value, form⟩ := constant
      exact .constant form
    · refine .kept found (fun forgets past reg => ?_) fun st => ?_
      · rw [constantAfter, found]
        exact fun dst value form => constant ⟨dst, value, form⟩
      · unfold FoldState.step
        split
        case h_1 => exact absurd ⟨_, _, rfl⟩ constant
        case h_9 => rfl
        all_goals cases found

/-- Two blocks that no machine can tell apart. -/
def Equivalent (host : Host P) (left right : List (IrInstruction P)) : Prop :=
  ∀ m, (executeIr host left).run m = (executeIr host right).run m

section Blocks
variable {host : Host P}

theorem Equivalent.append (same : Equivalent host left right) :
    Equivalent host (front ++ left) (front ++ right) := by
  intro m
  rw [executeIr_append, executeIr_append]
  cases ran : (executeIr host front).run m with
  | ok value t => rw [bind_of_ok ran, bind_of_ok ran, same t]
  | error => rw [bind_of_error ran, bind_of_error ran]
  | panic => rw [bind_of_panic ran, bind_of_panic ran]

theorem executeIr_movImm :
    (executeIr host [.movImm dst value]).run m =
      .ok () { m.settle with cpu := m.settle.cpu.set dst value } :=
  executeIr_single (fun _ => rfl)

/-- What the interpreter does with a foldable instruction. -/
inductive FoldableRun (host : Host P) (insn : IrInstruction P) (form : Foldable P) (m : Machine P) : Prop where
  | left {word flags} (written : form.left m.cpu = some word)
      (ran : (executeIr host [insn]).run m = .ok () ((m.withRegister form.dst word).withFlags flags))
  | refused {reason} (unwritten : form.left m.cpu = none)
      (failed : (executeIr host [insn]).run m = .error reason m)

theorem foldable_run (found : foldable insn = some form) (settled : m.cpu.pendingFlags = none) :
    FoldableRun host insn form m := by
  cases insn <;> simp only [foldable, Option.some.injEq, reduceCtorEq] at found <;> subst found
  case addImm | subImm | andImm | orImm | xorImm =>
    exact .left rfl (executeIr_settled_single (fun _ => rfl) settled)
  case movReg dst src width =>
    have runs : (executeIr host [.movReg dst src width]).run m = (movReg dst src width).run m :=
      executeIr_settled_single (fun _ => rfl) settled
    by_cases valid : width = 2 ∨ width = 4 ∨ width = 8
    · rcases valid with rfl | rfl | rfl <;> exact .left rfl runs
    · obtain ⟨reason, stops⟩ := movReg_refused valid
      have unmoved : movedValue m.cpu dst src width = none := by
        unfold movedValue
        split
        · exact absurd (.inr (.inr rfl)) valid
        · exact absurd (.inr (.inl rfl)) valid
        · exact absurd (.inl rfl) valid
        · rfl
      exact .refused (congrArg (Option.map _) unmoved) (runs.trans stops)
  case shlImm dst count width =>
    have runs : (executeIr host [.shlImm dst count width]).run m =
        (shiftRegister .shl FlagPolicy.eager.discard dst count width).run m :=
      executeIr_settled_single (fun _ => rfl) settled
    by_cases idle : shiftCount count (shiftBits width) = 0
    · have kept : (m.withRegister dst (m.cpu.gpr dst)).withFlags m.cpu.flags = m := by
        rw [withRegister, update_eq_self]
        rfl
      have ran : (executeIr host [.shlImm dst count width]).run m =
          .ok () ((m.withRegister dst (m.cpu.gpr dst)).withFlags m.cpu.flags) := by
        rw [kept, runs, shiftRegister_idle idle]
      exact .left (congrArg some (if_pos idle)) ran
    · have ran : (executeIr host [.shlImm dst count width]).run m =
          .ok () ((m.withRegister dst ((shifted .shl m.cpu dst count width).gpr dst)).withFlags
            (shifted .shl m.cpu dst count width).flags) := by
        have word : (shifted .shl m.cpu dst count width).gpr =
            update m.cpu.gpr dst ((shifted .shl m.cpu dst count width).gpr dst) :=
          (congrArg (update m.cpu.gpr dst) (update_self dst _ m.cpu.gpr)).symm
        rw [runs, shiftRegister_shifts idle, withRegister, ← word]
        rfl
      exact .left (congrArg some (if_neg idle)) ran

end Blocks

/-! ## Constants of the interpreter -/

/-- The registers that an instruction writes and `invalidate_known_dst` does not list. -/
def overlooked (host : Host P) : IrInstruction P → List Register
  | .movImm .. | .movReg .. | .addImm .. | .subImm .. | .andImm .. | .orImm .. | .xorImm .. | .shlImm .. => []
  | .shrImm .. | .sarImm .. | .rolImm .. | .negReg .. | .notReg .. | .incReg .. | .decReg .. => []
  | .movReg8 .. | .addReg8 .. | .subReg8 .. | .andReg8 .. | .orReg8 .. | .xorReg8 .. | .incReg8 .. => []
  | .decReg8 .. | .negReg8 .. | .notReg8 .. | .loadMemory8 .. | .loadMemory .. | .signExtendTo64 .. => []
  | .signExtend .. | .zeroExtendTo64 .. | .cmov .. | .popcnt .. | .lzcnt .. | .bsf .. | .crc32 .. => []
  | .rdrand .. | .rdseed .. | .andn .. | .bextr .. | .blsi .. | .blsmsk .. | .blsr .. | .bzhi .. => []
  | .pdep .. | .pext .. | .rorx .. | .sarx .. | .shrx .. | .shlx .. | .mulx .. => []
  | .exchangeRegisters .. | .loadEffectiveAddress .. => []
  | .popReg _ => [.rsp]
  | insn => writes host insn

/-- What the pass leaves out keeps its register, and what it can fold computes at its width what
the fold does on 64 bits: the last instruction that writes the source gave it a constant. -/
def FoldExact (host : Host P) (past : List (IrInstruction P)) (s : CpuState)
    (insn : IrInstruction P) : Prop :=
  ∀ form, foldable insn = some form →
    if form.noOp then form.left s = some (s.gpr form.dst)
    else (constantAfter (writes host) past form.source).isSome →
      form.left s = some (form.fold (s.get form.source) &&& s.arch.registerMask)

/-- Every constant of the pass is one of the interpreter, and the register has it. -/
def Known (host : Host P) (past : List (IrInstruction P)) (s : CpuState) : Prop :=
  ∀ reg value, constantAfter invalidateKnownDst past reg = some value →
    constantAfter (writes host) past reg = some value ∧ s.gpr reg = value &&& s.arch.registerMask

section Constants
variable {host : Host P} {insn : IrInstruction P} {form : Foldable P}

/-- The folds look at nothing above the bits of a register that they keep. -/
theorem fold_masked (found : foldable insn = some form) (arch : GuestArch) (value : U64) :
    form.fold (value &&& arch.registerMask) &&& arch.registerMask =
      form.fold value &&& arch.registerMask := by
  cases arch with
  | x64 =>
    have full (x : U64) : x &&& GuestArch.x64.registerMask = x := BitVec.and_allOnes
    rw [full, full, full]
  | x86 =>
    have truncates (x : U64) : x &&& GuestArch.x86.registerMask = (x.setWidth 32).setWidth 64 :=
      and_lowBits x 32
    have low : (value &&& GuestArch.x86.registerMask).setWidth 32 = value.setWidth 32 := by
      have ones : GuestArch.x86.registerMask.setWidth 32 = BitVec.allOnes 32 := by decide
      rw [BitVec.setWidth_and, ones, BitVec.and_allOnes]
    have shifted (x : U64) (n : Nat) : (x <<< n).setWidth 32 = x.setWidth 32 <<< n := by
      ext i inside
      simp
    suffices same : (form.fold (value &&& GuestArch.x86.registerMask)).setWidth 32 =
      (form.fold value).setWidth 32 from
      (truncates _).trans ((congrArg (BitVec.setWidth 64) same).trans (truncates _).symm)
    cases insn <;> simp only [foldable, Option.some.injEq, reduceCtorEq] at found <;> subst found
    case movReg => exact low
    case addImm => simp only [Foldable.alu, BitVec.setWidth_add _ _ (by decide : 32 ≤ 64), low]
    case subImm => simp only [Foldable.alu, setWidth_sub .dword, low]
    case shlImm => simp only [shl, shifted, low]
    case andImm => simp only [Foldable.alu, BitVec.setWidth_and, low]
    case orImm => simp only [Foldable.alu, BitVec.setWidth_or, low]
    case xorImm => simp only [Foldable.alu, BitVec.setWidth_xor, low]

variable {s t : Machine P} (known : Known host past s.cpu) (exact : FoldExact host past s.cpu insn)
include known exact

/-- A folded instruction leaves the constant of the fold. -/
theorem Known.folded (found : foldable insn = some form) (busy : form.noOp = false)
    (source : constantAfter invalidateKnownDst past form.source = some value) :
    form.left s.cpu = some (form.fold value &&& s.cpu.arch.registerMask) := by
  obtain ⟨given, holds⟩ := known form.source value source
  have computed := exact form found
  rw [busy, if_neg Bool.false_ne_true, given] at computed
  rw [computed rfl, CpuState.get, holds, BitVec.and_assoc, BitVec.and_self, fold_masked found]

theorem Known.foldable (found : foldable insn = some form) (settled : s.cpu.pendingFlags = none)
    (ran : (executeIr host [insn]).run s = .ok () t) : Known host (insn :: past) t.cpu := by
  cases foldable_run found settled with
  | refused _ failed => cases failed.symm.trans ran
  | left written went =>
    cases went.symm.trans ran
    intro reg value has
    rw [constantAfter_foldable found] at has ⊢
    split at has
    case isTrue here =>
      obtain ⟨source, constant, rfl⟩ := Option.map_eq_some_iff.mp has
      have same := written.symm.trans (known.folded exact found here.2 constant)
      rw [if_pos here, (known _ _ constant).1, ← here.1]
      exact ⟨rfl, (update_self ..).trans (Option.some.inj same)⟩
    case isFalse elsewhere =>
      obtain ⟨given, holds⟩ := known reg value has
      rw [if_neg elsewhere]
      refine ⟨given, Eq.trans ?_ holds⟩
      by_cases same : reg = form.dst
      · -- a no-op leaves its register as it is
        have idle : form.noOp := by
          by_contra busy
          exact elsewhere ⟨same.symm, Bool.eq_false_of_not_eq_true busy⟩
        have kept := exact form found
        rw [idle, if_pos rfl] at kept
        rw [same]
        exact (update_self ..).trans (Option.some.inj (written.symm.trans kept))
      · exact update_of_ne same ..

end Constants

/-! ## When folding cannot be observed -/

/-- An instruction that is safe to fold in the state it is reached in. -/
structure SafeAt (host : Host P) (before : List (IrInstruction P)) (insn : IrInstruction P)
    (after : List (IrInstruction P)) (s : Machine P) : Prop where
  seen : ∀ reg ∈ overlooked host insn, constantAfter (writes host) before.reverse reg = none
  exact : FoldExact host before.reverse s.cpu insn
  /-- the flags of what is left out or folded are dead, if it sets any -/
  unseen : ∀ t, (executeIr host [insn]).run s = .ok () t → ∀ form, foldable insn = some form →
    form.noOp = true ∨ (constantAfter (writes host) before.reverse form.source).isSome = true →
    FlagsKept (executeIr host [insn]) s ∨ FlagsDead host after t

section Folding
variable {host : Host P}

/-! ### One instruction -/

section Instruction
variable {s : Machine P}

theorem executeIr_nil_settled (settled : s.cpu.pendingFlags = none) :
    (executeIr host []).run s = .ok () s := by
  change Outcome.ok () s.settle = _
  rw [settle_of_settled settled]

theorem executeIr_movImm_settled (settled : s.cpu.pendingFlags = none) (dst : Register) :
    (executeIr host [.movImm dst value]).run s =
      .ok () (s.withRegister dst (value &&& s.cpu.arch.registerMask)) := by
  rw [executeIr_movImm, settle_of_settled settled]
  rfl

/-- The instruction stands in the folded block, or what stands for it does the same but for the
flags. -/
theorem replacement_cases (known : Known host past s.cpu) (exact : FoldExact host past s.cpu insn)
    (settled : s.cpu.pendingFlags = none) :
    replacement (constantAfter invalidateKnownDst past) insn = [insn] ∨
    ∃ form t, foldable insn = some form ∧
      (form.noOp ∨ (constantAfter (writes host) past form.source).isSome) ∧
      (executeIr host [insn]).run s = .ok () t ∧
      ∀ flags, (executeIr host (replacement (constantAfter invalidateKnownDst past) insn)).run (s.withFlags flags) =
        .ok () (t.withFlags flags) := by
  unfold replacement Foldable.replacement
  cases found : foldable insn with
  | none => exact .inl rfl
  | some form =>
    dsimp only
    have run : FoldableRun host insn form s := foldable_run found settled
    cases idle : form.noOp with
    | true =>
      right
      have kept := exact form found
      rw [idle, if_pos rfl] at kept
      cases run with
      | refused unwritten => cases unwritten.symm.trans kept
      | left written went =>
        cases written.symm.trans kept
        refine ⟨form, _, rfl, .inl idle, went, fun flags => ?_⟩
        rw [if_pos rfl, executeIr_nil_settled (s := s.withFlags flags) settled, withRegister, update_eq_self]
        rfl
    | false =>
      rw [if_neg Bool.false_ne_true]
      cases source : constantAfter invalidateKnownDst past form.source with
      | none => exact .inl rfl
      | some value =>
        right
        have folded := known.folded exact found idle source
        cases run with
        | refused unwritten => cases unwritten.symm.trans folded
        | left written went =>
          cases written.symm.trans folded
          refine ⟨form, _, rfl, .inr (by rw [(known _ _ source).1]; rfl), went, fun flags => ?_⟩
          exact executeIr_movImm_settled (s := s.withFlags flags) settled _

end Instruction

/-! ### Whole blocks -/

/-- How the folded part of a block ends: like the part itself, but for flags that are dead before
the rest. -/
structure Carried (host : Host P) (before after : List (IrInstruction P)) (m : Machine P) : Prop where
  known : ∀ s, (executeIr host before).run m = .ok () s → Known host before.reverse s.cpu
  returned : ∀ s, (executeIr host before).run m = .ok () s → ∃ flags,
    (executeIr host (constantFold before)).run m = .ok () (s.withFlags flags) ∧
    (flags = s.cpu.flags ∨ FlagsDead host after s)
  stopped : (∀ s, (executeIr host before).run m ≠ .ok () s) →
    (executeIr host (constantFold before)).run m = (executeIr host before).run m

theorem Carried.nil (m : Machine P) : Carried host [] ir m where
  known _ _ _ _ has := by cases has
  returned s ran := ⟨s.cpu.flags, ran, .inl rfl⟩
  stopped never := absurd rfl (never m.settle)

/-- What the folded block does for one instruction, from flags that are the same or dead. -/
theorem SafeAt.step {after : List (IrInstruction P)} (safe : SafeAt host before insn after s)
    (known : Known host before.reverse s.cpu) (settled : s.cpu.pendingFlags = none)
    (live : flags = s.cpu.flags ∨ FlagsDead host (insn :: after) s) :
    (∃ t next, (executeIr host [insn]).run s = .ok () t ∧
      (executeIr host (replacement (constantAfter invalidateKnownDst before.reverse) insn)).run (s.withFlags flags) =
        .ok () (t.withFlags next) ∧ (next = t.cpu.flags ∨ FlagsDead host after t)) ∨
    (∀ t, (executeIr host [insn]).run s ≠ .ok () t) ∧
      (executeIr host (replacement (constantAfter invalidateKnownDst before.reverse) insn)).run (s.withFlags flags) =
        (executeIr host [insn]).run s := by
  rcases replacement_cases known safe.exact settled with whole | ⟨form, t, found, drops, ran, replaced⟩
  · rw [whole]
    rcases live with rfl | dead
    · cases ran : (executeIr host [insn]).run s with
      | ok value t => exact .inl ⟨t, t.cpu.flags, rfl, ran, .inl rfl⟩
      | error | panic =>
        refine .inr ⟨fun t ended => ?_, ran⟩
        cases ended
    · obtain ⟨t, next, ran, other, after⟩ := dead.step flags
      exact .inl ⟨t, next, ran, other, after⟩
  · refine .inl ⟨t, flags, ran, replaced flags, ?_⟩
    rcases safe.unseen t ran form found drops with ⟨u, keeps⟩ | dead
    · -- an instruction that keeps the flags keeps them equal or dead
      have own : t = u.withFlags s.cpu.flags := (Outcome.ok.inj (ran.symm.trans (keeps s.cpu.flags))).2
      rcases live with rfl | dead
      · exact .inl (congrArg (·.cpu.flags) own).symm
      · obtain ⟨_, next, again, other, after⟩ := dead.step flags
        cases ran.symm.trans again
        have same : u.withFlags flags = t.withFlags next := (Outcome.ok.inj ((keeps flags).symm.trans other)).2
        have equal : flags = next := congrArg (·.cpu.flags) same
        rwa [equal]
    · exact .inr dead

end Folding

end Casa.Jit
