import Casa.Cpu.Bare
import Casa.Cpu.SubtractBorrow
import Casa.Jit.Emitter

/-! Comparisons of 64-bit operands left in the flags of the host, and the branch
on them (jit/arm64_emitter.rs). -/
namespace Casa.Jit
open Arm64 Casa.Cpu Effect MachineInt BitVec
variable {P : Platform}

def armConditionFor (condition : ConditionCode) : Option U32 :=
  match condition with
  | .equal => some 0x0
  | .notEqual => some 0x1
  | .notBelow => some 0x2
  | .below => some 0x3
  | .notSign => some 0x5
  | .sign => some 0x4
  | .notOverflow => some 0x7
  | .overflow => some 0x6
  | .above => some 0x8
  | .notAbove => some 0x9
  | .greaterEqual => some 0x10
  | .less => some 0x11
  | .greater => some 0x12
  | .lessEqual => some 0x13
  | .parity | .notParity => none

/-- The host register of an operand; an immediate is loaded into the scratch register. -/
def resolve (e : Emitter) (operand : CompareOperand) (scratch : U32) : Option U32 × Emitter :=
  match operand with
  | .register reg => (some (Regmap.guestToArm reg.index), e)
  | .immediateU64 value => (some scratch, e.movImm64 scratch value)
  | _ => (none, e)

def emitComparison (e : Emitter) (lhs rhs : CompareOperand) (width : Nat) (isTest : Bool) :
    Bool × Emitter :=
  if width ≠ 8 then (false, e)
  else
    match resolve e lhs Regmap.x21 with
    | (none, e) => (false, e)
    | (some lhsReg, e) =>
      match resolve e rhs Regmap.x22 with
      | (none, e) => (false, e)
      | (some rhsReg, e) =>
        (true, if isTest then e.andsReg Regmap.xzr lhsReg rhsReg else e.subsReg Regmap.xzr lhsReg rhsReg)

/-- Whether the comparison has a native form, and the code emitted for it. -/
def emitNativeCompare (e : Emitter) (insn : IrInstruction P) : Bool × Emitter :=
  match insn with
  | .compare lhs rhs width => emitComparison e lhs rhs width false
  | .test lhs rhs width => emitComparison e lhs rhs width true
  | _ => (false, e)

/-- A comparison at the end of a block and the branch on it, where both have a
native form. -/
def emitNativeBranch (e : Emitter) (insn : IrInstruction P) (condition : ConditionCode)
    (offset : U32) : Option Emitter :=
  match emitNativeCompare e insn with
  | (false, _) => none
  | (true, e) => (armConditionFor condition).map fun cond => e.bcond cond offset

/-! ## The two comparisons -/

inductive Comparison where
  | compare
  | test
  deriving DecidableEq

namespace Comparison

def instruction : Comparison → CompareOperand → CompareOperand → IrInstruction P
  | .compare, lhs, rhs => .compare lhs rhs 8
  | .test, lhs, rhs => .test lhs rhs 8

/-- The guest's flags. -/
def flags : Comparison → U64 → U64 → Flags
  | .compare, lhs, rhs => differenceFlags lhs rhs false
  | .test, lhs, rhs =>
    { pf := parity ((lhs &&& rhs).setWidth 8), zf := lhs &&& rhs = 0, sf := (lhs &&& rhs).msb }

/-- The host's flags. -/
def nzcv : Comparison → U64 → U64 → Nzcv
  | .compare, lhs, rhs => (addWithCarry lhs (~~~rhs) true).2
  | .test, lhs, rhs => ⟨(lhs &&& rhs).msb, lhs &&& rhs = 0, false, false⟩

end Comparison

theorem subFlags_word (x y : U64) : subFlags x y (x - y) 64 = differenceFlags x y false := by
  have exact := subFlags_exact .qword x y
  rwa [setWidth_eq, setWidth_eq, setWidth_eq] at exact

theorem logicFlags_word (x y : U64) : logicFlags (x &&& y) 64 = Comparison.test.flags x y := by
  have zero := zero_operand .qword (x &&& y)
  have sign := sign_operand .qword (x &&& y)
  rw [setWidth_eq] at zero sign
  simp only [logicFlags, Comparison.flags, zero, sign]

section
variable {m : Machine P} (readLhs : readCompareOperand m lhs 8 = .ok x) (readRhs : readCompareOperand m rhs 8 = .ok y)
include readLhs readRhs

theorem setFlags_operands_run (flags : U64 → U64 → Flags) :
    (readOperand lhs 8 >>= fun x => readOperand rhs 8 >>= fun y => setFlags (flags x y)).run m =
      .ok () { m with cpu := { m.cpu with flags := flags x y } } := by
  rw [readOperand_bind readLhs, readOperand_bind readRhs]
  rfl

theorem executeIr_comparison (host : Host P) (op : Comparison) :
    ∃ t, (executeIr host [op.instruction lhs rhs]).run m = .ok () t ∧
      t.cpu.flags = op.flags x y := by
  have mask (z : U64) : z &&& widthMask 8 = z := and_allOnes
  rw [← settle_readCompareOperand] at readLhs readRhs
  cases op
  all_goals
    refine ⟨_, (executeIr_single fun _ => rfl).trans (setFlags_operands_run readLhs readRhs _), ?_⟩
    simp only [mask]
  case compare => exact subFlags_word x y
  case test => exact logicFlags_word x y

end

/-! ## The code on the host -/

/-- The host registers hold the guest's. -/
def Mapped (s : State) (m : Machine P) : Prop :=
  ∀ reg : Register, s.read ((Regmap.guestToArm reg.index).setWidth 5) = m.cpu.get reg

theorem guestToArm_register (reg : Register) :
    ((Regmap.guestToArm reg.index).setWidth 5).setWidth 32 = Regmap.guestToArm reg.index ∧
      (Regmap.guestToArm reg.index).setWidth 5 ∉ [(21 : BitVec 5), 22, 31] := by
  cases reg <;> decide

/-- What the code that resolves an operand leaves behind: the operand is in the
register, and of all registers only the scratch register may have changed. -/
structure Resolved (s t : State) (scratch reg : BitVec 5) (value : U64) : Prop where
  value : t.read reg = value
  others : ∀ other, other ≠ scratch → t.read other = s.read other

theorem resolve_run (ran : exec e s = some (.next t)) (mapped : Mapped t m) (scratch : BitVec 5)
    (free : scratch ≠ 31) (resolved : resolve e operand (scratch.setWidth 32) = (some reg, e'))
    (read : readCompareOperand m operand 8 = .ok x) :
    ∃ r u, reg = r.setWidth 32 ∧ exec e' s = some (.next u) ∧ Resolved t u scratch r x ∧
      (r = scratch ∨ r ∉ [(21 : BitVec 5), 22, 31]) := by
  cases operand with
  | register guest =>
    cases resolved
    cases read
    obtain ⟨encoded, apart⟩ := guestToArm_register guest
    refine ⟨_, t, encoded.symm, ran, ⟨?_, fun _ _ => rfl⟩, .inr apart⟩
    rw [mapped guest]
    exact and_allOnes.symm
  | immediateU64 immediate =>
    cases resolved
    cases read
    refine ⟨scratch, _, rfl, exec_movImm64 ran free immediate, ⟨?_, ?_⟩, .inl rfl⟩
    · rw [State.read_write_self _ free]
      exact and_allOnes.symm
    · exact fun other distinct => State.read_write_of_ne _ distinct
  | register8 _ | memory _ => cases resolved

theorem emitNativeCompare_run (op : Comparison) (ran : exec e s = some (.next t))
    (mapped : Mapped t m)
    (emitted : emitNativeCompare e (op.instruction lhs rhs : IrInstruction P) = (true, e'))
    (readLhs : readCompareOperand m lhs 8 = .ok x) (readRhs : readCompareOperand m rhs 8 = .ok y) :
    ∃ u, exec e' s = some (.next u) ∧ u.nzcv = op.nzcv x y := by
  have comparison : emitNativeCompare e (op.instruction lhs rhs : IrInstruction P) =
      emitComparison e lhs rhs 8 (op == .test) := by
    cases op <;> rfl
  rw [comparison, emitComparison] at emitted
  match left : resolve e lhs Regmap.x21 with
  | (none, first) =>
    rw [left] at emitted
    cases emitted
  | (some lhsReg, first) =>
    rw [left] at emitted
    dsimp only at emitted
    match right : resolve first rhs Regmap.x22 with
    | (none, second) =>
      rw [right] at emitted
      cases emitted
    | (some rhsReg, second) =>
      rw [right] at emitted
      cases emitted
      obtain ⟨rn, u, rfl, ranLeft, resolvedLeft, apartLeft⟩ :=
        resolve_run ran mapped 21 (by decide) left readLhs
      have mappedLeft : Mapped u m := by
        intro reg
        rw [resolvedLeft.others _ fun same => (guestToArm_register reg).2 (same.symm ▸ List.mem_cons_self), mapped reg]
      obtain ⟨rm, v, rfl, ranRight, resolvedRight, -⟩ :=
        resolve_run ranLeft mappedLeft 22 (by decide) right readRhs
      -- The left operand is in a guest register or in X21, and so it survives.
      have kept : v.read rn = x := by
        rw [resolvedRight.others rn, resolvedLeft.value]
        rintro rfl
        exact apartLeft.elim (by decide) (by decide)
      cases op with
      | compare =>
        refine ⟨_, exec_subsReg ranRight 31 rn rm, ?_⟩
        rw [kept, resolvedRight.value]
        rfl
      | test =>
        refine ⟨_, exec_andsReg ranRight 31 rn rm, ?_⟩
        rw [kept, resolvedRight.value]
        rfl

/-! ## Conditions on both sides -/

section Conditions
variable (x y : U64)

theorem difference_wraps (d : Int) : d.bmod (2 ^ 64) ≠ d ↔ 2 ^ 63 ≤ d ∨ d < -2 ^ 63 := by
  rw [Int.bmod_def]
  omega

/-- The host's carry of a subtraction is the inverted borrow. -/
theorem compare_nzcv :
    let flags := Comparison.compare.flags x y
    Comparison.compare.nzcv x y = ⟨flags.sf, flags.zf, !flags.cf, flags.of⟩ := by
  have borrow : (!decide (x.toNat < y.toNat)) = decide (y.toNat ≤ x.toNat) := by
    rw [← decide_not, decide_eq_decide, Nat.not_lt]
  have overflow := difference_wraps (x.toInt - y.toInt)
  simp only [Comparison.nzcv, Comparison.flags, addWithCarry_not, differenceFlags, borrowed_false,
    toInt_sub, overflow, Bool.toNat_false, Nat.add_zero, Int.natCast_zero, Int.sub_zero, borrow]

/-- The sign of a difference, seen through its wrapped value and the overflow. -/
theorem difference_sign (lower : -2 ^ 64 < d) (upper : d < 2 ^ 64) :
    (decide (d.bmod (2 ^ 64) < 0) != decide (2 ^ 63 ≤ d ∨ d < -2 ^ 63)) = decide (d < 0) := by
  rw [Bool.eq_iff_iff, bne_iff_ne, decide_eq_true_iff, ne_eq, decide_eq_decide, Int.bmod_def]
  omega

theorem compare_less :
    ((Comparison.compare.flags x y).sf != (Comparison.compare.flags x y).of) =
      decide (x.toInt < y.toInt) := by
  have leftHigh := two_mul_toInt_lt (x := x)
  have leftLow := le_two_mul_toInt (x := x)
  have rightHigh := two_mul_toInt_lt (x := y)
  have rightLow := le_two_mul_toInt (x := y)
  have negative : decide (x.toInt - y.toInt < 0) = decide (x.toInt < y.toInt) :=
    decide_eq_decide.mpr (by omega)
  have signed := difference_sign (d := x.toInt - y.toInt) (by omega) (by omega)
  simp only [Comparison.flags, differenceFlags, borrowed_false, Bool.toNat_false, Int.natCast_zero,
    Int.sub_zero, msb_eq_toInt, toInt_sub, signed, negative]

theorem compare_equal : (Comparison.compare.flags x y).zf = decide (x = y) := by
  have zero : x - y = 0 ↔ x = y := by
    rw [sub_eq_iff_eq_add]
    exact iff_of_eq (congrArg (x = ·) (BitVec.zero_add y))
  simp only [Comparison.flags, differenceFlags, borrowed_false, zero]

theorem compare_below : (Comparison.compare.flags x y).cf = decide (x.toNat < y.toNat) := by
  simp only [Comparison.flags, differenceFlags, Bool.toNat_false, Nat.add_zero]

/-- The unsigned and the signed order agree on words of the same sign only. -/
theorem below_iff_less : (x.toNat < y.toNat ↔ x.toInt < y.toInt) ↔ x.msb = y.msb := by
  rw [msb_eq_decide, msb_eq_decide, decide_eq_decide, toInt_eq_toNat_cond, toInt_eq_toNat_cond]
  split <;> split <;> omega

end Conditions

/-- When the native branch decides as the guest would. The four signed
conditions are encoded as EQ, NE, CS and CC, and ANDS clears the carry where
the inverted borrow of the guest would be set. -/
def NativeAgrees (op : Comparison) (condition : ConditionCode) (x y : U64) : Prop :=
  match op, condition with
  | .compare, .greaterEqual | .compare, .less => x.toInt ≤ y.toInt
  | .compare, .greater | .compare, .lessEqual => x.msb = y.msb ∧ x ≠ y
  | .compare, _ => True
  | .test, .below | .test, .notBelow => False
  | .test, .above | .test, .notAbove => x &&& y = 0
  | .test, .greaterEqual | .test, .less | .test, .greater | .test, .lessEqual => (x &&& y).toInt ≤ 0
  | .test, _ => True

section Agreement
variable {cond : U32}

variable (encoded : armConditionFor condition = some cond)
include encoded

/-- The conditions that do not depend on the signed order are encoded as they should be. -/
theorem holds_of_flags (unsigned : condition ∉ [.greaterEqual, .less, .greater, .lessEqual])
    (flags : Flags) :
    Nzcv.holds ⟨flags.sf, flags.zf, !flags.cf, flags.of⟩ (cond.setWidth 4) =
      evaluateCondition condition flags := by
  cases condition <;> cases encoded <;> simp [Nzcv.holds, evaluateCondition] at unsigned ⊢

theorem compare_agrees_iff :
    (Comparison.compare.nzcv x y).holds (cond.setWidth 4) =
        evaluateCondition condition (Comparison.compare.flags x y) ↔
      NativeAgrees .compare condition x y := by
  have less := compare_less x y
  have equal := compare_equal x y
  have below := compare_below x y
  have greaterEqual : ((Comparison.compare.flags x y).sf == (Comparison.compare.flags x y).of) =
      !decide (x.toInt < y.toInt) := by
    rw [← less, bne, Bool.not_not]
  have equalInt : x = y ↔ x.toInt = y.toInt := toInt_inj.symm
  have orders := below_iff_less x y
  rw [compare_nzcv]
  cases condition
  case greaterEqual =>
    cases encoded
    have code : (0x10 : U32).setWidth 4 = 0 := by decide
    rw [code, Nzcv.holds_eq, evaluateCondition, greaterEqual, equal, ← decide_not, decide_eq_decide,
      equalInt, NativeAgrees]
    omega
  case less =>
    cases encoded
    have code : (0x11 : U32).setWidth 4 = 1 := by decide
    rw [code, Nzcv.holds_ne, evaluateCondition, less, equal, ← decide_not, decide_eq_decide,
      equalInt, NativeAgrees]
    omega
  case greater =>
    cases encoded
    have code : (0x12 : U32).setWidth 4 = 2 := by decide
    rw [code, Nzcv.holds_cs, evaluateCondition, greaterEqual, equal, below, NativeAgrees, ← orders]
    by_cases same : x = y
    · simp [same]
    · simp [same]
  case lessEqual =>
    cases encoded
    have code : (0x13 : U32).setWidth 4 = 3 := by decide
    rw [code, Nzcv.holds_cc, evaluateCondition, less, equal, below, NativeAgrees, ← orders]
    by_cases same : x = y
    · simp [same]
    · simp [same]
  all_goals exact iff_of_true (holds_of_flags encoded (by decide) _) trivial

theorem test_agrees_iff :
    (Comparison.test.nzcv x y).holds (cond.setWidth 4) =
      evaluateCondition condition (Comparison.test.flags x y) ↔
      NativeAgrees .test condition x y := by
  have zero : x &&& y = 0 ↔ (x &&& y).toInt = 0 := by
    rw [← toInt_inj]
    rfl
  cases condition
  case below | notBelow =>
    cases encoded
    exact iff_of_false nofun id
  case above | notAbove =>
    cases encoded
    simp [Comparison.nzcv, Comparison.flags, Nzcv.holds, evaluateCondition, NativeAgrees]
  case greaterEqual | less | greater | lessEqual =>
    cases encoded
    simp only [Comparison.nzcv, Comparison.flags, NativeAgrees, msb_eq_toInt, zero]
    generalize (x &&& y).toInt = r
    by_cases vanishes : r = 0
    · simp [Nzcv.holds, evaluateCondition, vanishes]
    · have strict : r < 0 ↔ r ≤ 0 := by omega
      simp [Nzcv.holds, evaluateCondition, vanishes, strict]
  case parity | notParity => cases encoded
  all_goals
    cases encoded
    exact iff_of_true rfl trivial

end Agreement

/-- The native branch on a comparison is taken exactly as the guest's condition
says, where and only where `NativeAgrees` holds. -/
theorem native_branch_agrees_iff (host : Host P) (op : Comparison) (lhs rhs : CompareOperand)
    (condition : ConditionCode) (offset : U32) (m : Machine P) (s : State) (mapped : Mapped s m)
    (x y : U64) (readLhs : readCompareOperand m lhs 8 = .ok x)
    (readRhs : readCompareOperand m rhs 8 = .ok y) (code : Emitter)
    (emitted : emitNativeBranch [] (op.instruction lhs rhs : IrInstruction P) condition offset = some code) :
    (∃ t, (executeIr host [op.instruction lhs rhs]).run m = .ok () t ∧
        taken code s = some (evaluateCondition condition t.cpu.flags)) ↔
      NativeAgrees op condition x y := by
  obtain ⟨t, ran, flags⟩ := executeIr_comparison readLhs readRhs host op
  have branch : ∃ cond, armConditionFor condition = some cond ∧
      taken code s = some ((op.nzcv x y).holds (cond.setWidth 4)) := by
    unfold emitNativeBranch at emitted
    match compared : emitNativeCompare [] (op.instruction lhs rhs : IrInstruction P) with
    | (false, _) =>
      rw [compared] at emitted
      cases emitted
    | (true, before) =>
      rw [compared] at emitted
      obtain ⟨cond, encoded, rfl⟩ := Option.map_eq_some_iff.mp emitted
      obtain ⟨u, executed, nzcv⟩ := emitNativeCompare_run op rfl mapped compared readLhs readRhs
      exact ⟨cond, encoded, nzcv ▸ taken_bcond executed cond offset⟩
  obtain ⟨cond, encoded, decides⟩ := branch
  have agrees : (op.nzcv x y).holds (cond.setWidth 4) = evaluateCondition condition (op.flags x y) ↔
      NativeAgrees op condition x y := by
    cases op with
    | compare => exact compare_agrees_iff encoded
    | test => exact test_agrees_iff encoded
  rw [← agrees, decides]
  constructor
  · rintro ⟨t', ran', same⟩
    cases ran.symm.trans ran'
    rw [← flags]
    exact Option.some.inj same
  · intro same
    exact ⟨t, ran, by rw [same, flags]⟩

def comparing (rax rbx : U64) : Machine barePlatform :=
  bareMachine .x64 (fun | .rax => rax | .rbx => rbx | _ => 0) []

def comparingHost (rax rbx : U64) : State where
  x reg := if reg = 4 then rax else if reg = 7 then rbx else 0
  nzcv := ⟨false, false, false, false⟩

/-- `3 < 5` is decided in the same way on both sides. -/
theorem native_branch_agrees_less :
    ∃ code, emitNativeBranch [] (.compare (.register .rax) (.register .rbx) 8 : IrInstruction barePlatform) .less 0 =
        some code ∧
      ((∃ t, (executeIr bareHost [.compare (.register .rax) (.register .rbx) 8]).run (comparing 3 5) = .ok () t ∧
          taken code (comparingHost 3 5) = some (evaluateCondition .less t.cpu.flags)) ↔
        NativeAgrees .compare .less 3 5) :=
  ⟨_, rfl, native_branch_agrees_iff bareHost .compare (.register .rax) (.register .rbx) .less 0
    (comparing 3 5)
    (comparingHost 3 5) (fun reg => by cases reg <;> rfl) 3 5 rfl rfl _ rfl⟩

/-- On `5 < 3` the guest falls through, but the native branch is taken. -/
theorem native_less_taken :
    ∃ code t, emitNativeBranch [] (.compare (.register .rax) (.register .rbx) 8 : IrInstruction barePlatform) .less 0 =
        some code ∧
      (executeIr bareHost [.compare (.register .rax) (.register .rbx) 8]).run (comparing 5 3) = .ok () t ∧
      evaluateCondition .less t.cpu.flags = false ∧ taken code (comparingHost 5 3) = some true :=
  ⟨_, _, rfl, rfl, by decide, by decide⟩

end Casa.Jit
