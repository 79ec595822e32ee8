import Casa.Cpu.SubtractBorrow
import Casa.Lib.Limbs

/-! Multi-word arithmetic on 64-bit limbs. A program handles one limb after the
other with an instruction that takes the carry of the limb below from a flag;
between two limbs it may run any code that keeps that flag. -/
namespace Casa.Cpu
open Effect MachineInt Limbs List Exec
open BitVec (toNat_add toNat_setWidth_of_le allOnes and_allOnes toNat ult)
variable {P : Platform}

/-! ## Limb instructions -/

inductive LimbOp where
  | add
  | adc
  | sub
  | sbb
  | adcx
  | adox

namespace LimbOp

def instruction (op : LimbOp) (dst : Register) (src : CompareOperand) : IrInstruction P :=
  match op with
  | .add => .addOperand dst src 8
  | .adc => .adcOperand dst src 8
  | .sub => .subOperand dst src 8
  | .sbb => .sbbOperand dst src 8
  | .adcx => .adcx dst src 8
  | .adox => .adox dst src 8

def result (op : LimbOp) (lhs rhs : U64) (flags : Flags) : U64 :=
  match op with
  | .add => lhs + rhs
  | .adc | .adcx => lhs + rhs + carryWord flags.cf
  | .sub => lhs - rhs
  | .sbb => lhs - rhs - carryWord flags.cf
  | .adox => lhs + rhs + carryWord flags.of

def flags (op : LimbOp) (lhs rhs : U64) (flags : Flags) : Flags :=
  let result := op.result lhs rhs flags
  match op with
  | .add => addFlags lhs rhs result 64
  | .adc => adcFlags lhs rhs (carryWord flags.cf) result 64
  | .sub => subFlags lhs rhs result 64
  | .sbb => sbbFlags lhs rhs (carryWord flags.cf) result 64
  | .adcx => { flags with cf := carryOut (2 ^ 64) lhs.toNat rhs.toNat flags.cf }
  | .adox => { flags with of := lhs.msb == rhs.msb && lhs.msb != result.msb }

end LimbOp

/-- One limb of a program: the code that fetches the operands, where they are
when the limb is reached, and their values there. -/
structure Limb (P : Platform) where
  glue : List (IrInstruction P)
  dst : Register
  src : CompareOperand
  lhs : U64
  rhs : U64

/-- The operands of the limb are in place. -/
structure Limb.Ready (limb : Limb P) (m : Machine P) : Prop where
  wide : m.cpu.arch = .x64
  dst : m.cpu.get limb.dst = limb.lhs
  src : readCompareOperand m limb.src 8 = .ok limb.rhs

section Limbs
variable {limb : Limb P}

theorem Limb.Ready.settle (ready : limb.Ready m) : limb.Ready m.settle where
  wide := by rw [Machine.settle, CpuState.materializeFlags_arch, ready.wide]
  dst := by rw [Machine.settle, CpuState.materializeFlags_get, ready.dst]
  src := by rw [settle_readCompareOperand, ready.src]

theorem and_widthMask_qword : x &&& widthMask 8 = x := and_allOnes

theorem get_set_x64 {s : CpuState} (wide : s.arch = .x64) : (s.set reg value).get reg = value := by
  rw [CpuState.get_set_self, wide]
  exact and_allOnes

/-- The 128-bit sum of the source does not wrap. -/
theorem wide_sum (lhs rhs : U64) (carry : Bool) :
    (lhs.setWidth 128 + rhs.setWidth 128 + (carryWord carry).setWidth 128).toNat =
      lhs.toNat + rhs.toNat + carry.toNat := by
  have bit := carry.toNat_le
  rw [toNat_add, toNat_add, toNat_setWidth_of_le (by decide),
    toNat_setWidth_of_le (by decide), toNat_setWidth_of_le (by decide), toNat_carryWord]
  omega

theorem wide_carry (lhs rhs : U64) (carry : Bool) :
    ((allOnes 64).setWidth 128).ult
      (lhs.setWidth 128 + rhs.setWidth 128 + (carryWord carry).setWidth 128) =
        carryOut (2 ^ 64) lhs.toNat rhs.toNat carry := by
  have ones : ((allOnes 64).setWidth 128).toNat = 2 ^ 64 - 1 := by decide
  rw [ult, wide_sum, carryOut, decide_eq_decide]
  omega

/-- What a limb instruction leaves of the machine. -/
def afterLimb (limb : Limb P) (op : LimbOp) (m : Machine P) : Machine P :=
  { m with cpu := { m.cpu.set limb.dst (op.result limb.lhs limb.rhs m.cpu.flags) with
    flags := op.flags limb.lhs limb.rhs m.cpu.flags } }

theorem aluOperand_run (op : AluOp) (ready : limb.Ready m) :
    (aluOperand op limb.dst limb.src 8).run m = .ok () { m with cpu :=
      { m.cpu.set limb.dst (op.result limb.lhs limb.rhs m.cpu.flags.cf) with
        flags := op.flags limb.lhs limb.rhs (op.result limb.lhs limb.rhs m.cpu.flags.cf) m.cpu.flags.cf 64 } } := by
  rw [aluOperand, readOperand_bind ready.src, aluRegister, cpu, read_bind_run]
  dsimp only
  rw [and_widthMask_qword, and_widthMask_qword, and_widthMask_qword, ready.dst]
  rfl

theorem adcx_run (ready : limb.Ready m) :
    (adcx limb.dst limb.src 8).run m = .ok () (afterLimb limb .adcx m) := by
  rw [adcx, cpu, read_bind_run]
  dsimp only
  rw [readOperand_bind ready.src, and_widthMask_qword, and_widthMask_qword, and_widthMask_qword,
    ready.dst]
  simp only [widthMask, wide_carry]
  rfl

theorem sign_word : (x &&& signBit (widthBits 8) != 0) = x.msb := by
  have signed := sign_operand .qword x
  rwa [BitVec.setWidth_eq] at signed

theorem adox_run (ready : limb.Ready m) :
    (adox limb.dst limb.src 8).run m = .ok () (afterLimb limb .adox m) := by
  rw [adox, cpu, read_bind_run]
  dsimp only
  rw [readOperand_bind ready.src, and_widthMask_qword, and_widthMask_qword, and_widthMask_qword,
    ready.dst, sign_word, sign_word, sign_word]
  rfl

/-- A limb whose operands are in place is executed: its destination and the
flags change, and nothing else does. -/
theorem limb_run (host : Host P) (op : LimbOp) (ready : limb.Ready m) :
    (executeIr host [op.instruction limb.dst limb.src]).run m =
      .ok () (afterLimb limb op m.settle) := by
  have placed := ready.settle
  cases op with
  | add | adc | sub | sbb => exact (executeIr_single fun _ => rfl).trans (aluOperand_run _ placed)
  | adcx => exact (executeIr_single fun _ => rfl).trans (adcx_run placed)
  | adox => exact (executeIr_single fun _ => rfl).trans (adox_run placed)

theorem afterLimb_flags (limb : Limb P) (op : LimbOp) (m : Machine P) :
    (afterLimb limb op m.settle).cpu.currentFlags =
      op.flags limb.lhs limb.rhs m.cpu.currentFlags := by
  have settled : (afterLimb limb op m.settle).cpu.pendingFlags = none :=
    m.cpu.materializeFlags_pendingFlags
  rw [currentFlags_of_settled settled, ← settle_flags]
  rfl

theorem afterLimb_result (op : LimbOp) (ready : limb.Ready m) :
    (afterLimb limb op m.settle).cpu.get limb.dst =
      op.result limb.lhs limb.rhs m.cpu.currentFlags := by
  rw [← settle_flags]
  exact get_set_x64 ready.settle.wide

end Limbs

/-! ## Programs over limbs -/

/-- Run a program limb by limb and collect what each limb leaves in its destination. -/
def runLimbs (host : Host P) : List (LimbOp × Limb P) → Step P (List U64)
  | [] => pure []
  | (op, limb) :: rest => do
    executeIr host limb.glue
    executeIr host [op.instruction limb.dst limb.src]
    let s ← cpu
    let results ← runLimbs host rest
    pure (s.get limb.dst :: results)

/-- Along the run, the code before a limb returns, keeps the flags that `kept`
looks at, and puts the operands of the limb in place. -/
def Supplied (host : Host P) (kept : Flags → β) : List (LimbOp × Limb P) → Machine P → Prop
  | [], _ => True
  | (op, limb) :: rest, m =>
    ∃ u, (executeIr host limb.glue).run m = .ok () u ∧ limb.Ready u ∧
      kept u.cpu.currentFlags = kept m.cpu.currentFlags ∧
      ∀ t, (executeIr host [op.instruction limb.dst limb.src]).run u = .ok () t → Supplied host kept rest t

/-- The flags and results of a run, with the machine left out. -/
inductive LimbTrace (kept : Flags → β) : Flags → List (LimbOp × Limb P) → List U64 → Flags → Prop where
  | nil (flags : Flags) : LimbTrace kept flags [] [] flags
  | cons {before here after : Flags} {op : LimbOp} {limb : Limb P} {rest : List (LimbOp × Limb P)}
      {results : List U64} : kept here = kept before →
      LimbTrace kept (op.flags limb.lhs limb.rhs here) rest results after →
      LimbTrace kept before ((op, limb) :: rest) (op.result limb.lhs limb.rhs here :: results) after

theorem runLimbs_trace (supplied : Supplied host kept steps m) :
    ∃ results t, (runLimbs host steps).run m = .ok results t ∧
      LimbTrace kept m.cpu.currentFlags steps results t.cpu.currentFlags := by
  induction steps generalizing m with
  | nil => exact ⟨[], m, rfl, .nil _⟩
  | cons step rest ih =>
    obtain ⟨op, limb⟩ := step
    obtain ⟨u, glued, ready, same, after⟩ := supplied
    have ran := limb_run host op ready
    obtain ⟨results, t, finished, trace⟩ := ih (after _ ran)
    rw [afterLimb_flags] at trace
    refine ⟨_, t, ?_, .cons same trace⟩
    rw [runLimbs, bind_of_ok glued, bind_of_ok ran, cpu, read_bind_run]
    dsimp only
    rw [bind_of_ok finished, afterLimb_result op ready]
    rfl

/-! ## Straight-line programs

Without code between the limbs, operands that no earlier limb overwrites are in
place when their limb is reached, and the results are still there at the end. -/

/-- No limb writes the destination or an operand of a later one. -/
def Independent (steps : List (LimbOp × Limb P)) : Prop :=
  steps.Pairwise fun earlier later => later.2.dst ≠ earlier.2.dst ∧ later.2.src.Avoids earlier.2.dst

section StraightLine
variable {other : Limb P}

theorem afterLimb_get_of_ne (distinct : reg ≠ limb.dst) :
    (afterLimb limb op m).cpu.get reg = m.cpu.get reg :=
  m.cpu.get_set_of_ne limb.dst _ distinct

theorem afterLimb_read (avoids : src.Avoids limb.dst) :
    readCompareOperand (afterLimb limb op m) src bytes = readCompareOperand m src bytes := by
  apply readCompareOperand_congr
  · rfl
  · rfl
  · rfl
  · exact fun reg read => afterLimb_get_of_ne fun same => read (same ▸ avoids)

theorem Limb.Ready.afterLimb (ready : other.Ready m) (distinct : other.dst ≠ limb.dst)
    (avoids : other.src.Avoids limb.dst) : other.Ready (afterLimb limb op m) where
  wide := ready.wide
  dst := (afterLimb_get_of_ne distinct).trans ready.dst
  src := (afterLimb_read avoids).trans ready.src

/-- Independent limbs whose operands are in place at the start find them in place. -/
theorem straight_supplied (independent : Independent steps)
    (ready : ∀ step ∈ steps, step.2.glue = [] ∧ step.2.Ready m) : Supplied host kept steps m := by
  induction steps generalizing m with
  | nil => trivial
  | cons step rest ih =>
    obtain ⟨op, limb⟩ := step
    obtain ⟨first, later⟩ := pairwise_cons.mp independent
    obtain ⟨empty, here⟩ := ready _ mem_cons_self
    refine ⟨m.settle, ?_, here.settle, ?_, fun t ran => ih later fun next member => ?_⟩
    · rw [empty]
      rfl
    · rw [settle_currentFlags]
    · obtain ⟨empty, there⟩ := ready next (mem_cons_of_mem _ member)
      obtain ⟨distinct, avoids⟩ := first next member
      rw [limb_run host op here.settle] at ran
      cases ran
      exact ⟨empty, there.settle.settle.afterLimb distinct avoids⟩

end StraightLine

/-! ## One limb as arithmetic -/

section Words
variable (lhs rhs : U64) (flags : Flags)

theorem toNat_add_carry (carry : Bool) :
    (lhs + rhs + carryWord carry).toNat = (lhs.toNat + rhs.toNat + carry.toNat) % 2 ^ 64 := by
  rw [toNat_add, toNat_add, toNat_carryWord, Nat.mod_add_mod]

theorem add_limb :
    (LimbOp.add.result lhs rhs flags).toNat = (lhs.toNat + rhs.toNat + false.toNat) % 2 ^ 64 ∧
    (LimbOp.add.flags lhs rhs flags).cf = carryOut (2 ^ 64) lhs.toNat rhs.toNat false := by
  have sum : (lhs + rhs).toNat = (lhs.toNat + rhs.toNat) % 2 ^ 64 := toNat_add _ _
  refine ⟨sum, ?_⟩
  simp only [LimbOp.flags, LimbOp.result, addFlags, ult, sum, carryOut, Bool.toNat_false,
    decide_eq_decide]
  omega

theorem adc_limb :
    (LimbOp.adc.result lhs rhs flags).toNat = (lhs.toNat + rhs.toNat + flags.cf.toNat) % 2 ^ 64 ∧
    (LimbOp.adc.flags lhs rhs flags).cf = carryOut (2 ^ 64) lhs.toNat rhs.toNat flags.cf :=
  ⟨toNat_add_carry lhs rhs flags.cf, wide_carry lhs rhs flags.cf⟩

/-- A borrow chain read upwards: the difference and the subtrahend add up to
the minuend, and the carry of that sum is the borrow. -/
theorem difference_limb (borrow : Bool) :
    lhs.toNat = ((lhs - rhs - carryWord borrow).toNat + rhs.toNat + borrow.toNat) % 2 ^ 64 ∧
      decide (lhs.toNat < rhs.toNat + borrow.toNat) =
        carryOut (2 ^ 64) (lhs - rhs - carryWord borrow).toNat rhs.toNat borrow := by
  have word := toNat_carryWord borrow
  simp only [carryOut, decide_eq_decide, BitVec.toNat_sub]
  omega

theorem sub_limb :
    lhs.toNat = ((LimbOp.sub.result lhs rhs flags).toNat + rhs.toNat + false.toNat) % 2 ^ 64 ∧
    (LimbOp.sub.flags lhs rhs flags).cf =
      carryOut (2 ^ 64) (LimbOp.sub.result lhs rhs flags).toNat rhs.toNat false := by
  have difference := difference_limb lhs rhs false
  rw [carryWord] at difference
  simpa [LimbOp.result, LimbOp.flags, subFlags, ult] using difference

theorem sbb_limb :
    lhs.toNat = ((LimbOp.sbb.result lhs rhs flags).toNat + rhs.toNat + flags.cf.toNat) % 2 ^ 64 ∧
    (LimbOp.sbb.flags lhs rhs flags).cf =
      carryOut (2 ^ 64) (LimbOp.sbb.result lhs rhs flags).toNat rhs.toNat flags.cf := by
  obtain ⟨sum, borrow⟩ := difference_limb lhs rhs flags.cf
  have bit := flags.cf.toNat_le
  have wide : (rhs.setWidth 128 + (carryWord flags.cf).setWidth 128).toNat =
      rhs.toNat + flags.cf.toNat := by
    rw [toNat_add, toNat_setWidth_of_le (by decide), toNat_setWidth_of_le (by decide),
      toNat_carryWord]
    omega
  refine ⟨sum, Eq.trans ?_ borrow⟩
  simp [LimbOp.flags, sbbFlags, ult, wide, toNat_setWidth_of_le (show 64 ≤ 128 by decide)]

end Words

/-! ## Multi-word sums and differences -/

/-- The number a list of limbs stands for, least significant limb first. -/
def limbsValue (words : List U64) : Nat := Nat.ofDigits (2 ^ 64) (words.map BitVec.toNat)

inductive WordChain where
  | sum
  | difference

namespace WordChain

/-- ADD and then ADC, or SUB and then SBB. -/
def steps (chain : WordChain) (first : Limb P) (rest : List (Limb P)) : List (LimbOp × Limb P) :=
  match chain with
  | .sum => (.add, first) :: rest.map (.adc, ·)
  | .difference => (.sub, first) :: rest.map (.sbb, ·)

/-- The results are the limbs of the exact value modulo the word size, and the
flag is what the value carries or borrows beyond them. -/
def Exact (chain : WordChain) (lhs rhs results : List U64) (flag : Bool) : Prop :=
  results.length = lhs.length ∧
    match chain with
    | .sum =>
      limbsValue results = (limbsValue lhs + limbsValue rhs) % 2 ^ (64 * lhs.length) ∧
        flag = decide (2 ^ (64 * lhs.length) ≤ limbsValue lhs + limbsValue rhs)
    | .difference =>
      (limbsValue results : Int) = (limbsValue lhs - limbsValue rhs : Int) % 2 ^ (64 * lhs.length) ∧
        flag = decide (limbsValue lhs < limbsValue rhs)

end WordChain

section Chains
variable {limbs : List (Limb P)} {after : Flags}

def operands (limbs : List (Limb P)) : List (Nat × Nat) :=
  limbs.map fun limb => (limb.lhs.toNat, limb.rhs.toNat)

theorem adc_run (trace : LimbTrace Flags.cf before (limbs.map (.adc, ·)) results after) :
    AddRun (2 ^ 64) (carryOut (2 ^ 64)) before.cf (operands limbs) (results.map toNat) after.cf := by
  induction limbs generalizing before results with
  | nil => cases trace; exact .nil _
  | cons limb limbs ih =>
    cases trace with
    | @cons _ here _ _ _ _ results same rest =>
      obtain ⟨sum, carry⟩ := adc_limb limb.lhs limb.rhs here
      have tail := ih rest
      rw [carry] at tail
      rw [← same, map_cons, sum]
      exact .cons tail

/-- The results and the subtrahends, which add up to the minuends. -/
def differences (results : List U64) (limbs : List (Limb P)) : List (Nat × Nat) :=
  List.zipWith (fun result limb => (result.toNat, limb.rhs.toNat)) results limbs

theorem sbb_run (trace : LimbTrace Flags.cf before (limbs.map (.sbb, ·)) results after) :
    AddRun (2 ^ 64) (carryOut (2 ^ 64)) before.cf (differences results limbs)
      (limbs.map (·.lhs.toNat)) after.cf := by
  induction limbs generalizing before results with
  | nil => cases trace; exact .nil _
  | cons limb limbs ih =>
    cases trace with
    | @cons _ here _ _ _ _ results same rest =>
      obtain ⟨sum, borrow⟩ := sbb_limb limb.lhs limb.rhs here
      have tail := ih rest
      rw [borrow] at tail
      rw [← same, map_cons, sum]
      exact .cons tail

theorem LimbTrace.length (trace : LimbTrace kept before steps results after) :
    results.length = steps.length := by
  induction trace with
  | nil => rfl
  | cons _ _ ih => rw [length_cons, length_cons, ih]

theorem operands_lt (limbs : List (Limb P)) :
    ∀ p ∈ operands limbs, p.1 < 2 ^ 64 ∧ p.2 < 2 ^ 64 := by
  intro p member
  obtain ⟨limb, _, rfl⟩ := mem_map.mp member
  exact ⟨limb.lhs.isLt, limb.rhs.isLt⟩

theorem differences_lt (results : List U64) (limbs : List (Limb P)) :
    ∀ p ∈ differences results limbs, p.1 < 2 ^ 64 ∧ p.2 < 2 ^ 64 := by
  intro p member
  rw [differences, ← map_uncurry_zip_eq_zipWith] at member
  obtain ⟨pair, _, rfl⟩ := mem_map.mp member
  exact ⟨pair.1.isLt, pair.2.rhs.isLt⟩

theorem differences_eq :
    differences results limbs = (results.map toNat).zip (limbs.map (·.rhs.toNat)) :=
  List.zipWith_map.symm

theorem differences_fst (same : results.length = limbs.length) :
    (differences results limbs).map (·.1) = results.map toNat := by
  rw [differences_eq]
  exact List.map_fst_zip (by simp [same])

theorem differences_snd (same : results.length = limbs.length) :
    (differences results limbs).map (·.2) = limbs.map (·.rhs.toNat) := by
  rw [differences_eq]
  exact List.map_snd_zip (by simp [same])

theorem operands_fst (limbs : List (Limb P)) :
    (operands limbs).map (·.1) = (limbs.map (·.lhs)).map toNat := by
  simp [operands]

theorem operands_snd (limbs : List (Limb P)) :
    (operands limbs).map (·.2) = (limbs.map (·.rhs)).map toNat := by
  simp [operands]

/-- Exact addition of limb lists, over the numbers the limbs stand for. -/
theorem exact_operands :
    Limbs.Exact (2 ^ 64) (operands limbs) carry (results.map toNat) flag ↔
      limbsValue results =
          (limbsValue (limbs.map (·.lhs)) + limbsValue (limbs.map (·.rhs)) + carry.toNat) % 2 ^ (64 * limbs.length) ∧
        flag = decide (2 ^ (64 * limbs.length) ≤
          limbsValue (limbs.map (·.lhs)) + limbsValue (limbs.map (·.rhs)) + carry.toNat) := by
  have length : (operands limbs).length = limbs.length := length_map _
  have sum : total (2 ^ 64) (operands limbs) carry =
      limbsValue (limbs.map (·.lhs)) + limbsValue (limbs.map (·.rhs)) + carry.toNat := by
    rw [total, operands_fst, operands_snd]
    rfl
  rw [Limbs.Exact, sum, length, ← pow_mul]
  rfl

theorem sum_of_run (length : results.length = limbs.length)
    (run : AddRun (2 ^ 64) (carryOut (2 ^ 64)) false (operands limbs) (results.map toNat) flag) :
    WordChain.sum.Exact (limbs.map (·.lhs)) (limbs.map (·.rhs)) results flag := by
  have exact := exact_operands.mp (run.exact (by decide) (operands_lt limbs))
  rw [WordChain.Exact, length_map]
  exact ⟨length, exact⟩

theorem difference_of_run (length : results.length = limbs.length)
    (run : AddRun (2 ^ 64) (carryOut (2 ^ 64)) false (differences results limbs) (limbs.map (·.lhs.toNat)) flag) :
    WordChain.difference.Exact (limbs.map (·.lhs)) (limbs.map (·.rhs)) results flag := by
  have digits := differences_lt results limbs
  have exact := (run.exact (by decide) digits).difference (by decide) digits
  have count : (differences results limbs).length = limbs.length := by
    rw [differences, length_zipWith, length, Nat.min_self]
  have minuends : limbs.map (·.lhs.toNat) = (limbs.map (·.lhs)).map toNat := by
    rw [map_map]
    rfl
  have subtrahends : limbs.map (·.rhs.toNat) = (limbs.map (·.rhs)).map toNat := by
    rw [map_map]
    rfl
  rw [differences_fst length, differences_snd length, count, minuends, subtrahends,
    ← pow_mul] at exact
  rw [WordChain.Exact, length_map]
  exact ⟨length, by simpa [limbsValue] using exact⟩

end Chains

/-- A multi-word addition or subtraction of any length returns with the exact
value modulo the word size, and with the carry or borrow beyond it in CF. -/
theorem multiword_exact (host : Host P) (chain : WordChain) (first : Limb P) (rest : List (Limb P))
    (m : Machine P) (supplied : Supplied host Flags.cf (chain.steps first rest) m) :
    ∃ results t, (runLimbs host (chain.steps first rest)).run m = .ok results t ∧
      chain.Exact ((first :: rest).map (·.lhs)) ((first :: rest).map (·.rhs)) results
        t.cpu.currentFlags.cf := by
  obtain ⟨results, t, ran, trace⟩ := runLimbs_trace supplied
  refine ⟨results, t, ran, ?_⟩
  have length := trace.length
  cases chain with
  | sum =>
    refine sum_of_run (by simpa [WordChain.steps] using length) ?_
    cases trace with
    | @cons _ here _ _ _ _ results _ trace =>
      obtain ⟨sum, carry⟩ := add_limb first.lhs first.rhs here
      have tail := adc_run trace
      rw [carry] at tail
      exact .cons tail
  | difference =>
    refine difference_of_run (by simpa [WordChain.steps] using length) ?_
    cases trace with
    | @cons _ here _ _ _ _ results _ trace =>
      obtain ⟨sum, borrow⟩ := sub_limb first.lhs first.rhs here
      have tail := sbb_run trace
      rw [borrow] at tail
      rw [List.map_cons, sum]
      exact .cons tail

/-- `2^64 - 1` and `1` in RAX and RBX, and the limbs above them in RCX and RDX. -/
def twoLimbs : Machine barePlatform :=
  bareMachine .x64 (fun | .rax => -1 | .rbx => 1 | .rcx => 5 | .rdx => 6 | _ => 0) []

def lowLimb : Limb barePlatform := ⟨[], .rax, .register .rbx, -1, 1⟩

def highLimb : Limb barePlatform := ⟨[], .rcx, .register .rdx, 5, 6⟩

theorem twoLimbs_supplied : Supplied bareHost kept [(low, lowLimb), (high, highLimb)] twoLimbs := by
  apply straight_supplied
  · simp [Independent, CompareOperand.Avoids, lowLimb, highLimb]
  · simp only [mem_cons, not_mem_nil, or_false, forall_eq_or_imp, forall_eq]
    exact ⟨⟨rfl, rfl, rfl, rfl⟩, rfl, rfl, rfl, rfl⟩

theorem multiword_exact_two_limbs :
    ∃ results t,
      (runLimbs bareHost (WordChain.sum.steps lowLimb [highLimb])).run twoLimbs = .ok results t ∧
      WordChain.sum.Exact [-1, 5] [1, 6] results t.cpu.currentFlags.cf :=
  multiword_exact bareHost .sum lowLimb [highLimb] twoLimbs twoLimbs_supplied

end Casa.Cpu
