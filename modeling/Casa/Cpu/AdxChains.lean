import Casa.Cpu.CarryChains

/-! Two carry chains at once. ADCX and ADOX are meant to link two independent
additions, one through CF and one through OF, in any interleaving; the
interpreter sets OF to the signed overflow of the limb instead of its carry. -/
namespace Casa.Cpu
open Effect Limbs
variable {P : Platform}

inductive AdxChain where
  | adcx
  | adox
  deriving DecidableEq

namespace AdxChain

def op : AdxChain → LimbOp
  | .adcx => .adcx
  | .adox => .adox

def flag (chain : AdxChain) (flags : Flags) : Bool :=
  match chain with
  | .adcx => flags.cf
  | .adox => flags.of

/-- The part of an interleaving that belongs to one chain. -/
def select (chain : AdxChain) (steps : List (AdxChain × α)) : List α :=
  (steps.filter (·.1 = chain)).map (·.2)

theorem select_cons_self (chain : AdxChain) :
    chain.select ((chain, a) :: steps) = a :: chain.select steps := by
  simp [select]

theorem select_cons_of_ne {other : AdxChain} (distinct : other ≠ chain) :
    chain.select ((other, a) :: steps) = chain.select steps := by
  simp [select, distinct]

end AdxChain

def interleaved (steps : List (AdxChain × Limb P)) : List (LimbOp × Limb P) :=
  steps.map fun step => (step.1.op, step.2)

/-- The results of a run, each with the chain it belongs to. -/
def tagged (steps : List (AdxChain × Limb P)) (results : List U64) : List (AdxChain × U64) :=
  (steps.map (·.1)).zip results

theorem tagged_cons :
    tagged ((chain, limb) :: steps) (result :: results) =
      (chain, result) :: tagged steps results := rfl

/-! ## The rule for OF -/

def overflowOut (x y : Nat) (c : Bool) : Bool :=
  decide (2 ^ 63 ≤ x) == decide (2 ^ 63 ≤ y) &&
    decide (2 ^ 63 ≤ x) != decide (2 ^ 63 ≤ (x + y + c.toNat) % 2 ^ 64)

/-- Overflow and carry agree exactly where nothing is carried into the top bit. -/
theorem overflowOut_iff (left : x < 2 ^ 64) (right : y < 2 ^ 64) :
    overflowOut x y c = carryOut (2 ^ 64) x y c ↔ x % 2 ^ 63 + y % 2 ^ 63 + c.toNat < 2 ^ 63 := by
  have bit := c.toNat_le
  simp only [overflowOut, carryOut]
  -- the two top bits, the top bit of the result and the carry decide both flags
  by_cases negative : 2 ^ 63 ≤ x <;> by_cases negative' : 2 ^ 63 ≤ y <;>
    by_cases result : 2 ^ 63 ≤ (x + y + c.toNat) % 2 ^ 64 <;> by_cases carries : 2 ^ 64 ≤ x + y + c.toNat <;>
    simp only [carries] <;> simp <;> omega

/-- No limb of the sum carries into its top bit. -/
def NoTopCarry : Bool → List (Nat × Nat) → Prop
  | _, [] => True
  | c, (x, y) :: ps =>
    x % 2 ^ 63 + y % 2 ^ 63 + c.toNat < 2 ^ 63 ∧ NoTopCarry (carryOut (2 ^ 64) x y c) ps

theorem agrees_overflowOut_iff (digits : ∀ p ∈ ps, p.1 < 2 ^ 64 ∧ p.2 < 2 ^ 64) (c : Bool) :
    Agrees (2 ^ 64) overflowOut c ps ↔ NoTopCarry c ps := by
  induction ps generalizing c with
  | nil => exact Iff.rfl
  | cons p ps ih =>
    obtain ⟨left, right⟩ := digits p List.mem_cons_self
    exact and_congr (overflowOut_iff left right)
      (ih (fun q member => digits q (List.mem_cons_of_mem _ member)) _)

/-! ## Both chains along a run -/

theorem adcx_limb :
    (LimbOp.adcx.result lhs rhs flags).toNat = (lhs.toNat + rhs.toNat + flags.cf.toNat) % 2 ^ 64 :=
  toNat_add_carry lhs rhs flags.cf

theorem adox_limb :
    (LimbOp.adox.result lhs rhs flags).toNat = (lhs.toNat + rhs.toNat + flags.of.toNat) % 2 ^ 64 ∧
      (LimbOp.adox.flags lhs rhs flags).of = overflowOut lhs.toNat rhs.toNat flags.of := by
  have sum : (LimbOp.adox.result lhs rhs flags).toNat =
      (lhs.toNat + rhs.toNat + flags.of.toNat) % 2 ^ 64 :=
    toNat_add_carry lhs rhs flags.of
  refine ⟨sum, ?_⟩
  simp [LimbOp.flags, BitVec.msb_eq_decide, sum, overflowOut]

/-- Each chain is a run over its own limbs through its own flag, and no other
flag changes. -/
theorem adx_runs (trace : LimbTrace id before (interleaved steps) results after) :
    AddRun (2 ^ 64) (carryOut (2 ^ 64)) before.cf (operands (AdxChain.adcx.select steps))
        ((AdxChain.adcx.select (tagged steps results)).map BitVec.toNat) after.cf ∧
      AddRun (2 ^ 64) overflowOut before.of (operands (AdxChain.adox.select steps))
        ((AdxChain.adox.select (tagged steps results)).map BitVec.toNat) after.of ∧
      after = { before with cf := after.cf, of := after.of } := by
  induction steps generalizing before results with
  | nil =>
    cases trace
    exact ⟨.nil _, .nil _, rfl⟩
  | cons step steps ih =>
    obtain ⟨chain, limb⟩ := step
    cases trace with
    | @cons _ here _ _ _ _ results same rest =>
      obtain rfl : here = before := same
      obtain ⟨carries, overflows, kept⟩ := ih rest
      cases chain with
      | adcx =>
        refine ⟨?_, overflows, kept⟩
        rw [tagged_cons, AdxChain.select_cons_self, AdxChain.select_cons_self, List.map_cons, AdxChain.op, adcx_limb]
        exact .cons carries
      | adox =>
        refine ⟨carries, ?_, kept⟩
        obtain ⟨sum, flag⟩ := adox_limb
        rw [AdxChain.op, flag] at overflows
        rw [tagged_cons, AdxChain.select_cons_self, AdxChain.select_cons_self, List.map_cons, AdxChain.op, sum]
        exact .cons overflows

theorem select_tagged_length (chain : AdxChain) (same : results.length = steps.length) :
    (chain.select (tagged steps results)).length = (chain.select steps).length := by
  induction steps generalizing results with
  | nil => rfl
  | cons step steps ih =>
    obtain _ | ⟨result, results⟩ := results
    · cases same
    · obtain ⟨other, limb⟩ := step
      have rest := ih (Nat.succ.inj same)
      rw [tagged_cons]
      by_cases mine : other = chain
      · subst mine
        rw [AdxChain.select_cons_self, AdxChain.select_cons_self, List.length_cons, List.length_cons, rest]
      · rw [AdxChain.select_cons_of_ne mine, AdxChain.select_cons_of_ne mine, rest]

/-- The results are the limbs of the exact sum of the operands and the incoming
carry, and the flag is its carry out. -/
def ChainExact (limbs : List (Limb P)) (results : List U64) (before after : Bool) : Prop :=
  results.length = limbs.length ∧
    limbsValue results =
      (limbsValue (limbs.map (·.lhs)) + limbsValue (limbs.map (·.rhs)) + before.toNat) %
      2 ^ (64 * limbs.length) ∧
    after = decide (2 ^ (64 * limbs.length) ≤
      limbsValue (limbs.map (·.lhs)) + limbsValue (limbs.map (·.rhs)) + before.toNat)

theorem chainExact_iff (length : results.length = limbs.length) :
    ChainExact limbs results before after ↔
      Limbs.Exact (2 ^ 64) (operands limbs) before (results.map BitVec.toNat) after := by
  rw [exact_operands]
  exact and_iff_right length

/-- Any interleaving of an ADCX chain and an ADOX chain returns with both sums
exact and every other flag untouched, if and only if no limb of the ADOX chain
carries into its top bit. -/
theorem adx_exact_iff (host : Host P) (steps : List (AdxChain × Limb P)) (m : Machine P)
    (supplied : Supplied host id (interleaved steps) m) :
    (∃ results t, (runLimbs host (interleaved steps)).run m = .ok results t ∧
        (∀ chain : AdxChain, ChainExact (chain.select steps) (chain.select (tagged steps results))
          (chain.flag m.cpu.currentFlags) (chain.flag t.cpu.currentFlags)) ∧
        t.cpu.currentFlags = { m.cpu.currentFlags with
          cf := t.cpu.currentFlags.cf, of := t.cpu.currentFlags.of }) ↔
      NoTopCarry m.cpu.currentFlags.of (operands (AdxChain.adox.select steps)) := by
  obtain ⟨results, t, ran, trace⟩ := runLimbs_trace supplied
  have length : results.length = steps.length := by
    rw [trace.length, interleaved, List.length_map]
  obtain ⟨carries, overflows, kept⟩ := adx_runs trace
  have adox := overflows.exact_iff (by decide) (operands_lt _)
  rw [agrees_overflowOut_iff (operands_lt _),
    ← chainExact_iff (select_tagged_length .adox length)] at adox
  rw [← adox]
  constructor
  · rintro ⟨results', t', ran', exact, -⟩
    cases ran.symm.trans ran'
    exact exact .adox
  · intro exact
    refine ⟨results, t, ran, fun chain => ?_, kept⟩
    cases chain with
    | adcx =>
      exact (chainExact_iff (select_tagged_length .adcx length)).mpr (carries.exact (by decide) (operands_lt _))
    | adox => exact exact

/-- One limb of each chain, of which only the ADCX limb carries. -/
theorem adx_exact_at_two_limbs :
    (∃ results t, (runLimbs bareHost (interleaved [(.adcx, lowLimb), (.adox, highLimb)])).run twoLimbs =
          .ok results t ∧
        (∀ chain : AdxChain, ChainExact (chain.select [(.adcx, lowLimb), (.adox, highLimb)])
          (chain.select (tagged [(.adcx, lowLimb), (.adox, highLimb)] results))
          (chain.flag twoLimbs.cpu.currentFlags) (chain.flag t.cpu.currentFlags)) ∧
        t.cpu.currentFlags = { twoLimbs.cpu.currentFlags with
          cf := t.cpu.currentFlags.cf, of := t.cpu.currentFlags.of }) ↔
      NoTopCarry twoLimbs.cpu.currentFlags.of (operands [highLimb]) :=
  adx_exact_iff bareHost [(.adcx, lowLimb), (.adox, highLimb)] twoLimbs
    twoLimbs_supplied

/-- `(2^64 - 1 + 5 * 2^64) + (1 + 6 * 2^64)` by ADOX: the low limb carries without
a signed overflow, and the high limb misses the carry. -/
theorem adox_loses_carry :
    limbsValue [-1, 5] + limbsValue [1, 6] = limbsValue [0, 12] ∧
      ∃ t, (runLimbs bareHost (interleaved [(.adox, lowLimb), (.adox, highLimb)])).run twoLimbs = .ok [0, 11] t :=
  ⟨by decide, _, rfl⟩

end Casa.Cpu
