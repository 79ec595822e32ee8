import Casa.Cpu.Operand

/-! What becomes of the arithmetic flags that an instruction finds. Flags are dead where
every instruction to come goes through whatever they are, up to one that sets them all. -/
namespace Casa.Cpu
open Effect MachineInt
variable {P : Platform}

def Machine.withFlags (m : Machine P) (flags : Flags) : Machine P :=
  { m with cpu := { m.cpu with flags } }

def Machine.withRegister (m : Machine P) (dst : Register) (word : U64) : Machine P :=
  { m with cpu := { m.cpu with gpr := Function.update m.cpu.gpr dst word } }

/-- The run goes through from every setting of the flags, and each ends with the flags it began with. -/
def FlagsKept (arm : Step P Unit) (m : Machine P) : Prop :=
  ∃ t : Machine P, ∀ flags, arm.run (m.withFlags flags) = .ok () (t.withFlags flags)

/-- The run goes through from every setting of the flags, to the same end. -/
def FlagsDefined (arm : Step P Unit) (m : Machine P) : Prop :=
  ∃ t : Machine P, ∀ flags, arm.run (m.withFlags flags) = .ok () t

/-- The run goes through from every setting of the flags, to ends that differ in the flags at most. -/
def FlagsUnread (arm : Step P Unit) (m t : Machine P) : Prop :=
  ∀ flags, ∃ after, arm.run (m.withFlags flags) = .ok () (t.withFlags after)

/-- The instruction stops, or what it does beside the flags depends on them. -/
def ReadsFlags (host : Host P) (insn : IrInstruction P) (m : Machine P) : Prop :=
  ∀ t, ¬ FlagsUnread (executeIr host [insn]) m t

/-- The flags before the given rest of a program can be any. -/
def FlagsDead (host : Host P) : List (IrInstruction P) → Machine P → Prop
  | [], _ => False
  | insn :: rest, m => FlagsDefined (executeIr host [insn]) m ∨
      ∃ t, FlagsUnread (executeIr host [insn]) m t ∧ FlagsDead host rest t

section Dead
variable {host : Host P} {m : Machine P}

theorem FlagsDefined.unread (defined : FlagsDefined arm m) : ∃ t, FlagsUnread arm m t := by
  obtain ⟨t, ran⟩ := defined
  exact ⟨t, fun flags => ⟨t.cpu.flags, ran flags⟩⟩

theorem FlagsDead.unread (dead : FlagsDead host (insn :: rest) m) : ¬ ReadsFlags host insn m := by
  intro reads
  rcases dead with defined | ⟨t, unread, -⟩
  · exact defined.unread.elim reads
  · exact reads t unread

/-- Which flags a machine has does not matter to whether they are dead. -/
theorem FlagsDead.withFlags (dead : FlagsDead host rest m) (flags : Flags) :
    FlagsDead host rest (m.withFlags flags) := by
  cases rest with
  | nil => exact dead
  | cons => exact dead

/-- One instruction from two settings of dead flags: it sets the flags, or they are still dead. -/
theorem FlagsDead.step (dead : FlagsDead host (insn :: rest) m) (flags : Flags) :
    ∃ t after, (executeIr host [insn]).run m = .ok () t ∧
      (executeIr host [insn]).run (m.withFlags flags) = .ok () (t.withFlags after) ∧
      (after = t.cpu.flags ∨ FlagsDead host rest t) := by
  rcases dead with ⟨t, ran⟩ | ⟨t, unread, dead⟩
  · exact ⟨t, t.cpu.flags, ran m.cpu.flags, ran flags, .inl rfl⟩
  · obtain ⟨own, ran⟩ := unread m.cpu.flags
    obtain ⟨after, other⟩ := unread flags
    exact ⟨t.withFlags own, after, ran, other, .inr (dead.withFlags own)⟩

end Dead

/-! ## Arms -/

section Arms
variable {m : Machine P}

theorem movReg_refused (invalid : ¬ (width = 2 ∨ width = 4 ∨ width = 8)) :
    ∃ reason, (movReg dst src width).run m = .error reason m := by
  refine ⟨⟨.rcUnimplInsn, s!"unsupported mov reg width {width}", []⟩, ?_⟩
  refine (Exec.bind_of_ok (Exec.read_of_ok rfl)).trans
    ((Exec.bind_of_ok (Exec.read_of_ok rfl)).trans ?_)
  split
  · exact absurd (.inr (.inr rfl)) invalid
  · exact absurd (.inr (.inl rfl)) invalid
  · exact absurd (.inl rfl) invalid
  · rfl

theorem shiftRegister_idle {discard : CpuState → CpuState}
    (idle : shiftCount count (shiftBits width) = 0) :
    (shiftRegister op discard dst count width).run m = .ok () m :=
  (Exec.bind_of_ok (Exec.read_of_ok rfl)).trans
    (congrArg (fun f : Step P Unit => f.run m) (if_pos idle))

def shifted (op : ShiftOp) (s : CpuState) (dst : Register) (count : U8) (width : Nat) : CpuState :=
  let lhs := s.get dst &&& widthMask width
  let shift := shiftCount count (shiftBits width)
  let result := op.result lhs shift width
  { s.set dst (mergeRegisterResult (s.get dst) result width) with
    flags := op.flags lhs result shift (shiftBits width) }

theorem shiftRegister_shifts (shifts : shiftCount count (shiftBits width) ≠ 0) :
    (shiftRegister op FlagPolicy.eager.discard dst count width).run m =
      .ok () { m with cpu := shifted op m.cpu dst count width } :=
  (Exec.bind_of_ok (Exec.read_of_ok rfl)).trans
    (congrArg (fun f : Step P Unit => f.run m) (if_neg shifts))

theorem executeIr_settled_single {arm : Step P Unit}
    (runs : ∀ m, (executeHotArm .eager (executeColdOnce .eager host) insn).run m = arm.run m)
    (settled : m.cpu.pendingFlags = none) : (executeIr host [insn]).run m = arm.run m := by
  rw [executeIr_single runs, Machine.settle_of_settled settled]

end Arms

end Casa.Cpu
