import Casa.Cpu.Bare
import Casa.Cpu.Writes

/-! Parking the flags of an arithmetic instruction is invisible. Settling a
machine maps every state of the lazy interpreter to the state of the eager one,
and every arm of the hot path commutes with that map. -/
namespace Casa.Cpu
open Effect CpuState FlagPolicy Machine Exec

namespace CpuState

/-- The flags a guest would observe: the parked computation, if there is one. -/
def currentFlags (s : CpuState) : Flags :=
  match s.pendingFlags with
  | some parked => parked.evaluate
  | none => s.flags

theorem materializeFlags_eq (s : CpuState) :
    s.materializeFlags = { s with flags := s.currentFlags, pendingFlags := none } := by
  obtain ⟨⟩ := s
  unfold materializeFlags currentFlags
  dsimp only
  split
  · rfl
  · simp_all

variable (s : CpuState)

@[simp] theorem materializeFlags_get (reg : Register) : s.materializeFlags.get reg = s.get reg := by
  rw [materializeFlags_eq]
  rfl

@[simp] theorem materializeFlags_getByte (reg : ByteRegister) :
    s.materializeFlags.getByte reg = s.getByte reg := by
  rw [materializeFlags_eq]
  rfl

@[simp] theorem materializeFlags_arch : s.materializeFlags.arch = s.arch := by
  rw [materializeFlags_eq]

@[simp] theorem materializeFlags_pendingFlags : s.materializeFlags.pendingFlags = none := by
  rw [materializeFlags_eq]

theorem materializeFlags_of_settled (settled : s.pendingFlags = none) : s.materializeFlags = s := by
  rw [materializeFlags, settled]

end CpuState

@[simp] theorem resolveMemoryOperand_materialize (s : CpuState) (operand : MemoryOperand) :
    resolveMemoryOperand s.materializeFlags operand = resolveMemoryOperand s operand := by
  rw [s.materializeFlags_eq]
  rfl

/-- Install a parked flag computation, as the interpreter does before it returns. -/
def Machine.settle (m : Machine P) : Machine P := { m with cpu := m.cpu.materializeFlags }

theorem Machine.settle_of_settled {m : Machine P} (settled : m.cpu.pendingFlags = none) :
    m.settle = m := by
  rw [settle, materializeFlags_of_settled _ settled]

/-! ## Primitive steps -/

/-- A lazy step and the eager step it stands for. -/
abbrev Settles (P : Platform) (lazy eager : Step P α) : Prop :=
  Exec.Commutes Machine.settle lazy eager

/-- A step that is its own eager step. -/
abbrev Steady (P : Platform) (step : Step P α) : Prop := Settles P step step

theorem settles_cpu (rest : ∀ s : CpuState, Settles P (next s) (next' s.materializeFlags)) :
    Settles P (cpu >>= next) (cpu >>= next') :=
  fun m => rest m.cpu m

theorem settles_modifyCpu (step : ∀ s : CpuState, g s.materializeFlags = (f s).materializeFlags) :
    Settles P (modifyCpu f) (modifyCpu g) :=
  .modify fun m => by simp only [settle, step]

/-- An update that neither reads nor writes the flags. -/
theorem steady_modifyCpu (blind : ∀ (s : CpuState) flags, f { s with flags, pendingFlags := none } =
      { f s with flags, pendingFlags := none }) (keeps : ∀ s, (f s).currentFlags = s.currentFlags) :
    Steady P (modifyCpu f) :=
  settles_modifyCpu fun s => by rw [materializeFlags_eq, materializeFlags_eq, blind, keeps]

theorem settles_setReg (reg : Register) (value : U64) : Steady P (setReg reg value) :=
  steady_modifyCpu (fun _ _ => rfl) fun _ => rfl

theorem settles_mergeReg : Steady P (mergeReg reg value width) :=
  steady_modifyCpu (fun _ _ => rfl) fun _ => rfl

theorem settles_setByteReg : Steady P (setByteReg reg value) :=
  steady_modifyCpu (fun _ _ => rfl) fun _ => rfl

theorem settles_setRip : Steady P (setRip target) :=
  steady_modifyCpu (fun _ _ => rfl) fun _ => rfl

theorem settles_loadValue : Steady P (loadValue address width) :=
  .read fun _ => rfl

theorem settles_readOperand : Steady P (readOperand operand width) :=
  .read fun m => by
    cases operand <;> simp only [readCompareOperand, settle, materializeFlags_get,
      materializeFlags_getByte, resolveMemoryOperand_materialize]

theorem settles_storeValue : Steady P (storeValue address value width) :=
  .zoom (fun _ => rfl) fun _ _ => rfl

theorem settles_moveReg :
    Steady P (moveReg what dst value width) := by
  refine settles_cpu fun s => ?_
  rw [materializeFlags_get]
  split
  · exact settles_setReg _ _
  · exact settles_setReg _ _
  · exact settles_setReg _ _
  · exact .throw _

/-! ## Flag policies -/

theorem settles_add (lhs rhs result : U64) (bits : Nat) :
    Settles P (modifyCpu (lazy.add lhs rhs result bits))
      (modifyCpu (eager.add lhs rhs result bits)) :=
  settles_modifyCpu fun s => by
    simp only [lazy, eager, materializeFlags_eq, deferAddFlags,
      currentFlags, PendingFlags.evaluate, BitVec.toNat_ofNat]
    rw [addFlags_byte]

theorem settles_sub (lhs rhs result : U64) (bits : Nat) :
    Settles P (modifyCpu (lazy.sub lhs rhs result bits))
      (modifyCpu (eager.sub lhs rhs result bits)) :=
  settles_modifyCpu fun s => by
    simp only [lazy, eager, materializeFlags_eq, deferSubFlags,
      currentFlags, PendingFlags.evaluate, BitVec.toNat_ofNat]
    rw [subFlags_byte]

theorem settles_logic (result : U64) (bits : Nat) :
    Settles P (modifyCpu (lazy.logic result bits)) (modifyCpu (eager.logic result bits)) :=
  settles_modifyCpu fun s => by
    simp only [lazy, eager, materializeFlags_eq,
      deferLogicFlags, currentFlags, PendingFlags.evaluate, BitVec.toNat_ofNat]
    rw [logicFlags_byte]

/-- Behind a materialisation both interpreters run the same code on the same machine. -/
theorem settles_materialize_bind (regs : List Register) {next : Step P α}
    (framed : Exec.Relates (Frame regs) next) :
    Settles P (do modifyCpu lazy.materialize; next) (do modifyCpu eager.materialize; next) := by
  intro m
  have same : (next.run m.settle).mapState settle = next.run m.settle :=
    Outcome.mapState_of_fixed fun t ended =>
      settle_of_settled ((framed _ t ended).settled m.cpu.materializeFlags_pendingFlags)
  exact same.symm

/-- A dropped computation may leave stale flags, but what follows replaces them. -/
theorem settles_discard_setFlags {flags : Flags} :
    Settles P (do modifyCpu lazy.discard; setFlags flags)
      (do modifyCpu eager.discard; setFlags flags) := by
  intro m
  obtain ⟨⟨⟩, _, _⟩ := m
  simp [modifyCpu, setFlags, lazy, eager, settle, materializeFlags_eq, discardPendingFlags,
    currentFlags]

theorem settles_discard_unpack (value : U64) :
    Settles P (do modifyCpu lazy.discard; modifyCpu (·.unpackEflags value))
      (do modifyCpu eager.discard; modifyCpu (·.unpackEflags value)) := by
  intro m
  obtain ⟨⟨⟩, _, _⟩ := m
  simp [modifyCpu, lazy, eager, settle, materializeFlags_eq, discardPendingFlags, currentFlags,
    unpackEflags]

/-! ## Arms of the hot path -/

theorem hotAlu_settles
    (parks : ∀ lhs rhs result bits, Settles P (modifyCpu (park lhs rhs result bits)) (modifyCpu (park' lhs rhs result bits)))
    (rhs : U64) : Settles P (hotAlu op park dst rhs width) (hotAlu op park' dst rhs width) := by
  refine settles_cpu fun s => ?_
  simp only [materializeFlags_get]
  exact .bind settles_mergeReg fun _ => parks _ _ _ _

theorem hotLogic_settles :
    Settles P (hotLogic .lazy op dst rhs width) (hotLogic .eager op dst rhs width) :=
  hotAlu_settles (fun _ _ => settles_logic) rhs

theorem hotLogicOperand_settles : Settles P (hotLogicOperand .lazy op dst src width)
      (hotLogicOperand .eager op dst src width) :=
  .bind settles_readOperand fun _ => hotLogic_settles

theorem hotXorReg_settles :
    Settles P (hotXorReg .lazy dst src width) (hotXorReg .eager dst src width) := by
  refine settles_cpu fun s => ?_
  simp only [materializeFlags_get]
  exact .bind settles_readOperand fun _ => .bind settles_moveReg fun _ =>
    settles_logic _ _

theorem hotExplicitFlags_settles :
    Settles P (hotExplicitFlags .lazy op lhs rhs result width)
      (hotExplicitFlags .eager op lhs rhs result width) := by
  refine settles_cpu fun s => ?_
  simp only [materializeFlags_get]
  split
  · exact settles_add _ _ _ _
  · exact settles_sub _ _ _ _
  · exact settles_logic _ _
  · exact .throw _

theorem shiftRegister_settles :
    Settles P (shiftRegister op lazy.discard dst count width)
      (shiftRegister op eager.discard dst count width) := by
  refine settles_cpu fun s => ?_
  simp only [materializeFlags_get]
  exact .ite (.pure _) <| .bind settles_mergeReg fun _ => settles_discard_setFlags

theorem movReg_settles : Steady P (movReg dst src width) := by
  refine settles_cpu fun s => ?_
  rw [materializeFlags_get]
  exact settles_moveReg

theorem movReg8_settles : Steady P (movReg8 dst src) := by
  refine settles_cpu fun s => ?_
  rw [materializeFlags_getByte]
  exact settles_setByteReg

theorem spillStore_settles : Steady P (spillStore slot src) :=
  .ite (.throw _) <| steady_modifyCpu (fun _ _ => rfl) fun _ => rfl

theorem spillLoad_settles : Steady P (spillLoad slot dst) :=
  .ite (.throw _) <| steady_modifyCpu (fun _ _ => rfl) fun _ => rfl

theorem loadMemory_settles : Steady P (loadMemory dst address width) := by
  refine settles_cpu fun s => ?_
  rw [resolveMemoryOperand_materialize]
  exact .bind settles_loadValue fun _ => settles_mergeReg

theorem loadMemory8_settles :
    Steady P (loadMemory8 dst address) := by
  refine settles_cpu fun s => ?_
  rw [resolveMemoryOperand_materialize]
  exact .bind settles_loadValue fun _ => settles_setByteReg

theorem storeTo_settles (same : ∀ s : CpuState, value s.materializeFlags = value s) :
    Steady P (storeTo address value width) := by
  refine settles_cpu fun s => ?_
  rw [resolveMemoryOperand_materialize, same]
  exact settles_storeValue

theorem loadEffectiveAddress_settles :
    Steady P (loadEffectiveAddress dst address width) := by
  refine settles_cpu fun s => ?_
  rw [resolveMemoryOperand_materialize]
  exact settles_mergeReg

theorem pushHot_settles (same : ∀ s : CpuState, value s.materializeFlags = value s) :
    Steady P (pushHot width value) := by
  refine settles_cpu fun s => ?_
  simp only [pushSlot, materializeFlags_get]
  refine .bind (settles_setReg _ _) fun _ => settles_cpu fun s => ?_
  rw [same]
  exact settles_storeValue

theorem pushRegHot_settles : Steady P (pushRegHot src) := by
  refine settles_cpu fun s => ?_
  rw [materializeFlags_arch]
  exact pushHot_settles fun s => s.materializeFlags_get src

theorem pushFlagsHot_settles :
    Settles P (pushFlagsHot lazy.materialize width) (pushFlagsHot eager.materialize width) := by
  refine settles_cpu fun s => ?_
  simp only [pushSlot, materializeFlags_get]
  exact .bind (settles_setReg _ _) fun _ => settles_materialize_bind [] <|
    .bind (.read _) fun _ => storeValue_frame

theorem popReg_settles : Steady P (popReg dst) := by
  refine settles_cpu fun s => ?_
  simp only [pointerWord, materializeFlags_get, materializeFlags_arch]
  exact .bind settles_loadValue fun _ => .bind (settles_setReg _ _) fun _ => settles_setReg _ _

theorem popFlags_settles :
    Settles P (popFlags lazy.discard width) (popFlags eager.discard width) := by
  refine settles_cpu fun s => ?_
  simp only [materializeFlags_get]
  refine .bind settles_loadValue fun value => ?_
  have popped := Exec.Commutes.bind (settles_discard_unpack (P := P) value)
    fun _ => settles_setReg .rsp (s.get .rsp + BitVec.ofNat 64 width)
  exact popped

theorem leaveHot_settles : Steady P leaveHot := by
  refine settles_cpu fun s => ?_
  simp only [materializeFlags_get]
  refine .bind (settles_setReg _ _) fun _ => settles_cpu fun s => ?_
  simp only [pointerWord, materializeFlags_get, materializeFlags_arch]
  exact .bind settles_loadValue fun _ => .bind (settles_setReg _ _) fun _ => settles_setReg _ _

theorem returnHot_settles : Steady P (returnHot stackAdjust) := by
  refine settles_cpu fun s => ?_
  simp only [pointerWord, materializeFlags_get, materializeFlags_arch]
  exact .bind settles_loadValue fun _ => .bind settles_setRip fun _ => settles_setReg _ _

theorem callHot_settles : Steady P (callHot target returnAddress) := by
  refine settles_cpu fun s => ?_
  rw [materializeFlags_arch]
  exact .bind (pushHot_settles fun _ => rfl) fun _ => settles_setRip

theorem jumpIfHot_settles : Settles P (jumpIfHot .lazy condition target fallthrough)
      (jumpIfHot .eager condition target fallthrough) :=
  settles_materialize_bind [] <| .bind (.read _) fun _ => Sure.setRip.frame

/-! ## Whole programs -/

section Programs
variable {cold' : IrInstruction P → Step P Unit}

/-- What the two interpreters do with the instructions that the hot path leaves to the cold one. -/
def ColdSettles (cold cold' : IrInstruction P → Step P Unit) : Prop :=
  ∀ instruction,
    Settles P (coldFallback .lazy cold instruction) (coldFallback .eager cold' instruction)

theorem executeHotArm_settles (colds : ColdSettles cold cold') (instruction : IrInstruction P) :
    Settles P (executeHotArm .lazy cold instruction) (executeHotArm .eager cold' instruction) := by
  cases instruction
  case nop => exact .pure _
  case movImm => exact settles_setReg _ _
  case movReg => exact movReg_settles
  case movReg8 => exact movReg8_settles
  case spillStore => exact spillStore_settles
  case spillLoad => exact spillLoad_settles
  case explicitFlags => exact hotExplicitFlags_settles
  case addImm => exact hotAlu_settles settles_add _
  case subImm => exact hotAlu_settles settles_sub _
  case andImm | orImm | xorImm => exact hotLogic_settles
  case xorReg => exact hotXorReg_settles
  case andReg | orReg => exact hotLogicOperand_settles
  case shlImm | shrImm => exact shiftRegister_settles
  case loadMemory => exact loadMemory_settles
  case loadMemory8 => exact loadMemory8_settles
  case storeMemory => exact storeTo_settles fun s => by rw [materializeFlags_get]
  case storeMemory8 =>
    exact storeTo_settles fun s => by rw [byteSource, byteSource, materializeFlags_getByte]
  case storeImmediate => exact storeTo_settles fun _ => rfl
  case pushReg => exact pushRegHot_settles
  case popReg => exact popReg_settles
  case pushImm => exact pushHot_settles fun _ => rfl
  case pushFlags => exact pushFlagsHot_settles
  case popFlags => exact popFlags_settles
  case leave => exact leaveHot_settles
  case loadEffectiveAddress => exact loadEffectiveAddress_settles
  case jump => exact settles_setRip
  case jumpIf => exact jumpIfHot_settles
  case return_ => exact returnHot_settles
  case call => exact callHot_settles
  all_goals exact colds _

theorem executeIrInner_settles (colds : ColdSettles cold cold') :
    Settles P (executeIrInner .lazy cold ir) (executeIrInner .eager cold' ir) :=
  .forEach (executeHotArm_settles colds)

/-- The entry point settles at the end, so its outcome is the eager one on the settled machine. -/
theorem executeIrWith_settled (colds : ColdSettles cold cold') :
    (executeIrWith .lazy cold ir).run m = (executeIrWith .eager cold' ir).run m.settle := by
  rw [executeIrWith_eager_run, executeIrInner_settles colds m]
  rfl

theorem coldBase_settles :
    ColdSettles (executeColdArm host fun _ => panic) (executeColdArm host fun _ => panic) :=
  fun instruction => settles_materialize_bind _ (executeColdArm_frame coldBase_runs instruction)

theorem executeColdOnce_eq (settled : m.cpu.pendingFlags = none) (instruction : IrInstruction P) :
    (executeColdOnce .lazy host instruction).run m =
      (executeColdOnce .eager host instruction).run m := by
  apply executeColdArm_congr
  intro form _
  rw [executeIrWith_settled coldBase_settles, settle_of_settled settled]

theorem coldPath_settles {host : Host P} :
    ColdSettles (executeColdPath host) (executeColdOnce .eager host) := by
  intro instruction
  have eager : Settles P (coldFallback .lazy (executeColdOnce .eager host) instruction)
      (coldFallback .eager (executeColdOnce .eager host) instruction) :=
    settles_materialize_bind _ (executeColdArm_frame executeEagerOne_arm instruction)
  intro m
  have agree : (coldFallback .lazy (executeColdPath host) instruction).run m =
      (coldFallback .lazy (executeColdOnce .eager host) instruction).run m :=
    executeColdOnce_eq (m := m.settle) m.cpu.materializeFlags_pendingFlags instruction
  rw [agree]
  exact eager m

/-- The interpreter refines the eager one, from any state. -/
theorem executeIr_eager : (executeIr host ir).run m = (executeIrEager host ir).run m.settle :=
  executeIrWith_settled coldPath_settles

theorem executeIr_settled (ir : List (IrInstruction P))
    (ended : ((executeIr host ir).run m).state? = some t) : t.cpu.pendingFlags = none := by
  rw [executeIr, executeIrWith, ensuring_run] at ended
  cases ran : (executeIrInner .lazy (executeColdPath host) ir).run m with
  | ok value s | error reason s =>
    rw [ran] at ended
    cases ended
    exact s.cpu.materializeFlags_pendingFlags
  | panic =>
    rw [ran] at ended
    cases ended

/-- A program can be cut anywhere: settling at the cut changes nothing. -/
theorem executeIr_append (first second : List (IrInstruction P)) (m : Machine P) :
    (executeIr host (first ++ second)).run m =
      (do executeIr host first; executeIr host second : Step P Unit).run m := by
  have joined : executeIrInner .eager (executeColdOnce .eager host) (first ++ second) =
      (do executeIrInner .eager (executeColdOnce .eager host) first
          executeIrInner .eager (executeColdOnce .eager host) second) := forEach_append
  have whole : (executeIr host (first ++ second)).run m =
      (executeIrInner .eager (executeColdOnce .eager host) (first ++ second)).run m.settle := by
    rw [executeIr_eager, executeIrEager, executeIrWith_eager_run]
  have front : (executeIr host first).run m =
      (executeIrInner .eager (executeColdOnce .eager host) first).run m.settle := by
    rw [executeIr_eager, executeIrEager, executeIrWith_eager_run]
  rw [whole, joined]
  cases ran : (executeIr host first).run m with
  | ok value t =>
    have settled : t.cpu.pendingFlags = none := executeIr_settled first (by rw [ran]; rfl)
    rw [bind_of_ok ran, bind_of_ok (front.symm.trans ran), executeIr_eager, executeIrEager,
      executeIrWith_eager_run, settle_of_settled settled]
  | error => rw [bind_of_error ran, bind_of_error (front.symm.trans ran)]
  | panic => rw [bind_of_panic ran, bind_of_panic (front.symm.trans ran)]

/-- Lazy and eager flags are indistinguishable from the outside: the two
interpreters end in the same way and in the same state, and nothing is parked. -/
theorem lazy_flags_exact (ir : List (IrInstruction P)) (m : Machine P)
    (settled : m.cpu.pendingFlags = none) :
    (executeIr host ir).run m = (executeIrEager host ir).run m ∧
      ∀ t, ((executeIr host ir).run m).state? = some t → t.cpu.pendingFlags = none := by
  refine ⟨?_, fun t ended => executeIr_settled ir ended⟩
  rw [executeIr_eager, Machine.settle_of_settled settled]

end Programs

/-- A subtraction whose flags are read by a branch, and a store that then faults. -/
theorem lazy_flags_exact_at_fault :
    let program := [.subImm .rax 1 8, .jumpIf .below 0x20 0x30, .addImm .rcx 1 4, .pushReg .rcx]
    let start := bareMachine .x64 (fun _ => 0) []
    (executeIr bareHost program).run start = (executeIrEager bareHost program).run start ∧
      ∀ t, ((executeIr bareHost program).run start).state? = some t → t.cpu.pendingFlags = none :=
  lazy_flags_exact _ _ rfl

end Casa.Cpu
