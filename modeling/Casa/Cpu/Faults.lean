import Casa.Cpu.Bare
import Casa.Cpu.Operand

/-! Instructions that stop with an error. Most of them have touched neither the
general registers nor memory; the ones that work in several parts, and the hot
stack instructions, have to be let through or refused as a whole. -/
namespace Casa.Cpu
open Effect MachineInt MemoryImage Exec
open BitVec (ofNat)
open Exec (AtomicAt AllOrFirst Gated)
open List (range)

/-! ## What an instruction asks for -/

def movsNext (mask : U64) (width : Nat) (at_ : U64 × U64) : U64 × U64 :=
  ((at_.1 + ofNat 64 width) &&& mask, (at_.2 + ofNat 64 width) &&& mask)

def stringNext (mask delta : U64) (at_ : U64) : U64 := (at_ + delta) &&& mask

def movsAllowed (m : MemoryImage) (width : Nat) (at_ : U64 × U64) : Prop :=
  m.readable at_.1 width = true ∧ m.writable at_.2 width = true

/-- The slot that PUSHA fills with its `i`-th register. -/
def pushAllSlot (s : CpuState) (i : Nat) : U64 := (· - pointerWord s)^[i + 1] (s.get .rsp)

/-- The slot that POPA reads its `i`-th register from. -/
def popAllSlot (s : CpuState) (i : Nat) : U64 :=
  (· + ofNat 64 s.arch.pointerBytes)^[i] (s.get .rsp)

/-- Whether a part of a vector store goes through on its own. -/
def partAllowed (memory : MemoryImage) : Result AppError Part → Prop
  | .ok (address, bytes) => memory.acceptsWrite address bytes.length = true
  | _ => False

/-- What keeps a fault of the instruction from having a partial effect. The hot
stack instructions move the stack pointer before they access memory, so their
access has to go through; an instruction of several accesses may be refused at
the first one only. -/
def FaultSafe (host : Host P) (m : Machine P) : IrInstruction P → Prop
  | .pushReg _ | .call _ _ =>
    m.memory.writable (pushSlot m.cpu m.cpu.arch.pointerBytes) m.cpu.arch.pointerBytes = true
  | .pushImm _ width | .pushFlags width => m.memory.writable (pushSlot m.cpu width) width = true
  | .leave =>
    m.memory.readable (m.cpu.get .rbp) m.cpu.arch.pointerBytes = true ∨
      m.cpu.gpr .rsp = m.cpu.get .rbp
  | .pushAll =>
    AllOrFirst (fun i => m.memory.writable (pushAllSlot m.cpu i) m.cpu.arch.pointerBytes = true) (range 8)
  | .popAll =>
    AllOrFirst (fun i => m.memory.readable (popAllSlot m.cpu i) m.cpu.arch.pointerBytes = true) (range 8)
  | .movs width rep =>
    AllOrFirst (fun i => movsAllowed m.memory width
      ((movsNext m.cpu.arch.registerMask width)^[i] (pointer m.cpu .rsi, pointer m.cpu .rdi)))
      (range (repeatCount m.cpu rep))
  | .stos width rep =>
    AllOrFirst (fun i => m.memory.writable
      ((stringNext m.cpu.arch.registerMask (ofNat 64 width))^[i] (pointer m.cpu .rdi)) width = true)
      (range (repeatCount m.cpu rep))
  | .lods width rep =>
    AllOrFirst (fun i => m.memory.readable
      ((stringNext m.cpu.arch.registerMask (stringDelta m.cpu width))^[i] (pointer m.cpu .rsi)) width = true)
      (range (repeatCount m.cpu rep))
  | .bndmovMemStore _ address =>
    m.memory.writable (resolveMemoryOperand m.cpu address) 8 = true →
      m.memory.writable (resolveMemoryOperand m.cpu address + 8) 8 = true
  | .vectorStore form =>
    ∀ parts, form.parts host m.cpu m.memory = .ok parts → AllOrFirst (partAllowed m.memory) parts
  | _ => True

/-! ## Accesses -/

/-- A machine with the pages and protections of `memory`. -/
def Laid (memory : MemoryImage) (m : Machine P) : Prop := m.memory.layout = memory.layout

theorem loadValue_gated : Gated (Laid memory) (memory.readable address width)
    (loadValue address width : Step P U64) :=
  .read fun _ same => by rw [← readable_layout same]; rfl

theorem storeValue_gated : Gated (Laid memory) (memory.writable address width)
    (storeValue address value width : Step P Unit) :=
  .zoom writeMemoryValue_gated fun _ _ => rfl

theorem storeValue_returns {m : Machine P} (writable : m.memory.writable address width)
    (value : U64) : ∃ t, (storeValue address value width).run m = .ok () t := by
  have gate : Gated (Laid m.memory) _ (storeValue address value width : Step P Unit) :=
    storeValue_gated
  obtain ⟨_, t, ran, -⟩ := gate.passes rfl writable
  exact ⟨t, ran⟩

theorem modifyCpu_gated :
    Gated (Laid memory) True (modifyCpu f : Step P Unit) := .modify fun _ same => same

/-! ## The stack pointer moved first -/

section HotStack
variable {m : Machine P}

theorem pushHot_returns (writable : m.memory.writable (pushSlot m.cpu width) width)
    (value : CpuState → U64) : ∃ t, (pushHot width value).run m = .ok () t := by
  let moved : Machine P := { m with cpu := m.cpu.set .rsp (pushSlot m.cpu width) }
  exact storeValue_returns (m := moved) writable (value moved.cpu)

theorem pushRegHot_returns (safe : FaultSafe host m (.pushReg src)) :
    ∃ t, (pushRegHot src).run m = .ok () t := by
  obtain ⟨t, pushed⟩ := pushHot_returns safe (·.get src)
  exact ⟨t, (bind_of_ok (read_of_ok rfl)).trans pushed⟩

theorem pushFlagsHot_returns (writable : m.memory.writable (pushSlot m.cpu width) width) :
    ∃ t, (pushFlagsHot FlagPolicy.eager.materialize width).run m = .ok () t := by
  let moved : Machine P := { m with cpu := m.cpu.set .rsp (pushSlot m.cpu width) }
  exact storeValue_returns (m := moved) writable moved.cpu.packEflags

theorem callHot_returns (safe : FaultSafe host m (.call target returnAddress)) :
    ∃ t, (callHot target returnAddress).run m = .ok () t := by
  obtain ⟨t, pushed⟩ := pushHot_returns safe fun _ => returnAddress
  exact ⟨{ t with cpu := { t.cpu with rip := target } }, bind_of_ok pushed⟩

theorem leaveHot_atomicAt (safe : FaultSafe host m .leave) :
    AtomicAt visible m (leaveHot : Step P Unit) := by
  let moved : Machine P := { m with cpu := m.cpu.set .rsp (m.cpu.get .rbp) }
  have value : m.cpu.get .rbp &&& m.cpu.arch.registerMask = m.cpu.get .rbp :=
    CpuState.get_and_mask _ _
  rcases safe with readable | same
  · have top : moved.cpu.get .rsp = m.cpu.get .rbp := (CpuState.get_set_self _ _ _).trans value
    rw [← top] at readable
    obtain ⟨frame, _, read, -⟩ := loadValue_gated.passes (s := moved) rfl readable
    exact .of_returns ⟨(), _, bind_of_ok read⟩
  -- the stack pointer already stands where the move would put it
  · have kept : visible moved = visible m := by
      have update : moved.cpu.gpr = m.cpu.gpr := by
        change Function.update m.cpu.gpr .rsp (m.cpu.get .rbp &&& m.cpu.arch.registerMask) = m.cpu.gpr
        rw [value, ← same, Function.update_eq_self]
      rw [visible, update, visible]
    refine .bind_of_ok (read_of_ok rfl) rfl (.bind_of_ok (t := moved) rfl kept ?_)
    refine .bind_of_ok (read_of_ok rfl) rfl (.bind_never (Exec.Atomic.of_same (.read _) moved) fun _ => ?_)
    exact .bind (.modify _) fun _ => .modify _

end HotStack

/-! ## Instructions of several parts -/

section Strings

variable {m : Machine P}

theorem movsLoop_gated :
    Gated (Laid memory) (∀ i < n, movsAllowed memory width ((movsNext mask width)^[i] at_))
    (loop (movsElement mask width) n at_ : Step P _) :=
  .loop (fun _ => (bind_assoc _ _ _).symm) fun _ => loadValue_gated.bind fun _ => storeValue_gated

theorem stosLoop_gated : Gated (Laid memory)
    (∀ i < n, memory.writable ((stringNext mask (ofNat 64 width))^[i] dst) width)
    (loop (stosElement mask value width) n dst : Step P U64) := by
  have each (dst : U64) : Gated (Laid memory) (memory.writable dst width)
      (storeValue dst value width : Step P Unit) := storeValue_gated
  exact .loop (fun _ => rfl) each

theorem movs_atomicAt (safe : FaultSafe host m (.movs width rep)) :
    AtomicAt visible m (movs width rep) := by
  refine .bind_of_ok (read_of_ok rfl) rfl ?_
  refine .bind_never ?_ fun done => (movsDone_sure (List.Subset.refl _) done).never
  exact .loop (fun _ => (bind_assoc _ _ _).symm)
    (fun _ => .bind_same (.read _) fun _ => storeValue_atomic)
    (fun _ => loadValue_gated.bind fun _ => storeValue_gated) rfl safe

theorem stos_atomicAt (safe : FaultSafe host m (.stos width rep)) :
    AtomicAt visible m (stos width rep) := by
  refine .bind_of_ok (read_of_ok rfl) rfl ?_
  refine .bind_never ?_ fun done => (stringDone_sure (List.Subset.refl _) done).never
  exact .loop (fun _ => rfl) (fun _ => storeValue_atomic) (fun _ => storeValue_gated) rfl safe

theorem lods_atomicAt (safe : FaultSafe host m (.lods width rep)) :
    AtomicAt visible m (lods width rep) := by
  refine .bind_of_ok (read_of_ok rfl) rfl ?_
  refine .bind_never ?_ fun done => (stringDone_sure (List.Subset.refl _) done).never
  exact .loop (fun _ => (bind_assoc _ _ _).symm)
    (fun _ => .bind_never (.of_same (.read _)) fun _ => .modify _)
    (fun _ => .of_iff (Iff.of_eq (and_true _)) (loadValue_gated.bind fun _ => modifyCpu_gated)) rfl safe

end Strings

section Groups
variable {m : Machine P}

theorem pushAllLoop_gated : Gated (Laid memory)
    (∀ i < order.length, memory.writable ((· - pointerWord original)^[i + 1] sp) original.arch.pointerBytes)
    (pushAllLoop original order sp : Step P U64) := by
  induction order generalizing sp with
  | nil => exact .of_iff (by simp) (.pure sp)
  | cons reg rest ih =>
    exact .of_iff Nat.forall_lt_succ_left.symm (storeValue_gated.bind fun _ => ih)

theorem pushAll_atomicAt (safe : FaultSafe host m .pushAll) :
    AtomicAt visible m (pushAll : Step P Unit) := by
  refine .bind_of_ok (read_of_ok rfl) rfl (.bind_never ?_ fun _ => .modify _)
  exact .of_gated storeValue_atomic storeValue_gated (fun _ => pushAllLoop_gated) rfl
    (AllOrFirst.succ safe)

theorem popInto_gated : Gated (Laid memory) True (popInto reg value : Step P Unit) := by
  unfold popInto
  split
  · exact .pure ()
  · exact modifyCpu_gated

theorem popAllLoop_gated : Gated (Laid memory)
    (∀ i < order.length, memory.readable ((· + ofNat 64 width)^[i] sp) width)
    (popAllLoop width order sp : Step P U64) := by
  induction order generalizing sp with
  | nil => exact .of_iff (by simp) (.pure sp)
  | cons reg rest ih =>
    refine .of_iff ?_ (loadValue_gated.bind fun _ => popInto_gated.bind fun _ => ih)
    rw [true_and]
    exact (Nat.forall_lt_succ_left (p := fun i => memory.readable ((· + ofNat 64 width)^[i] sp) width)).symm

theorem popAll_atomicAt (safe : FaultSafe host m .popAll) :
    AtomicAt visible m (popAll : Step P Unit) := by
  refine .bind_of_ok (read_of_ok rfl) rfl (.bind_never ?_ fun _ => .modify _)
  exact .of_gated (.of_same (.read _)) loadValue_gated
    (fun _ => popInto_gated.bind fun _ => popAllLoop_gated) rfl fun first =>
      ⟨trivial, AllOrFirst.succ safe first⟩

theorem bndmovMemStore_atomicAt (safe : FaultSafe host m (.bndmovMemStore src address)) :
    AtomicAt visible m (bndmovMemStore src address) :=
  .bind_of_ok (read_of_ok rfl) rfl
    (.of_gated storeValue_atomic storeValue_gated (fun _ => storeValue_gated) rfl safe)

theorem storePart_gated (part : Result AppError Part) :
    Gated (Laid memory) (partAllowed memory part) (storePart part : Step P Unit) := by
  cases part with
  | ok part => exact .zoom writeGuestBytes_gated fun _ _ => rfl
  | error => exact .throw id
  | panic => exact .panic id

theorem vectorStore_atomicAt (safe : FaultSafe host m (.vectorStore form)) :
    AtomicAt visible m (vectorStore host form) := by
  have popped : visible { m with cpu := form.popped m.cpu } = visible m := by
    have gpr : (form.popped m.cpu).gpr = m.cpu.gpr :=
      funext fun reg => (popped_frame form m.cpu).gpr reg List.not_mem_nil
    rw [visible, gpr, visible]
  refine .bind_of_ok (read_of_ok rfl) rfl (.bind_of_ok rfl popped (.read_bind fun parts read => ?_))
  exact .forEach storePart_atomic storePart_gated rfl (safe parts read)

end Groups

/-! ## Whole programs -/

section ColdArm
variable {m : Machine P}

theorem executeColdArm_atomicAt
    (runs : ∀ form, isRerun form → Arm P (writes host form) (rerun form))
    (safe : FaultSafe host m instruction) :
    AtomicAt visible m (executeColdArm host rerun instruction) := by
  cases whole : inParts instruction with
  | false => exact (executeColdArm_arm runs instruction whole).atomic m
  | true =>
    cases instruction
    case movs => exact movs_atomicAt safe
    case stos => exact stos_atomicAt safe
    case lods => exact lods_atomicAt safe
    case pushAll => exact pushAll_atomicAt safe
    case popAll => exact popAll_atomicAt safe
    case bndmovMemStore => exact bndmovMemStore_atomicAt safe
    case vectorStore => exact vectorStore_atomicAt safe
    all_goals cases whole

end ColdArm

section Programs
variable {cold : IrInstruction P → Step P Unit} {m : Machine P}

section
variable (colds : ∀ instruction, FaultSafe host m instruction → AtomicAt visible m (cold instruction))
include colds

theorem executeHotArm_atomicAt
    (instruction : IrInstruction P) (safe : FaultSafe host m instruction) :
    AtomicAt visible m (executeHotArm .eager cold instruction) := by
  cases later : stackFirst instruction with
  | false =>
    rcases executeHotArm_arm host later with arm | passed
    · exact arm.atomic m
    · rw [passed]
      exact colds instruction safe
  | true =>
    cases instruction
    case pushReg => exact .of_returns ⟨(), pushRegHot_returns safe⟩
    case pushImm => exact .of_returns ⟨(), pushHot_returns safe _⟩
    case pushFlags => exact .of_returns ⟨(), pushFlagsHot_returns safe⟩
    case leave => exact leaveHot_atomicAt safe
    case call => exact .of_returns ⟨(), callHot_returns safe⟩
    all_goals cases later

/-- One instruction through the eager entry point. -/
theorem executeEagerOne_atomicAt (instruction : IrInstruction P)
    (safe : FaultSafe host m instruction) :
    AtomicAt visible m (executeIrWith .eager cold [instruction]) := by
  intro reason t failed
  rw [executeIrWith_eager_run] at failed
  exact AtomicAt.bind_never (executeHotArm_atomicAt colds instruction safe)
    (fun _ => .pure ()) reason t failed

end

theorem executeColdOnce_atomicAt (instruction : IrInstruction P)
    (safe : FaultSafe host m instruction) :
    AtomicAt visible m (executeColdOnce .eager host instruction) :=
  executeColdArm_atomicAt executeEagerOne_arm safe

theorem executeIr_settle (ir : List (IrInstruction P)) (m : Machine P) :
    (executeIr host ir).run m.settle = (executeIr host ir).run m := by
  rw [executeIr_eager, executeIr_eager,
    Machine.settle_of_settled m.cpu.materializeFlags_pendingFlags]

theorem executeIr_one_atomicAt (safe : FaultSafe host m.settle instruction) :
    AtomicAt visible m.settle (executeIr host [instruction]) := by
  intro reason t failed
  rw [executeIr_settle, executeIr_eager] at failed
  exact executeEagerOne_atomicAt executeColdOnce_atomicAt instruction safe reason t failed

/-- A program that stops with an error stops at one of its instructions, and
when each instruction it reaches is safe to fault there, the registers and
memory are those left by the instructions before. -/
theorem executeIr_fault_atomic (ir : List (IrInstruction P)) (m : Machine P)
    (safe : ∀ before instruction after s, ir = before ++ instruction :: after →
      (executeIr host before).run m = .ok () s → FaultSafe host s instruction)
    (reason : AppError) (t : Machine P) (failed : (executeIr host ir).run m = .error reason t) :
    ∃ before instruction after s, ir = before ++ instruction :: after ∧
      (executeIr host before).run m = .ok () s ∧
      (executeIr host [instruction]).run s = .error reason t ∧ visible t = visible s := by
  induction ir generalizing m with
  | nil => cases failed
  | cons instruction rest ih =>
    rw [← List.singleton_append, executeIr_append] at failed
    rcases Exec.bind_eq_error.mp failed with stopped | ⟨_, u, ran, failed⟩
    · have first : (executeIr host [instruction]).run m.settle = _ := executeIr_settle [instruction] m
      refine ⟨[], instruction, rest, m.settle, rfl, rfl, first.trans stopped, ?_⟩
      exact executeIr_one_atomicAt (safe [] _ _ _ rfl rfl) reason t (first.trans stopped)
    · have front (program : List (IrInstruction P)) :
          (executeIr host (instruction :: program)).run m = (executeIr host program).run u :=
        (executeIr_append [instruction] program m).trans (Exec.bind_of_ok ran)
      obtain ⟨before, faulting, after, s, split, reached, stopped, same⟩ := ih u
        (fun before next after s split reached => safe (instruction :: before) next after s
          (by rw [split, List.cons_append]) ((front before).trans reached)) failed
      exact ⟨instruction :: before, faulting, after, s, by rw [split, List.cons_append],
        (front before).trans reached, stopped, same⟩

end Programs

/-- A machine whose stack has one page; nothing else is mapped. -/
def stacked : Machine barePlatform := bareMachine .x64 (fun | .rsp => 0x1010 | _ => 0) [(0x1000, .zeroed)]

def pushThenAdd : List (IrInstruction barePlatform) := [.pushReg .rax, .addMemory { base := some .rbp } .rax 8]

theorem executeIr_fault_atomic_at_addition :
    ∃ reason t, (executeIr bareHost pushThenAdd).run stacked = .error reason t ∧
      ∃ before instruction after s, pushThenAdd = before ++ instruction :: after ∧
        (executeIr bareHost before).run stacked = .ok () s ∧
        (executeIr bareHost [instruction]).run s = .error reason t ∧ visible t = visible s := by
  refine ⟨_, _, rfl, executeIr_fault_atomic pushThenAdd stacked ?_ _ _ rfl⟩
  intro before instruction after s split reached
  match before with
  | [] =>
    cases split
    cases reached
    exact (by decide +kernel : stacked.memory.writable (pushSlot stacked.cpu 8) 8 = true)
  | [_] =>
    cases split
    trivial
  | _ :: _ :: _ => simp [pushThenAdd] at split

/-- PUSH with no memory under the stack pointer reports the fault with the stack
pointer already moved. -/
theorem push_fault_moves_stack_pointer :
    let start := bareMachine .x64 (fun _ => 0x1000) []
    ∃ reason t, (executeIr bareHost [.pushReg .rax]).run start = .error reason t ∧
      (executeIr bareHost []).run start = .ok () start ∧
      start.cpu.get .rsp = 0x1000 ∧ t.cpu.get .rsp = 0xff8 := by
  refine ⟨_, _, rfl, rfl, ?_, ?_⟩ <;> decide +kernel

end Casa.Cpu
