import Casa.Cpu.Machine

/-! What the primitive steps of the interpreter leave alone: the registers they
do not name, the layout of memory, and, when they fail, everything a guest can
see of the instruction. -/
namespace Casa.Cpu
open Effect

/-- The effect of a step that may write the general registers `regs`. A parked
flag computation is kept or dropped, never replaced. -/
structure Frame (regs : List Register) (s t : Machine P) : Prop where
  arch : t.cpu.arch = s.cpu.arch
  gpr : ∀ reg, reg ∉ regs → t.cpu.gpr reg = s.cpu.gpr reg
  pending : t.cpu.pendingFlags = s.cpu.pendingFlags ∨ t.cpu.pendingFlags = none
  layout : t.memory.layout = s.memory.layout

instance : IsPreorder (Machine P) (Frame regs) where
  refl _ := ⟨rfl, fun _ _ => rfl, .inl rfl, rfl⟩
  trans s t u first second := by
    refine ⟨second.arch.trans first.arch, fun reg other => ?_, ?_, second.layout.trans first.layout⟩
    · exact (second.gpr reg other).trans (first.gpr reg other)
    · rcases second.pending with kept | dropped
      · rw [kept]
        exact first.pending
      · exact .inr dropped

/-- With no parked computation before, there is none after. -/
theorem Frame.settled (frame : Frame regs s t) (none : s.cpu.pendingFlags = none) :
    t.cpu.pendingFlags = .none := by
  rcases frame.pending with kept | dropped
  · rw [kept, none]
  · exact dropped

/-- An update of the processor state that keeps to the frame. -/
structure CpuFrame (regs : List Register) (s t : CpuState) : Prop where
  arch : t.arch = s.arch
  gpr : ∀ reg, reg ∉ regs → t.gpr reg = s.gpr reg
  pending : t.pendingFlags = s.pendingFlags ∨ t.pendingFlags = none

/-- An update of the processor state beside the registers and the parked flags. -/
theorem CpuFrame.keep (arch : t.arch = s.arch) (gpr : t.gpr = s.gpr)
    (pending : t.pendingFlags = s.pendingFlags) : CpuFrame regs s t :=
  ⟨arch, fun _ _ => congrFun gpr _, .inl pending⟩

theorem CpuFrame.set (member : reg ∈ regs) : CpuFrame regs s (s.set reg value) :=
  ⟨rfl, fun _ other => s.gpr_set_of_ne reg value fun same => other (same ▸ member), .inl rfl⟩

theorem storeValue_frame :
    Exec.Relates (Frame regs) (storeValue address value width : Step P Unit) :=
  .zoom writeMemoryValue_layout fun _ _ same => ⟨rfl, fun _ _ => rfl, .inl rfl, same⟩

theorem storeBytes_frame : Exec.Relates (Frame regs) (storeBytes address bytes : Step P Unit) :=
  .zoom writeGuestBytes_layout fun _ _ same => ⟨rfl, fun _ _ => rfl, .inl rfl, same⟩

/-- The part of the machine that a faulting instruction has to leave unchanged. -/
def visible (m : Machine P) : (Register → U64) × MemoryImage := (m.cpu.gpr, m.memory)

theorem storeValue_atomic : Exec.Atomic visible (storeValue address value width : Step P Unit) :=
  .zoom writeMemoryValue_atomic fun m memory same => by
    simp only [id] at same
    simp [same]

theorem storeBytes_atomic : Exec.Atomic visible (storeBytes address bytes : Step P Unit) :=
  .zoom writeGuestBytes_atomic fun m memory same => by
    simp only [id] at same
    simp [same]

/-! ## The shapes of an arm

An arm reads its operands and may be refused; then it writes, with one store at
most and after it only steps that cannot fail. -/

section Shapes
variable {f : Step P α} {next : α → Step P β}

/-- A step that never fails. -/
structure Sure (regs : List Register) (f : Step P α) : Prop where
  frame : Exec.Relates (Frame regs) f
  never : Exec.NeverFails f

/-- A step that changes nothing a guest can see, whether it fails or not. -/
structure Quiet (regs : List Register) (f : Step P α) : Prop where
  frame : Exec.Relates (Frame regs) f
  same : Exec.Relates (Exec.Same visible) f

/-- A step that has changed nothing a guest can see when it fails. -/
structure Arm (P : Platform) (regs : List Register) (f : Step P α) : Prop where
  frame : Exec.Relates (Frame regs) f
  atomic : Exec.Atomic visible f

namespace Sure

theorem pure : Sure regs (pure value : Step P α) := ⟨.pure _, .pure _⟩

theorem cpu : Sure regs (cpu : Step P CpuState) := by
  refine ⟨.read _, ?_⟩
  rintro s reason t ⟨⟩

theorem bind (first : Sure regs f) (rest : ∀ value, Sure regs (next value)) :
    Sure regs (f >>= next) :=
  ⟨.bind first.frame fun value => (rest value).frame,
    .bind first.never fun value => (rest value).never⟩

theorem ite [Decidable c] (yes : Sure regs f) (no : Sure regs g) : Sure regs (if c then f else g) :=
  ⟨.ite yes.frame no.frame, .ite yes.never no.never⟩

theorem modifyCpu {f : CpuState → CpuState} (step : ∀ s, CpuFrame regs s (f s)) :
    Sure regs (modifyCpu f : Step P Unit) :=
  ⟨.modify fun m => ⟨(step m.cpu).arch, (step m.cpu).gpr, (step m.cpu).pending, rfl⟩, .modify _⟩

theorem setReg {reg : Register} (member : reg ∈ regs) :
    Sure regs (setReg reg value : Step P Unit) := modifyCpu fun _ => .set member

theorem mergeReg {reg : Register} (member : reg ∈ regs) :
    Sure regs (mergeReg reg value width : Step P Unit) := modifyCpu fun _ => .set member

theorem setByteReg {reg : ByteRegister} (member : reg.fullRegister ∈ regs) :
    Sure regs (setByteReg reg value : Step P Unit) := modifyCpu fun _ => .set member

theorem setFlags : Sure regs (setFlags flags : Step P Unit) :=
  modifyCpu fun _ => .keep rfl rfl rfl

theorem modifyFlags (f : Flags → Flags) : Sure regs (modifyFlags f : Step P Unit) :=
  modifyCpu fun _ => .keep rfl rfl rfl

theorem setRip : Sure regs (setRip target : Step P Unit) :=
  modifyCpu fun _ => .keep rfl rfl rfl

end Sure

namespace Quiet

theorem pure : Quiet regs (pure value : Step P α) := ⟨.pure _, .pure _⟩

theorem throw : Quiet regs (Exec.throw reason : Step P α) := ⟨.throw _, .throw _⟩

theorem read : Quiet regs (Exec.read g) := ⟨.read _, .read _⟩

theorem bind (first : Quiet regs f) (rest : ∀ value, Quiet regs (next value)) :
    Quiet regs (f >>= next) :=
  ⟨.bind first.frame fun value => (rest value).frame,
    .bind first.same fun value => (rest value).same⟩

theorem countdown (step : ∀ vars, Quiet regs (body vars)) :
    Quiet regs (Exec.countdown body n vars) :=
  ⟨.countdown (fun vars => (step vars).frame) n vars,
    .countdown (fun vars => (step vars).same) n vars⟩

theorem modifyCpu {f : CpuState → CpuState} (step : ∀ s, CpuFrame regs s (f s))
    (same : ∀ s, (f s).gpr = s.gpr) : Quiet regs (modifyCpu f : Step P Unit) :=
  ⟨(Sure.modifyCpu step).frame, .modify fun m => by simp only [Exec.Same, visible, same]⟩

theorem setFlags : Quiet regs (setFlags flags : Step P Unit) :=
  modifyCpu (fun _ => .keep rfl rfl rfl) fun _ => rfl

end Quiet

namespace Arm

theorem sure (step : Sure regs f) : Arm P regs f := ⟨step.frame, .of_never step.never⟩

theorem quiet (step : Quiet regs f) : Arm P regs f := ⟨step.frame, .of_same step.same⟩

theorem after (first : Quiet regs f) (rest : ∀ value, Arm P regs (next value)) :
    Arm P regs (f >>= next) :=
  ⟨.bind first.frame fun value => (rest value).frame,
    .bind_same first.same fun value => (rest value).atomic⟩

theorem read (rest : ∀ value, Arm P regs (next value)) :
    Arm P regs (Exec.read g >>= next) := after .read rest

theorem before (first : Arm P regs f) (rest : ∀ value, Sure regs (next value)) :
    Arm P regs (f >>= next) :=
  ⟨.bind first.frame fun value => (rest value).frame,
    .bind_never first.atomic fun value => (rest value).never⟩

theorem ite [Decidable c] (yes : Arm P regs f) (no : Arm P regs g) :
    Arm P regs (if c then f else g) :=
  ⟨.ite yes.frame no.frame, .ite yes.atomic no.atomic⟩

theorem storeValue : Arm P regs (storeValue address value width) :=
  ⟨storeValue_frame, storeValue_atomic⟩

/-- A refused width is refused before the register is written. -/
theorem moveReg (member : reg ∈ regs) : Arm P regs (moveReg what reg value width) := by
  refine .read fun s => ?_
  split
  · exact .sure (.setReg member)
  · exact .sure (.setReg member)
  · exact .sure (.setReg member)
  · exact .quiet .throw

end Arm

end Shapes

end Casa.Cpu
