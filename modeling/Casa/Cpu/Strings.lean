import Casa.Cpu.Frame

/-! String instructions. The repeat forms keep their pointers in local variables
and write the registers back after the loop; MOVS and STOS ignore the direction
flag. -/
namespace Casa.Cpu
open Effect MachineInt

/-- How often the body of MOVS, STOS and LODS runs. -/
def repeatCount (s : CpuState) (rep : Bool) : Nat :=
  if rep then (s.get .rcx &&& s.arch.registerMask).toNat else 1

/-- A repeat prefix leaves the count register at zero. -/
def clearCount (rep : Bool) : Step P Unit := if rep then setReg .rcx 0 else pure ()

def pointer (s : CpuState) (reg : Register) : U64 := s.get reg &&& s.arch.registerMask

/-- The signed step of LODS, CMPS and SCAS; bit 10 of the flags image is DF. -/
def stringDelta (s : CpuState) (width : Nat) : U64 :=
  if (s.eflagsExtra >>> 10) &&& 1 = 1 then 0 - BitVec.ofNat 64 width else BitVec.ofNat 64 width

def movsElement (mask : U64) (width : Nat) (at_ : U64 × U64) : Step P (U64 × U64) := do
  let value ← loadValue at_.1 width
  storeValue at_.2 value width
  pure ((at_.1 + BitVec.ofNat 64 width) &&& mask, (at_.2 + BitVec.ofNat 64 width) &&& mask)

def movs (width : Nat) (rep : Bool) : Step P Unit := do
  let s ← cpu
  let done ← Exec.loop (movsElement s.arch.registerMask width) (repeatCount s rep)
    (pointer s .rsi, pointer s .rdi)
  setReg .rsi done.1
  setReg .rdi done.2
  clearCount rep

def stosElement (mask value : U64) (width : Nat) (dst : U64) : Step P U64 := do
  storeValue dst value width
  pure ((dst + BitVec.ofNat 64 width) &&& mask)

def stos (width : Nat) (rep : Bool) : Step P Unit := do
  let s ← cpu
  let dst ← Exec.loop (stosElement s.arch.registerMask (s.get .rax &&& widthMask width) width)
    (repeatCount s rep) (pointer s .rdi)
  setReg .rdi dst
  clearCount rep

/-- LODS writes the accumulator on every round. -/
def lodsElement (mask delta : U64) (width : Nat) (src : U64) : Step P U64 := do
  let value ← loadValue src width
  mergeReg .rax (value &&& widthMask width) width
  pure ((src + delta) &&& mask)

def lods (width : Nat) (rep : Bool) : Step P Unit := do
  let s ← cpu
  let src ← Exec.loop (lodsElement s.arch.registerMask (stringDelta s width) width)
    (repeatCount s rep) (pointer s .rsi)
  setReg .rsi src
  clearCount rep

/-! ## Comparisons -/

/-- Set the flags of one comparison and say whether the prefix stops there. -/
def compareElement (lhs rhs : U64) (width : Nat) (repne : Bool) : Step P Bool := do
  let result := (lhs - rhs) &&& widthMask width
  setFlags (subFlags lhs rhs result (widthBits width))
  pure (if repne then result == 0 else !(result == 0))

def cmpsElement (mask delta : U64) (width : Nat) (repne : Bool) (at_ : U64 × U64) :
    Step P ((U64 × U64) × Bool) := do
  let lhs ← loadValue at_.1 width
  let rhs ← loadValue at_.2 width
  let stop ← compareElement (lhs &&& widthMask width) (rhs &&& widthMask width) width repne
  pure (((at_.1 + delta) &&& mask, (at_.2 + delta) &&& mask), stop)

def cmps (width : Nat) (rep repne : Bool) : Step P Unit := do
  let s ← cpu
  let element := cmpsElement s.arch.registerMask (stringDelta s width) width repne
  let start := (pointer s .rsi, pointer s .rdi)
  if rep || repne then
    let done ← Exec.countdown element (pointer s .rcx).toNat start
    setReg .rcx (BitVec.ofNat 64 done.2)
    setReg .rsi done.1.1
    setReg .rdi done.1.2
  else
    let done ← element start
    setReg .rsi done.1.1
    setReg .rdi done.1.2

def scasElement (mask delta acc : U64) (width : Nat) (repne : Bool) (dst : U64) :
    Step P (U64 × Bool) := do
  let rhs ← loadValue dst width
  let stop ← compareElement acc (rhs &&& widthMask width) width repne
  pure ((dst + delta) &&& mask, stop)

def scas (width : Nat) (rep repne : Bool) : Step P Unit := do
  let s ← cpu
  let element :=
    scasElement s.arch.registerMask (stringDelta s width) (s.get .rax &&& widthMask width)
    width repne
  let start := pointer s .rdi
  if rep || repne then
    let done ← Exec.countdown element (pointer s .rcx).toNat start
    setReg .rcx (BitVec.ofNat 64 done.2)
    setReg .rdi done.1
  else
    let done ← element start
    setReg .rdi done.1

/-! ## Their shapes

CMPS and SCAS only read memory and write their registers after the loop. -/

theorem clearCount_sure (member : .rcx ∈ regs) : Sure regs (clearCount rep : Step P Unit) :=
  .ite (.setReg member) .pure

theorem movsElement_arm (at_ : U64 × U64) :
    Arm P regs (movsElement mask width at_ : Step P (U64 × U64)) :=
  .read fun _ => .before .storeValue fun _ => .pure

theorem movsDone_sure (subset : [.rsi, .rdi, .rcx] ⊆ regs) (done : U64 × U64) :
    Sure regs (do setReg .rsi done.1; setReg .rdi done.2; clearCount rep : Step P Unit) :=
  .bind (.setReg (subset (by decide))) fun _ => .bind (.setReg (subset (by decide))) fun _ =>
    clearCount_sure (subset (by decide))

theorem movs_frame (subset : [.rsi, .rdi, .rcx] ⊆ regs) :
    Exec.Relates (Frame regs) (movs width rep : Step P Unit) :=
  .bind (.read _) fun _ => .bind (.loop (fun at_ => (movsElement_arm at_).frame) _ _) fun done =>
    (movsDone_sure subset done).frame

theorem stosElement_arm (dst : U64) : Arm P regs (stosElement mask value width dst) :=
  .before .storeValue fun _ => .pure

/-- What STOS and LODS do after their loop. -/
theorem stringDone_sure (subset : [reg, .rcx] ⊆ regs) (done : U64) :
    Sure regs (do setReg reg done; clearCount rep : Step P Unit) :=
  .bind (.setReg (subset List.mem_cons_self)) fun _ =>
    clearCount_sure (subset (List.mem_cons_of_mem _ List.mem_cons_self))

theorem stos_frame (subset : [.rdi, .rcx] ⊆ regs) :
    Exec.Relates (Frame regs) (stos width rep : Step P Unit) :=
  .bind (.read _) fun _ => .bind (.loop (fun dst => (stosElement_arm dst).frame) _ _) fun done =>
    (stringDone_sure subset done).frame

theorem lodsElement_arm (member : .rax ∈ regs) : Arm P regs (lodsElement mask delta width src) :=
  .read fun _ => .sure <| .bind (.mergeReg member) fun _ => .pure

theorem lods_frame (subset : [.rax, .rsi, .rcx] ⊆ regs) :
    Exec.Relates (Frame regs) (lods width rep : Step P Unit) :=
  .bind (.read _) fun _ =>
    .bind (.loop (fun src => (lodsElement_arm (subset (by decide))).frame) _ _)
    fun done => (stringDone_sure (List.cons_subset.mp subset).2 done).frame

theorem compareElement_quiet : Quiet regs (compareElement lhs rhs width repne : Step P Bool) :=
  .bind .setFlags fun _ => .pure

theorem cmpsElement_quiet (at_ : U64 × U64) :
    Quiet regs (cmpsElement mask delta width repne at_ : Step P _) :=
  .bind .read fun _ => .bind .read fun _ => .bind compareElement_quiet fun _ => .pure

theorem cmps_arm (subset : [.rsi, .rdi, .rcx] ⊆ regs) : Arm P regs (cmps width rep repne) :=
  .read fun _ => .ite
    (.after (.countdown cmpsElement_quiet) fun _ => .sure <|
      .bind (.setReg (subset (by decide))) fun _ => .bind (.setReg (subset (by decide))) fun _ =>
        .setReg (subset (by decide)))
    (.after (cmpsElement_quiet _) fun _ => .sure <|
      .bind (.setReg (subset (by decide))) fun _ => .setReg (subset (by decide)))

theorem scasElement_quiet (dst : U64) :
    Quiet regs (scasElement mask delta acc width repne dst : Step P _) :=
  .bind .read fun _ => .bind compareElement_quiet fun _ => .pure

theorem scas_arm (subset : [.rdi, .rcx] ⊆ regs) : Arm P regs (scas width rep repne) :=
  .read fun _ => .ite
    (.after (.countdown scasElement_quiet) fun _ => .sure <|
      .bind (.setReg (subset (by decide))) fun _ => .setReg (subset (by decide)))
    (.after (scasElement_quiet _) fun _ => .sure (.setReg (subset (by decide))))

end Casa.Cpu
