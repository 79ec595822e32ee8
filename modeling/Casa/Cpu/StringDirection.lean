import Casa.Cpu.Faults

/-! String instructions against the loop of the architecture, in which element
`k` of an operand lies `k` times the signed step away from its pointer. LODS,
CMPS and SCAS run that loop; MOVS and STOS always step upwards. -/
namespace Casa.Cpu
open Effect MachineInt BitVec Exec OperandWidth CpuState Nat
open BitVec (ofNat)
variable {P : Platform}

/-! ## The loop of the architecture -/

/-- The address of element `k`, with the step the direction flag asks for. -/
def elementAt (s : CpuState) (reg : Register) (width k : Nat) : U64 :=
  (pointer s reg + ofNat 64 k * stringDelta s width) &&& s.arch.registerMask

def architecturalMovs (width : Nat) (rep : Bool) : Step P Unit := do
  let s ← cpu
  Exec.forEach (fun k => do
    let value ← loadValue (elementAt s .rsi width k) width
    storeValue (elementAt s .rdi width k) value width) (List.range' 0 (repeatCount s rep))
  setReg .rsi (elementAt s .rsi width (repeatCount s rep))
  setReg .rdi (elementAt s .rdi width (repeatCount s rep))
  clearCount rep

def architecturalStos (width : Nat) (rep : Bool) : Step P Unit := do
  let s ← cpu
  Exec.forEach
    (fun k => storeValue (elementAt s .rdi width k) (s.get .rax &&& widthMask width) width)
    (List.range' 0 (repeatCount s rep))
  setReg .rdi (elementAt s .rdi width (repeatCount s rep))
  clearCount rep

def architecturalLods (width : Nat) (rep : Bool) : Step P Unit := do
  let s ← cpu
  Exec.forEach (fun k => do
    let value ← loadValue (elementAt s .rsi width k) width
    mergeReg .rax (value &&& widthMask width) width) (List.range' 0 (repeatCount s rep))
  setReg .rsi (elementAt s .rsi width (repeatCount s rep))
  clearCount rep

def compareElements (s : CpuState) (width : Nat) (repne : Bool) (k : Nat) : Step P Bool := do
  let lhs ← loadValue (elementAt s .rsi width k) width
  let rhs ← loadValue (elementAt s .rdi width k) width
  compareElement (lhs &&& widthMask width) (rhs &&& widthMask width) width repne

def scanElement (s : CpuState) (width : Nat) (repne : Bool) (k : Nat) : Step P Bool := do
  let rhs ← loadValue (elementAt s .rdi width k) width
  compareElement (s.get .rax &&& widthMask width) (rhs &&& widthMask width) width repne

/-- Compare elements until the prefix stops or the count runs out; the number
of elements done and the count that is left. -/
def compareLoop (element : Nat → Step P Bool) (count : Nat) : Step P (Nat × Nat) :=
  Exec.countdown (fun k => element k >>= fun stop => pure (k + 1, stop)) count 0

def architecturalCmps (width : Nat) (rep repne : Bool) : Step P Unit := do
  let s ← cpu
  if rep || repne then
    let done ← compareLoop (compareElements s width repne) (pointer s .rcx).toNat
    setReg .rcx (ofNat 64 done.2)
    setReg .rsi (elementAt s .rsi width done.1)
    setReg .rdi (elementAt s .rdi width done.1)
  else
    let _ ← compareElements s width repne 0
    setReg .rsi (elementAt s .rsi width 1)
    setReg .rdi (elementAt s .rdi width 1)

def architecturalScas (width : Nat) (rep repne : Bool) : Step P Unit := do
  let s ← cpu
  if rep || repne then
    let done ← compareLoop (scanElement s width repne) (pointer s .rcx).toNat
    setReg .rcx (ofNat 64 done.2)
    setReg .rdi (elementAt s .rdi width done.1)
  else
    let _ ← scanElement s width repne 0
    setReg .rdi (elementAt s .rdi width 1)

/-! ## Pointers -/

/-- Masking a term of a sum early changes nothing. -/
theorem registerMask_add (arch : GuestArch) :
    ((x &&& arch.registerMask) + y) &&& arch.registerMask = (x + y) &&& arch.registerMask := by
  cases arch with
  | x64 => simp only [GuestArch.registerMask, and_allOnes]
  | x86 =>
    have mask : GuestArch.x86.registerMask = widthMask dword.bytes := rfl
    have narrow := bits_le .dword
    rw [mask, and_widthMask, and_widthMask, and_widthMask]
    refine congrArg (setWidth 64) ?_
    rw [setWidth_add _ _ narrow, setWidth_add _ _ narrow, setWidth_setWidth]

theorem pointer_masked : pointer s reg &&& s.arch.registerMask = pointer s reg := by
  rw [pointer, BitVec.and_assoc, BitVec.and_self]

theorem elementAt_zero : elementAt s reg width 0 = pointer s reg := by
  rw [elementAt, zero_mul, BitVec.add_zero, pointer_masked]

theorem elementAt_succ :
    (elementAt s reg width k + stringDelta s width) &&& s.arch.registerMask =
      elementAt s reg width (k + 1) := by
  rw [elementAt, registerMask_add, elementAt, ofNat_add, add_mul, BitVec.add_assoc]
  congr 2
  rw [BitVec.one_mul]

/-- DF, kept in the flags image. -/
def DirectionSet (s : CpuState) : Prop := (s.eflagsExtra >>> 10) &&& 1 = 1

instance (s : CpuState) : Decidable (DirectionSet s) := inferInstanceAs (Decidable (_ = _))

theorem stringDelta_up (up : ¬ DirectionSet s) : stringDelta s width = ofNat 64 width :=
  if_neg up

theorem stringDelta_down (down : DirectionSet s) :
    stringDelta s width = 0 - ofNat 64 width := if_pos down

/-! ## The loops of the interpreter -/

section Loops
variable {m : Machine P}

/-- LODS, as a loop over the elements. -/
theorem lods_architectural : (lods width rep : Step P Unit) = architecturalLods width rep := by
  refine congrArg (cpu >>= ·) (funext fun s => ?_)
  have step (k : Nat) :
      lodsElement s.arch.registerMask (stringDelta s width) width (elementAt s .rsi width k) =
      ((do let value ← loadValue (elementAt s .rsi width k) width
           mergeReg .rax (value &&& widthMask width) width : Step P Unit) >>= fun _ =>
        pure (elementAt s .rsi width (k + 1))) := by
    rw [lodsElement, bind_assoc, elementAt_succ]
  have walked := loop_eq_forEach step (repeatCount s rep) 0
  rw [zero_add, elementAt_zero] at walked
  rw [walked, bind_assoc]
  rfl

theorem cmps_architectural :
    (cmps width rep repne : Step P Unit) = architecturalCmps width rep repne := by
  refine congrArg (cpu >>= ·) (funext fun s => ?_)
  have step (k : Nat) : cmpsElement (P := P) s.arch.registerMask (stringDelta s width) width repne
      (elementAt s .rsi width k, elementAt s .rdi width k) =
        (compareElements s width repne k >>= fun stop =>
          pure ((elementAt s .rsi width (k + 1), elementAt s .rdi width (k + 1)), stop)) := by
    rw [cmpsElement, compareElements, bind_assoc, elementAt_succ, elementAt_succ]
    refine congrArg (loadValue _ _ >>= ·) (funext fun lhs => ?_)
    rw [bind_assoc]
  have counted := countdown_eq step (pointer s .rcx).toNat 0
  have first := step 0
  rw [elementAt_zero, elementAt_zero] at counted first
  dsimp only
  split
  · rw [counted, bind_assoc]
    rfl
  · rw [first, bind_assoc]
    rfl

theorem scas_architectural :
    (scas width rep repne : Step P Unit) = architecturalScas width rep repne := by
  refine congrArg (cpu >>= ·) (funext fun s => ?_)
  have step (k : Nat) : scasElement (P := P) s.arch.registerMask (stringDelta s width)
      (s.get .rax &&& widthMask width) width repne (elementAt s .rdi width k) =
        (scanElement s width repne k >>= fun stop => pure (elementAt s .rdi width (k + 1), stop)) := by
    rw [scasElement, scanElement, bind_assoc, elementAt_succ]
  have counted := countdown_eq step (pointer s .rcx).toNat 0
  have first := step 0
  rw [elementAt_zero] at counted first
  dsimp only
  split
  · rw [counted, bind_assoc]
    rfl
  · rw [first, bind_assoc]
    rfl

/-- MOVS upwards. -/
theorem movs_upwards (up : ¬ DirectionSet m.cpu) :
    (movs width rep).run m = (architecturalMovs width rep).run m := by
  have step (k : Nat) : movsElement m.cpu.arch.registerMask width
      (elementAt m.cpu .rsi width k, elementAt m.cpu .rdi width k) =
        ((do let value ← loadValue (elementAt m.cpu .rsi width k) width
             storeValue (elementAt m.cpu .rdi width k) value width : Step P Unit) >>= fun _ =>
          pure (elementAt m.cpu .rsi width (k + 1), elementAt m.cpu .rdi width (k + 1))) := by
    rw [movsElement, bind_assoc, ← elementAt_succ, ← elementAt_succ, stringDelta_up up]
  have walked := loop_eq_forEach step (repeatCount m.cpu rep) 0
  rw [zero_add, elementAt_zero, elementAt_zero] at walked
  rw [movs, cpu, read_bind_run]
  dsimp only
  rw [walked, bind_assoc]
  rfl

theorem stos_upwards (up : ¬ DirectionSet m.cpu) :
    (stos width rep).run m = (architecturalStos width rep).run m := by
  have step (k : Nat) :
      stosElement m.cpu.arch.registerMask (m.cpu.get .rax &&& widthMask width) width
      (elementAt m.cpu .rdi width k) =
        ((storeValue (elementAt m.cpu .rdi width k) (m.cpu.get .rax &&& widthMask width) width : Step P Unit) >>=
          fun _ => pure (elementAt m.cpu .rdi width (k + 1))) := by
    rw [stosElement, ← elementAt_succ, stringDelta_up up]
  have walked := loop_eq_forEach step (repeatCount m.cpu rep) 0
  rw [zero_add, elementAt_zero] at walked
  rw [stos, cpu, read_bind_run]
  dsimp only
  rw [walked, bind_assoc]
  rfl

/-! ## One element

A single element leaves the destination pointer one step away; the step of the
interpreter and a downward step never end at the same address. -/

/-- The pointer a string instruction writes back last. -/
theorem writeBack_rdi (ran : (setReg .rdi value >>= fun _ => clearCount rep).run u = .ok () t)
    (arch : u.cpu.arch = m.cpu.arch) : t.cpu.get .rdi = value &&& m.cpu.arch.registerMask := by
  rw [← arch]
  cases rep with
  | true =>
    obtain ⟨⟩ := ran
    exact ((u.cpu.set .rdi value).get_set_of_ne .rcx 0 (by decide)).trans (u.cpu.get_set_self .rdi value)
  | false =>
    obtain ⟨⟩ := ran
    exact u.cpu.get_set_self .rdi value

theorem elementAt_masked :
    elementAt s reg width k &&& s.arch.registerMask = elementAt s reg width k := by
  rw [elementAt, BitVec.and_assoc, BitVec.and_self]

theorem direction_matters (arch : GuestArch) (width : OperandWidth) :
    (p + ofNat 64 width.bytes) &&& arch.registerMask ≠
      (p + (0 - ofNat 64 width.bytes)) &&& arch.registerMask := by
  intro same
  cases arch with
  | x64 =>
    simp only [GuestArch.registerMask, and_allOnes] at same
    have step := (BitVec.add_right_inj p).mp same
    revert step
    cases width <;> decide
  | x86 =>
    have mask : GuestArch.x86.registerMask = widthMask dword.bytes := rfl
    have narrow := bits_le .dword
    rw [mask, and_widthMask, and_widthMask] at same
    have low := congrArg (setWidth dword.bits) same
    rw [setWidth_setWidth, setWidth_setWidth, setWidth_add _ _ narrow,
      setWidth_add _ _ narrow] at low
    have step := (BitVec.add_right_inj _).mp low
    revert step
    cases width <;> decide

/-- A downward step leaves the destination pointer elsewhere. -/
theorem elementAt_one_down (down : DirectionSet m.cpu) (width : OperandWidth) :
    elementAt m.cpu .rdi width.bytes 1 ≠
      (pointer m.cpu .rdi + ofNat 64 width.bytes) &&& m.cpu.arch.registerMask := by
  rw [elementAt, stringDelta_down down, BitVec.one_mul]
  exact (direction_matters m.cpu.arch width).symm

theorem clearCount_returns : ∃ t, (clearCount rep).run u = .ok () t := by
  cases rep <;> exact ⟨_, rfl⟩

end Loops

/-! ## The comparison -/

inductive StringMove where
  | movs
  | stos

namespace StringMove

def instruction (move : StringMove) (width : Nat) (rep : Bool) : IrInstruction P :=
  match move with
  | .movs => .movs width rep
  | .stos => .stos width rep

def arm (move : StringMove) (width : Nat) (rep : Bool) : Step P Unit :=
  match move with
  | .movs => Cpu.movs width rep
  | .stos => Cpu.stos width rep

def architectural (move : StringMove) (width : Nat) (rep : Bool) : Step P Unit :=
  match move with
  | .movs => architecturalMovs width rep
  | .stos => architecturalStos width rep

def Allowed (move : StringMove) (width : Nat) (m : Machine P) : Prop :=
  match move with
  | .movs => movsAllowed m.memory width (pointer m.cpu .rsi, pointer m.cpu .rdi)
  | .stos => m.memory.writable (pointer m.cpu .rdi) width = true

section Moves
variable {move : StringMove}

theorem executeIr_move (move : StringMove) :
    (executeIr host [move.instruction width rep]).run m = (move.arm width rep).run m.settle := by
  cases move <;> exact executeIr_single (fun _ => rfl)

theorem arm_upwards (up : ¬ DirectionSet m.cpu) :
    (move.arm width rep).run m = (move.architectural width rep).run m := by
  cases move with
  | movs => exact movs_upwards up
  | stos => exact stos_upwards up

/-- Without an element to move there is no step to take. -/
theorem arm_nothing (none : repeatCount m.cpu rep = 0) :
    (move.arm width rep).run m = (move.architectural width rep).run m := by
  cases move
  all_goals
    simp only [arm, architectural, Cpu.movs, Cpu.stos, architecturalMovs, architecturalStos, cpu,
      read_bind_run, none, elementAt_zero]
    rfl

/-- Nothing is returned if the first element is refused. -/
theorem arm_refused (some : repeatCount m.cpu rep ≠ 0) (refused : ¬ move.Allowed width m) :
    (move.arm width rep).run m ≠ .ok () t := by
  intro ran
  have first := Nat.pos_of_ne_zero some
  cases move
  all_goals
    obtain ⟨_, _, ⟨⟩, ran⟩ := bind_eq_ok.mp ran
    obtain ⟨done, u, looped, -⟩ := bind_eq_ok.mp ran
  case movs => exact movsLoop_gated.refused rfl (fun all => refused (all 0 first)) done u looped
  case stos => exact stosLoop_gated.refused rfl (fun all => refused (all 0 first)) done u looped

theorem arm_one_returns {m : Machine P} (one : repeatCount m.cpu rep = 1)
    (allowed : move.Allowed width m) : ∃ t, (move.arm width rep).run m = .ok () t := by
  cases move
  all_goals simp only [arm, Cpu.movs, Cpu.stos, cpu, read_bind_run, one]
  case movs =>
    have gate : Gated (σ := Machine P) (Laid m.memory) _ (loop (movsElement m.cpu.arch.registerMask
      width) 1 (pointer m.cpu .rsi, pointer m.cpu .rdi)) := movsLoop_gated
    obtain ⟨done, u, looped, -⟩ := gate.passes rfl (by simpa [Allowed] using allowed)
    rw [bind_of_ok looped]
    exact clearCount_returns
  case stos =>
    have gate : Gated (σ := Machine P) (Laid m.memory) _ (loop (stosElement m.cpu.arch.registerMask
      (m.cpu.get .rax &&& widthMask width) width) 1 (pointer m.cpu .rdi)) := stosLoop_gated
    obtain ⟨done, u, looped, -⟩ := gate.passes rfl (by simpa [Allowed] using allowed)
    rw [bind_of_ok looped]
    exact clearCount_returns

theorem arm_single (one : repeatCount m.cpu rep = 1) (ran : (move.arm width rep).run m = .ok () t) :
    t.cpu.get .rdi = (pointer m.cpu .rdi + ofNat 64 width) &&& m.cpu.arch.registerMask := by
  cases move
  all_goals
    simp only [arm, Cpu.movs, Cpu.stos, cpu, read_bind_run, one] at ran
    obtain ⟨done, u, looped, rest⟩ := bind_eq_ok.mp ran
    obtain ⟨at_, v, element, ⟨⟩⟩ := bind_eq_ok.mp looped
  case movs =>
    have frame : Frame [] m u := (movsElement_arm _).frame m u (congrArg Outcome.state? element)
    obtain ⟨value, w, -, stored⟩ := bind_eq_ok.mp element
    obtain ⟨_, x, -, ⟨⟩⟩ := bind_eq_ok.mp stored
    obtain ⟨_, y, ⟨⟩, rest⟩ := bind_eq_ok.mp rest
    rw [writeBack_rdi rest frame.arch, BitVec.and_assoc, BitVec.and_self]
  case stos =>
    have frame : Frame [] m u := (stosElement_arm _).frame m u (congrArg Outcome.state? element)
    obtain ⟨_, x, -, ⟨⟩⟩ := bind_eq_ok.mp element
    rw [writeBack_rdi rest frame.arch, BitVec.and_assoc, BitVec.and_self]

theorem architectural_rdi (ran : (move.architectural width rep).run m = .ok () t) :
    t.cpu.get .rdi = elementAt m.cpu .rdi width (repeatCount m.cpu rep) := by
  cases move
  all_goals
    simp only [architectural, architecturalMovs, architecturalStos, cpu, read_bind_run] at ran
    obtain ⟨_, u, looped, rest⟩ := bind_eq_ok.mp ran
  case movs =>
    have frame : Frame [] m u := Exec.Relates.forEach
      (fun _ _ => .bind (.read _) fun _ => storeValue_frame) m u (congrArg Outcome.state? looped)
    obtain ⟨_, v, ⟨⟩, rest⟩ := bind_eq_ok.mp rest
    rw [writeBack_rdi rest frame.arch, elementAt_masked]
  case stos =>
    have frame : Frame [] m u := Exec.Relates.forEach (fun _ _ => storeValue_frame) m u
      (congrArg Outcome.state? looped)
    rw [writeBack_rdi rest frame.arch, elementAt_masked]

/-- One element with the direction flag set ends at the wrong address. -/
theorem arm_downwards {width : OperandWidth} (down : DirectionSet m.cpu)
    (one : repeatCount m.cpu rep = 1) (allowed : move.Allowed width.bytes m) :
    ∃ t, (move.arm width.bytes rep).run m = .ok () t ∧
      (move.architectural width.bytes rep).run m ≠ .ok () t := by
  obtain ⟨t, ran⟩ := arm_one_returns one allowed
  refine ⟨t, ran, fun same => elementAt_one_down down width ?_⟩
  have reached := architectural_rdi same
  rw [one] at reached
  exact reached.symm.trans (arm_single one ran)

end Moves
end StringMove

def Machine.withCount (m : Machine P) (k : Nat) : Machine P :=
  { m with cpu := m.cpu.set .rcx (ofNat 64 k) }

/-- After any number of repeats up to the count, the instruction has left what
the loop of the architecture leaves. -/
def FollowsDirection (host : Host P) (move : StringMove) (width : Nat) (rep : Bool) (m : Machine P) : Prop :=
  ∀ k ≤ repeatCount m.cpu rep, ∀ t,
    (executeIr host [move.instruction width rep]).run (m.withCount k) = .ok () t →
      (move.architectural width rep).run (m.withCount k).settle = .ok () t

theorem withCount_pointer (m : Machine P) (other : reg ≠ .rcx) :
    pointer (m.withCount k).settle.cpu reg = pointer m.cpu reg := by
  rw [pointer, Machine.settle, materializeFlags_get, materializeFlags_arch]
  exact congrArg (· &&& m.cpu.arch.registerMask) (m.cpu.get_set_of_ne .rcx _ other)

theorem withCount_direction (m : Machine P) :
    DirectionSet (m.withCount k).settle.cpu ↔ DirectionSet m.cpu := by
  rw [Machine.settle, materializeFlags_eq]
  rfl

/-- A count that the register can hold survives the register. -/
theorem count_masked (arch : GuestArch) (le : k ≤ arch.registerMask.toNat) :
    (ofNat 64 k &&& arch.registerMask).toNat = k := by
  cases arch with
  | x64 =>
    have fits : k < 2 ^ 64 := lt_of_le_of_lt le (isLt _)
    rw [GuestArch.registerMask, and_allOnes, toNat_ofNat, mod_eq_of_lt fits]
  | x86 =>
    have mask : GuestArch.x86.registerMask = widthMask dword.bytes := rfl
    have bound : (widthMask dword.bytes).toNat < 2 ^ 32 := by decide
    have fits : k < 2 ^ 32 := lt_of_le_of_lt le bound
    rw [mask, and_widthMask, toNat_operand, toNat_setWidth, toNat_ofNat,
      mod_eq_of_lt (fits.trans (by decide))]
    exact mod_eq_of_lt fits

theorem withCount_allowed (move : StringMove) :
    move.Allowed width (m.withCount k).settle ↔ move.Allowed width m := by
  cases move with
  | movs =>
    rw [StringMove.Allowed, withCount_pointer m (by decide), withCount_pointer m (by decide)]
    rfl
  | stos =>
    rw [StringMove.Allowed, withCount_pointer m (by decide)]
    rfl

theorem withCount_repeat (m : Machine P) (le : k ≤ repeatCount m.cpu rep) :
    repeatCount (m.withCount k).settle.cpu rep = if rep then k else 1 := by
  cases rep with
  | false => rfl
  | true =>
    have bound : k ≤ m.cpu.arch.registerMask.toNat := by
      refine le_trans le ?_
      exact and_le_right
    rw [repeatCount, if_pos rfl, if_pos rfl, Machine.settle, materializeFlags_get,
      materializeFlags_arch, Machine.withCount, get_set_self, set_arch, BitVec.and_assoc,
      BitVec.and_self, count_masked _ bound]

theorem follows_direction_iff (width : OperandWidth) :
    FollowsDirection host move width.bytes rep m ↔
      ¬ DirectionSet m.cpu ∨ repeatCount m.cpu rep = 0 ∨ ¬ move.Allowed width.bytes m := by
  constructor
  · intro follows
    by_contra violated
    obtain ⟨down, rest⟩ := not_or.mp violated
    obtain ⟨some, allowed⟩ := not_or.mp rest
    -- one repeat is enough to tell the two loops apart
    have le : 1 ≤ repeatCount m.cpu rep := one_le_iff_ne_zero.mpr some
    have one : repeatCount (m.withCount 1).settle.cpu rep = 1 := by
      rw [withCount_repeat m le, ite_self]
    obtain ⟨t, ran, differs⟩ := StringMove.arm_downwards
      ((withCount_direction m).mpr (not_not.mp down)) one
      ((withCount_allowed move).mpr (not_not.mp allowed))
    exact differs (follows 1 le t ((StringMove.executeIr_move move).trans ran))
  · intro condition k le t ran
    rw [StringMove.executeIr_move] at ran
    have count := withCount_repeat m le
    rcases condition with up | none | refused
    · rw [← StringMove.arm_upwards (mt (withCount_direction m).mp up), ran]
    · have idle : repeatCount (m.withCount k).settle.cpu rep = 0 := by
        cases rep with
        | false => cases none
        | true => exact count.trans (le_zero.mp (none ▸ le))
      rw [← StringMove.arm_nothing idle, ran]
    · by_cases idle : repeatCount (m.withCount k).settle.cpu rep = 0
      · rw [← StringMove.arm_nothing idle, ran]
      · exact absurd ran (StringMove.arm_refused idle (mt (withCount_allowed move).mp refused))

/-- MOVS and STOS follow the direction flag exactly when it is clear, or there is
nothing to move, or nothing can be moved. LODS, CMPS and SCAS always do. -/
theorem string_instructions_direction (host : Host P) (width : OperandWidth) (rep repne : Bool)
    (m : Machine P) :
    (∀ move : StringMove, FollowsDirection host move width.bytes rep m ↔
      ¬ DirectionSet m.cpu ∨ repeatCount m.cpu rep = 0 ∨ ¬ move.Allowed width.bytes m) ∧
    (executeIr host [.lods width.bytes rep]).run m =
      (architecturalLods width.bytes rep).run m.settle ∧
    (executeIr host [.cmps width.bytes rep repne]).run m =
      (architecturalCmps width.bytes rep repne).run m.settle ∧
    (executeIr host [.scas width.bytes rep repne]).run m =
      (architecturalScas width.bytes rep repne).run m.settle := by
  refine ⟨fun move => follows_direction_iff width, ?_, ?_, ?_⟩
  · rw [← lods_architectural]
    exact executeIr_single (fun _ => rfl)
  · rw [← cmps_architectural]
    exact executeIr_single (fun _ => rfl)
  · rw [← scas_architectural]
    exact executeIr_single (fun _ => rfl)

/-- One page of memory with the string pointers inside it and DF set. -/
def descending : Machine barePlatform :=
  let up := bareMachine .x64 (fun | .rsi => 0x1400 | .rdi => 0x1800 | _ => 0) [(0x1000, .zeroed)]
  { up with cpu := { up.cpu with eflagsExtra := 0x400 } }

/-- With DF set, MOVS and STOS of a byte move their pointer up where the
architecture, like LODS, moves it down. -/
theorem string_moves_ignore_direction :
    DirectionSet descending.cpu ∧
    (∃ t, (executeIr bareHost [.movs 1 false]).run descending = .ok () t ∧
      t.cpu.get .rdi = 0x1801) ∧
    (∃ t, (architecturalMovs 1 false).run descending = .ok () t ∧ t.cpu.get .rdi = 0x17ff) ∧
    (∃ t, (executeIr bareHost [.stos 1 false]).run descending = .ok () t ∧
      t.cpu.get .rdi = 0x1801) ∧
    (∃ t, (executeIr bareHost [.lods 1 false]).run descending = .ok () t ∧
      t.cpu.get .rsi = 0x13ff) := by
  refine ⟨by decide +kernel, ⟨_, rfl, ?_⟩, ⟨_, rfl, ?_⟩, ⟨_, rfl, ?_⟩,
    ⟨_, rfl, ?_⟩⟩ <;> decide +kernel

end Casa.Cpu
