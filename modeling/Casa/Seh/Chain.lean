import Casa.Seh
import Mathlib.Data.BitVec
import Mathlib.Tactic.LinearCombination

/-! Chained unwind information. One frame is unwound entry by entry, as `unwind_frames`
and `rtl_unwind` do it; each entry starts again at the stack pointer of the context,
and the position that the entries before it had reached is gone. -/
namespace Casa.Seh
open Casa.Cpu MachineInt X64Context List Option

def maxChainDepth : Nat := 32

section Chain
variable (getUnwindInfo : U32 → Option UnwindInfo) (reader : MemoryReader) (target : Option U32)

/-- The loop over the entries of one frame, with the depth that is left. -/
def unwindChain : Nat → UnwindInfo → X64Context → UnwindResult × X64Context
  | 0, _, context => (.notFound, context)
  | depth + 1, info, context =>
    let unwound := virtualUnwindAt reader info context target
    if unwound.1 = .collided then
      match info.chainedInfoRva.bind getUnwindInfo with
      | some next => unwindChain depth next unwound.2
      | none => unwound
    else unwound

def unwindFrame (info : UnwindInfo) (context : X64Context) : UnwindResult × X64Context :=
  unwindChain getUnwindInfo reader target maxChainDepth info context

end Chain

/-- The entries behind the first one, up to the primary. -/
def Linked (getUnwindInfo : U32 → Option UnwindInfo) : UnwindInfo → List UnwindInfo → Prop
  | primary, [] => primary.flags &&& 0x04 = 0
  | entry, next :: rest =>
    entry.flags &&& 0x04 ≠ 0 ∧ entry.chainedInfoRva.bind getUnwindInfo = some next ∧
      Linked getUnwindInfo next rest

/-- The primary entry with the codes of the whole chain. -/
def joined (first : UnwindInfo) (rest : List UnwindInfo) : UnwindInfo :=
  { (first :: rest).getLast (List.cons_ne_nil first rest) with
    codes := (first :: rest).flatMap UnwindInfo.codes }

/-! ## The codes that are replayed -/

def effective (target : Option U32) (codes : List UnwindCode) : List UnwindCode :=
  if inEpilog codes target then [] else codes.takeWhile fun code => !pending target code

theorem replayCodes_eq_foldl (reader : MemoryReader) (target : Option U32) (codes : List UnwindCode)
    (s : Replay) :
    replayCodes reader target codes s =
      (codes.takeWhile fun code => !pending target code).foldl (replayCode reader) s := by
  induction codes generalizing s with
  | nil => rfl
  | cons code rest ih =>
    rw [replayCodes, takeWhile_cons]
    cases pending target code with
    | true => rfl
    | false => exact ih _

def Replay.start (context : X64Context) : Replay := ⟨context, context.gpr .rsp, 0, false⟩

/-- The check that every entry makes of the stack pointer. -/
def Accepted (context : X64Context) : Prop := ¬ (context.gpr .rsp = 0 ∨ context.gpr .rsp &&& 7 ≠ 0)

section Entry
variable {reader : MemoryReader} {target : Option U32} {info : UnwindInfo}

theorem replay_effective :
    (if inEpilog info.codes target then Replay.start context
      else replayCodes reader target info.codes (Replay.start context)) =
    (effective target info.codes).foldl (replayCode reader) (Replay.start context) := by
  rw [effective]
  split
  · rfl
  · rw [replayCodes_eq_foldl]

theorem unwind_chained (accepted : Accepted context) (chained : info.flags &&& 0x04 ≠ 0) :
    virtualUnwindAt reader info context target =
      (.collided, ((effective target info.codes).foldl (replayCode reader) (Replay.start context)).context) := by
  rw [virtualUnwindAt, if_neg accepted]
  rw [if_pos chained]
  exact congrArg (fun s : Replay => (UnwindResult.collided, s.context)) replay_effective

theorem unwind_primary (accepted : Accepted context) (primary : info.flags &&& 0x04 = 0) :
    (virtualUnwindAt reader info context target).1 ≠ .collided ∧
    (virtualUnwindAt reader info context target).2 =
      popReturn reader ((effective target info.codes).foldl (replayCode reader) (Replay.start context)) := by
  rw [virtualUnwindAt, if_neg accepted]
  rw [if_neg (not_not_intro primary)]
  refine ⟨?_, congrArg (popReturn reader) replay_effective⟩
  dsimp only
  split
  · exact UnwindResult.noConfusion
  · exact UnwindResult.noConfusion

end Entry

/-! ## Positions -/

/-- Where the replay stands, before any register is read: the stack pointer or the last
frame pointer, and the bytes popped since. -/
structure Position where
  base : Option (U8 × U32)
  adjust : U64

def Position.stack : Position := ⟨none, 0⟩

def Position.after (p : Position) : UnwindCode → Position
  | .pushNonVolatile _ _ => { p with adjust := p.adjust + 8 }
  | .allocLarge _ size => { p with adjust := p.adjust + size.setWidth 64 }
  | .allocSmall _ size => { p with adjust := p.adjust + size.setWidth 64 }
  | .setFramePointer _ register offset => ⟨some (register, offset), 0⟩
  | _ => p

namespace UnwindCode

def readsTop : UnwindCode → Bool
  | pushNonVolatile _ _ => true
  | pushMachineFrame _ _ => true
  | _ => false

def readsOffset : UnwindCode → Bool
  | saveNonVolatile _ _ _ => true
  | saveNonVolatileFar _ _ _ => true
  | saveXmm128 _ _ _ => true
  | saveXmm128Far _ _ _ => true
  | _ => false

def loads : UnwindCode → Option Register
  | pushNonVolatile _ register => getNonvolatileRegister register
  | saveNonVolatile _ register _ => getNonvolatileRegister register
  | saveNonVolatileFar _ register _ => getNonvolatileRegister register
  | _ => none

def loadsXmm : UnwindCode → Option (Fin 16)
  | saveXmm128 _ register _ => some (Fin.ofNat 16 register.toNat)
  | saveXmm128Far _ register _ => some (Fin.ofNat 16 register.toNat)
  | _ => none

def keepsStack (code : UnwindCode) : Bool :=
  match code with
  | pushMachineFrame _ _ => false
  | code => code.loads != some .rsp

end UnwindCode

/-- The codes of a chain with the places where one entry follows another. -/
def items : List UnwindCode → List (List UnwindCode) → List (Option UnwindCode)
  | first, [] => first.map some
  | first, next :: rest => first.map some ++ none :: items next rest

/-- Wherever a code reads, and at the end, the position of the chain is the position of the
codes in one piece; the stack pointer stays as it is while an entry is still to come. -/
def Carries (p q : Position) : List (Option UnwindCode) → Prop
  | [] => p = q
  | none :: rest => Carries p .stack rest
  | some code :: rest =>
    (code.readsTop → p = q) ∧ (code.readsOffset → p.base = q.base) ∧
      (none ∈ rest → code.keepsStack) ∧ Carries (p.after code) (q.after code) rest

section Steps
variable (reader : MemoryReader)

/-- The codes in one piece do not see where an entry ends. -/
def wholeStep (s : Replay) : Option UnwindCode → Replay
  | some code => replayCode reader s code
  | none => s

def chainStep (s : Replay) : Option UnwindCode → Replay
  | some code => replayCode reader s code
  | none => .start s.context

end Steps

theorem foldl_whole (first : List UnwindCode) (rest : List (List UnwindCode)) (s : Replay) :
    (items first rest).foldl (wholeStep reader) s =
      (first ++ rest.flatten).foldl (replayCode reader) s := by
  induction rest generalizing first s with
  | nil =>
    rw [items, foldl_map, flatten_nil, append_nil]
    rfl
  | cons next rest ih => simp [items, foldl_map, ih, wholeStep]

/-! ## A chain that carries its position -/

/-- The replay in one piece and the replay of the chain. -/
structure Sim (rsp : U64) (p q : Position) (s c : Replay) : Prop where
  context : s.context = c.context
  machineFrame : s.machineFrame = c.machineFrame
  whole : s.stackAdjust = p.adjust
  chain : c.stackAdjust = q.adjust
  base : p.base = q.base → s.frameBase = c.frameBase
  stack : p.base = none → s.frameBase = rsp

section Simulation
variable {rsp : U64}

theorem Sim.top (sim : Sim rsp p q s c) (same : p = q) :
    s.frameBase + s.stackAdjust = c.frameBase + c.stackAdjust := by
  rw [sim.base (congrArg Position.base same), sim.whole, sim.chain, same]

theorem Sim.popReturn (sim : Sim rsp p q s c) (same : p = q) :
    popReturn reader s = popReturn reader c := by
  rw [Seh.popReturn, Seh.popReturn, sim.machineFrame, sim.context, sim.top same]

theorem Sim.restored (sim : Sim rsp p q s c) {context : X64Context} (same : context = context') :
    Sim rsp p q { s with context } { c with context := context' } :=
  { sim with context := same }

theorem Sim.moved (sim : Sim rsp p q s c) :
    Sim rsp { p with adjust := p.adjust + bytes } { q with adjust := q.adjust + bytes }
      { s with stackAdjust := s.stackAdjust + bytes } { c with stackAdjust := c.stackAdjust + bytes } :=
  ⟨sim.context, sim.machineFrame, congrArg (· + bytes) sim.whole, congrArg (· + bytes) sim.chain,
    sim.base, sim.stack⟩

theorem Sim.replay (sim : Sim rsp p q s c) (top : code.readsTop → p = q)
    (offset : code.readsOffset → p.base = q.base) :
    Sim rsp (p.after code) (q.after code) (replayCode reader s code) (replayCode reader c code) := by
  cases code with
  | pushNonVolatile => exact (sim.restored (by rw [sim.context, sim.top (top rfl)])).moved
  | allocLarge | allocSmall => exact sim.moved
  | setFramePointer =>
    rw [replayCode, sim.context]
    exact ⟨rfl, sim.machineFrame, rfl, rfl, fun _ => rfl, fun none => by cases none⟩
  | saveNonVolatile | saveNonVolatileFar | saveXmm128 | saveXmm128Far =>
    exact sim.restored (by rw [sim.context, sim.base (offset rfl)])
  | epilog | spare => exact sim
  | pushMachineFrame =>
    rw [replayCode, sim.context, sim.top (top rfl)]
    exact ⟨rfl, rfl, sim.whole, sim.chain, sim.base, sim.stack⟩

/-- The stack pointer of the context and the kind of frame that the next entry starts from. -/
structure Steady (rsp : U64) (c : Replay) : Prop where
  rsp : c.context.gpr .rsp = rsp
  machineFrame : c.machineFrame = false

/-- A code leaves the registers alone that it does not load. -/
theorem replay_gpr (keeps : code.keepsStack) (other : code.loads ≠ some register) :
    (replayCode reader c code).context.gpr register = c.context.gpr register := by
  cases code with
  | pushNonVolatile | saveNonVolatile | saveNonVolatileFar => exact restore_gpr other
  | saveXmm128 | saveXmm128Far => exact congrFun (restoreXmm_gpr _) register
  | pushMachineFrame => cases keeps
  | _ => rfl

theorem keepsStack_loads {code : UnwindCode} (keeps : code.keepsStack) :
    code.loads ≠ some .rsp := by
  cases code with
  | pushMachineFrame => cases keeps
  | _ => exact bne_iff_ne.mp keeps

theorem Steady.replay (steady : Steady rsp c) (keeps : code.keepsStack) :
    Steady rsp (replayCode reader c code) := by
  refine ⟨(replay_gpr keeps (keepsStack_loads keeps)).trans steady.rsp, ?_⟩
  cases code with
  | pushMachineFrame => cases keeps
  | _ => exact steady.machineFrame

/-- Both replays end alike. -/
theorem Carries.popReturn (carries : Carries p q list) (sim : Sim rsp p q s c)
    (steady : none ∈ list → Steady rsp c) :
    popReturn reader (list.foldl (wholeStep reader) s) =
      popReturn reader (list.foldl (chainStep reader) c) := by
  induction list generalizing p q s c with
  | nil => exact sim.popReturn carries
  | cons item rest ih =>
    cases item with
    | none =>
      obtain ⟨stack, machine⟩ := steady mem_cons_self
      have fresh : Sim rsp p .stack s (.start c.context) :=
        { context := sim.context
          machineFrame := sim.machineFrame.trans machine
          whole := sim.whole
          chain := rfl
          base := fun unframed => (sim.stack unframed).trans stack.symm
          stack := sim.stack }
      exact ih carries fresh fun _ => ⟨stack, rfl⟩
    | some =>
      obtain ⟨top, offset, keeps, carries⟩ := carries
      exact ih carries (sim.replay top offset) fun later =>
        (steady (mem_cons_of_mem _ later)).replay (keeps later)

end Simulation

theorem Carries.entry {first : List UnwindCode} {tail : List (Option UnwindCode)}
    (carries : Carries p q (first.map some ++ none :: tail)) :
    (∀ code ∈ first, code.keepsStack) ∧ ∃ p', Carries p' .stack tail := by
  induction first generalizing p q with
  | nil => exact ⟨fun _ member => absurd member not_mem_nil, p, carries⟩
  | cons code rest ih =>
    obtain ⟨-, -, keeps, carries⟩ := carries
    obtain ⟨others, later⟩ := ih carries
    refine ⟨fun other member => ?_, later⟩
    rcases mem_cons.mp member with rfl | inRest
    · exact keeps (mem_append_right _ mem_cons_self)
    · exact others other inRest

theorem Steady.foldl {rsp : U64} (steady : Steady rsp c) {codes : List UnwindCode}
    (keeps : ∀ code ∈ codes, code.keepsStack) : Steady rsp (codes.foldl (replayCode reader) c) :=
  foldlRecOn codes _ steady fun _ steady code member => steady.replay (keeps code member)

/-- The replayed codes of the entries of a chain. -/
def parts (target : Option U32) (rest : List UnwindInfo) : List (List UnwindCode) :=
  rest.map fun entry => effective target entry.codes

/-- Every entry but the last keeps the stack pointer. -/
def KeptBefore (target : Option U32) : UnwindInfo → List UnwindInfo → Prop
  | _, [] => True
  | entry, next :: rest =>
    (∀ code ∈ effective target entry.codes, code.keepsStack = true) ∧ KeptBefore target next rest

theorem Carries.keptBefore
    (carries : Carries p q (items (effective target first.codes) (parts target rest))) :
    KeptBefore target first rest := by
  induction rest generalizing first p q with
  | nil => trivial
  | cons next rest ih =>
    obtain ⟨keeps, p', carries⟩ := carries.entry
    exact ⟨keeps, ih carries⟩

theorem unwindChain_eq (linked : Linked getUnwindInfo first rest) (enough : rest.length < depth)
    (accepted : Accepted context) (kept : KeptBefore target first rest) :
    (unwindChain getUnwindInfo reader target depth first context).2 =
      popReturn reader ((items (effective target first.codes) (parts target rest)).foldl (chainStep reader)
        (.start context)) := by
  induction rest generalizing first depth context with
  | nil =>
    obtain ⟨depth, rfl⟩ := Nat.exists_eq_add_of_lt enough
    obtain ⟨done, popped⟩ := @unwind_primary reader target _ _ accepted linked
    rw [unwindChain, if_neg done, popped, parts, map_nil, items, foldl_map]
    rfl
  | cons next rest ih =>
    obtain ⟨depth, rfl⟩ := Nat.exists_eq_add_of_lt enough
    obtain ⟨chained, found, linked⟩ := linked
    obtain ⟨keeps, kept⟩ := kept
    have start : Steady (context.gpr .rsp) (.start context) := ⟨rfl, rfl⟩
    have steady : Steady (context.gpr .rsp)
        ((effective target first.codes).foldl (replayCode reader) (.start context)) := start.foldl keeps
    have stillAccepted : Accepted
        ((effective target first.codes).foldl (replayCode reader) (.start context)).context := by
      rw [Accepted, steady.rsp]
      exact accepted
    have deeper : rest.length < rest.length + 1 + depth := by omega
    have later := ih linked deeper stillAccepted kept
    rw [parts, map_cons, items, foldl_append, foldl_map]
    refine Eq.trans ?_ later
    rw [length_cons, unwindChain, unwind_chained accepted chained, if_pos rfl, found]

theorem unwind_refused_entry (refused : ¬ Accepted context) :
    virtualUnwindAt reader info context target = (.notFound, context) := by
  rw [virtualUnwindAt, if_pos (not_not.mp refused)]

theorem joined_primary (linked : Linked getUnwindInfo first rest) :
    (joined first rest).flags &&& 0x04 = 0 := by
  induction rest generalizing first with
  | nil => exact linked
  | cons next rest ih =>
    exact ih linked.2.2

/-! ## When the chain is as good as one piece -/

/-- The chain is not too deep, the codes that the target lets pass are the same ones, and
no position is lost between the entries. -/
structure Carried (target : Option U32) (first : UnwindInfo) (rest : List UnwindInfo) : Prop where
  shallow : rest.length < maxChainDepth
  together : effective target (joined first rest).codes =
    effective target first.codes ++ (parts target rest).flatten
  carries : Carries .stack .stack (items (effective target first.codes) (parts target rest))

/-- Unwinding through the chain leaves the context that one piece leaves. -/
def Same (getUnwindInfo : U32 → Option UnwindInfo) (target : Option U32) (first : UnwindInfo)
    (rest : List UnwindInfo) : Prop :=
  ∀ (reader : MemoryReader) (context : X64Context),
    (unwindFrame getUnwindInfo reader target first context).2 =
      (virtualUnwindAt reader (joined first rest) context target).2

/-- What one piece leaves, by the items of the chain. -/
theorem joined_unwind (linked : Linked getUnwindInfo first rest)
    (together : effective target (joined first rest).codes = effective target first.codes ++ (parts target rest).flatten)
    (reader : MemoryReader) (accepted : Accepted context) :
    (virtualUnwindAt reader (joined first rest) context target).2 =
      popReturn reader ((items (effective target first.codes) (parts target rest)).foldl (wholeStep reader)
        (.start context)) := by
  rw [(unwind_primary accepted (joined_primary linked)).2, together, foldl_whole]

theorem Carried.same (linked : Linked getUnwindInfo first rest)
    (carried : Carried target first rest) : Same getUnwindInfo target first rest := by
  intro reader context
  by_cases accepted : Accepted context
  · have start : Sim (context.gpr .rsp) .stack .stack (.start context) (.start context) :=
      ⟨rfl, rfl, rfl, rfl, fun _ => rfl, fun _ => rfl⟩
    rw [unwindFrame, unwindChain_eq linked carried.shallow accepted carried.carries.keptBefore,
      joined_unwind linked carried.together reader accepted]
    exact (carried.carries.popReturn start fun _ => ⟨rfl, rfl⟩).symm
  · rw [unwind_refused_entry accepted, unwindFrame, maxChainDepth, unwindChain,
      unwind_refused_entry accepted, if_neg]
    exact UnwindResult.noConfusion

/-! ## When it is not -/

def wholePosition (p : Position) : Option UnwindCode → Position
  | some code => p.after code
  | none => p

def chainPosition (p : Position) : Option UnwindCode → Position
  | some code => p.after code
  | none => .stack

def Misread (p q : Position) (code : UnwindCode) : Prop :=
  code.readsTop = true ∧ p ≠ q ∨ code.readsOffset = true ∧ p.base ≠ q.base

/-- The positions differ at a code that reads, or at the end. -/
def Diverges (p q : Position) (list : List (Option UnwindCode)) : Prop :=
  (∃ before code after, list = before ++ some code :: after ∧
    Misread (before.foldl wholePosition p) (before.foldl chainPosition q) code) ∨
  list.foldl wholePosition p ≠ list.foldl chainPosition q

theorem Diverges.cons (diverges : Diverges (wholePosition p item) (chainPosition q item) list) :
    Diverges p q (item :: list) := by
  rcases diverges with ⟨before, code, after, rfl, differ⟩ | differ
  · exact .inl ⟨item :: before, code, after, rfl, differ⟩
  · exact .inr differ

theorem diverges_of_not_carries (keeps : ∀ code, some code ∈ list → code.keepsStack)
    (fails : ¬ Carries p q list) : Diverges p q list := by
  induction list generalizing p q with
  | nil => exact .inr fails
  | cons item rest ih =>
    have keepsRest (code : UnwindCode) (member : some code ∈ rest) :=
      keeps code (mem_cons_of_mem item member)
    cases item with
    | none =>
      have later : Diverges (wholePosition p none) (chainPosition q none) rest := ih keepsRest fails
      exact later.cons
    | some code =>
      by_cases misread : Misread p q code
      · exact .inl ⟨[], code, rest, rfl, misread⟩
      rw [Misread, not_or] at misread
      have later : Diverges (wholePosition p (some code)) (chainPosition q (some code)) rest := by
        refine ih keepsRest fun carries => fails ⟨?_, ?_, fun _ => keeps code mem_cons_self, carries⟩
        · exact fun reads => not_not.mp fun differ => misread.1 ⟨reads, differ⟩
        · exact fun reads => not_not.mp fun differ => misread.2 ⟨reads, differ⟩
      exact later.cons

/-! ### Quiet memory -/

def Position.baseIn (context : X64Context) (p : Position) : U64 :=
  match p.base with
  | none => context.gpr .rsp
  | some (register, offset) =>
    ((getNonvolatileRegister register).map context.gpr).getD 0 - offset.setWidth 64

/-- Whatever the code loads is what its register has already. -/
structure Quiet (reader : MemoryReader) (context : X64Context) (code : UnwindCode) : Prop where
  gpr : ∀ register, code.loads = some register → ∀ address value,
    readU64FromGuest reader address = some value → value = context.gpr register
  xmm : ∀ register, code.loadsXmm = some register → ∀ address value,
    readXmm128FromGuest reader address = some value → value = context.xmm register
  keeps : code.keepsStack = true

/-- A replay that has changed nothing but its position. -/
structure Stands (context : X64Context) (p : Position) (s : Replay) : Prop where
  kept : s.context = context
  base : s.frameBase = p.baseIn context
  adjust : s.stackAdjust = p.adjust
  machineFrame : s.machineFrame = false

section Quiet
variable {context : X64Context}

theorem set_same : context.set register (context.gpr register) = context := by
  refine X64Context.ext (funext fun other => ?_) rfl rfl
  rw [X64Context.set_gpr]
  split
  case isTrue same => rw [same]
  case isFalse => rfl

theorem setXmm_same : context.setXmm register (context.xmm register) = context := by
  refine X64Context.ext rfl rfl (funext fun other => ?_)
  rw [X64Context.setXmm]
  dsimp only
  split
  case isTrue same => rw [same]
  case isFalse => rfl

theorem restore_quiet
    (quiet : ∀ register, getNonvolatileRegister index = some register →
      ∀ value, saved = some value → value = context.gpr register) :
    context.restore index saved = context := by
  cases saved with
  | none => rfl
  | some value =>
    cases found : getNonvolatileRegister index with
    | none => simp only [restore, found]
    | some register =>
      simp only [restore, found]
      rw [quiet register found value rfl, set_same]

theorem restoreXmm_quiet (quiet : ∀ value, saved = some value →
      value = context.xmm ⟨index.toNat % 16, Nat.mod_lt _ (by decide)⟩) :
    context.restoreXmm index saved = context := by
  cases saved with
  | none => rfl
  | some value => rw [restoreXmm, quiet value rfl, setXmm_same]

theorem Quiet.replay_context (quiet : Quiet reader s.context code) :
    (replayCode reader s code).context = s.context := by
  cases code with
  | pushNonVolatile | saveNonVolatile | saveNonVolatileFar =>
    exact restore_quiet fun found named => quiet.gpr found named _
  | saveXmm128 | saveXmm128Far => exact restoreXmm_quiet (quiet.xmm _ rfl _)
  | pushMachineFrame => exact absurd quiet.keeps Bool.false_ne_true
  | _ => rfl

theorem Stands.replay (stands : Stands context p s) (quiet : Quiet reader context code) :
    Stands context (p.after code) (replayCode reader s code) := by
  have same := stands.kept
  subst same
  refine ⟨quiet.replay_context, ?_, ?_, ?_⟩
  · cases code with
    | setFramePointer => rfl
    | _ => exact stands.base
  · cases code with
    | pushNonVolatile => exact congrArg (· + 8) stands.adjust
    | allocLarge codeOffset size | allocSmall codeOffset size =>
      exact congrArg (· + size.setWidth 64) stands.adjust
    | setFramePointer => rfl
    | _ => exact stands.adjust
  · cases code with
    | pushMachineFrame => exact absurd quiet.keeps Bool.false_ne_true
    | _ => exact stands.machineFrame

theorem Stands.start : Stands context .stack (.start context) := ⟨rfl, rfl, rfl, rfl⟩

theorem Stands.whole {list : List (Option UnwindCode)} (stands : Stands context p s)
    (quiet : ∀ code, some code ∈ list → Quiet reader context code) :
    Stands context (list.foldl wholePosition p) (list.foldl (wholeStep reader) s) := by
  refine foldl_rel stands fun item member _ _ stands => ?_
  cases item with
  | none => exact stands
  | some code => exact stands.replay (quiet code member)

theorem Stands.chain {list : List (Option UnwindCode)} (stands : Stands context p s)
    (quiet : ∀ code, some code ∈ list → Quiet reader context code) :
    Stands context (list.foldl chainPosition p) (list.foldl (chainStep reader) s) := by
  refine foldl_rel stands fun item member _ s stands => ?_
  cases item with
  | none =>
    change Stands context .stack (.start s.context)
    rw [stands.kept]
    exact .start
  | some code => exact stands.replay (quiet code member)

end Quiet

/-! ### Probes -/

/-- One register has a value of its own, and so has one vector register. -/
def probe (special : Register) (own other : U64) (xmm : Fin 16 → Xmm128) : X64Context where
  gpr register := if register = .rsp then 8 else if register = special then own else other
  rip := own
  xmm := xmm

/-- Memory that answers one request only. -/
def answering (address : U64) (n : Nat) (bytes : List U8) : MemoryReader :=
  fun asked length => if asked = address ∧ length = n then some bytes else none

def UnwindCode.distance (p : Position) : UnwindCode → U64
  | pushNonVolatile _ _ => p.adjust
  | saveNonVolatile _ _ offset => offset.setWidth 64
  | saveNonVolatileFar _ _ offset => offset.setWidth 64
  | saveXmm128 _ _ offset => offset.setWidth 64
  | saveXmm128Far _ _ offset => offset.setWidth 64
  | _ => 0

section Probe
variable {p q : Position}

theorem Stands.load (stands : Stands context p s) (loads : code.loads = some register) :
    (replayCode reader s code).context =
      ((readU64FromGuest reader (p.baseIn context + code.distance p)).map (context.set register)).getD context := by
  have same := stands.kept
  subst same
  have restored (index : U8) (found : getNonvolatileRegister index = some register) (saved : Option U64) :
      s.context.restore index saved = (saved.map (s.context.set register)).getD s.context := by
    cases saved with
    | none => rfl
    | some => simp only [restore, found, map_some, getD_some]
  cases code with
  | pushNonVolatile codeOffset index =>
    rw [← stands.base]
    exact (restored index loads _).trans (by rw [UnwindCode.distance, stands.adjust])
  | saveNonVolatile codeOffset index | saveNonVolatileFar codeOffset index =>
    rw [← stands.base]
    exact restored index loads _
  | _ => cases loads

theorem Stands.loadXmm (stands : Stands context p s) (loads : code.loadsXmm = some register) :
    (replayCode reader s code).context =
      ((readXmm128FromGuest reader (p.baseIn context + code.distance p)).map (context.setXmm register)).getD context := by
  have same := stands.kept
  subst same
  have restored (index : U8) (saved : Option Xmm128) :
      s.context.restoreXmm index saved =
        (saved.map (s.context.setXmm ⟨index.toNat % 16, Nat.mod_lt _ (by decide)⟩)).getD s.context := by
    cases saved <;> rfl
  cases code with
  | saveXmm128 codeOffset index | saveXmm128Far codeOffset index =>
    cases loads
    rw [← stands.base]
    exact restored index _
  | _ => cases loads

/-- Two positions that a probe can tell apart. -/
theorem separate (related : q.base = none ∨ q.base = p.base)
    (frame : ∀ index offset, p.base = some (index, offset) →
      ∃ register, getNonvolatileRegister index = some register ∧ register ≠ .rsp)
    (left right : U64) (differ : p.base = q.base → left ≠ right) :
    ∃ own other : U64, own ≠ other ∧ ∀ special xmm,
      p.baseIn (probe special own other xmm) + left ≠ q.baseIn (probe special own other xmm) + right := by
  by_cases same : p.base = q.base
  · refine ⟨0, 1, by decide, fun special xmm equal => differ same ?_⟩
    rw [Position.baseIn, same] at equal
    exact add_left_cancel equal
  · have stack : q.base = none := related.resolve_right fun eq => same eq.symm
    cases base : p.base with
    | none => exact absurd (base.trans stack.symm) same
    | some pair =>
      obtain ⟨index, offset⟩ := pair
      obtain ⟨register, found, notStack⟩ := frame index offset base
      -- both values miss the one at which the addresses meet
      refine ⟨8 + right - left + offset.setWidth 64 + 1, 8 + right - left + offset.setWidth 64 + 2, ?_, ?_⟩
      · exact fun equal => absurd (add_left_cancel equal) (by decide)
      · intro special xmm equal
        simp only [Position.baseIn, base, stack, found, map_some, getD_some, probe, if_neg notStack, if_true] at equal
        split at equal
        · have one : (1 : U64) = 0 := by
            linear_combination equal
          exact absurd one (by decide)
        · have two : (2 : U64) = 0 := by
            linear_combination equal
          exact absurd two (by decide)

end Probe

/-! ### Plain chains -/

/-- Chains in which each register is saved once and its code names it rightly. -/
structure Plain (codes : List UnwindCode) : Prop where
  keeps : ∀ code ∈ codes, code.keepsStack = true
  named : ∀ code ∈ codes, code.readsTop = true ∨ code.readsOffset = true →
    code.loads.isSome = true ∨ code.loadsXmm.isSome = true
  frames : ∀ codeOffset index offset, .setFramePointer codeOffset index offset ∈ codes →
    ∃ register, getNonvolatileRegister index = some register ∧ register ≠ .rsp
  once : (codes.filterMap UnwindCode.loads).Nodup
  onceXmm : (codes.filterMap UnwindCode.loadsXmm).Nodup

theorem items_codes : (items first rest).filterMap id = first ++ rest.flatten := by
  induction rest generalizing first with
  | nil =>
    rw [items, filterMap_map, flatten_nil, append_nil]
    exact filterMap_some
  | cons next rest ih =>
    rw [items, filterMap_append, filterMap_cons_none rfl, ih, filterMap_map]
    exact congrArg (· ++ (next ++ rest.flatten)) filterMap_some

section Plain
variable {list after : List (Option UnwindCode)}

theorem mem_codes (member : some code ∈ list) :
    code ∈ list.filterMap id := mem_filterMap.mpr ⟨some code, member, rfl⟩

/-- A register is loaded at one place only. -/
theorem loaded_once (once : (((before ++ some code :: after).filterMap id).filterMap f).Nodup)
    (loads : f code = some register) (member : some other ∈ before ∨ some other ∈ after) :
    f other ≠ some register := by
  intro same
  rw [filterMap_append, filterMap_cons_some (rfl : id (some code) = some code), filterMap_append,
    filterMap_cons_some loads] at once
  obtain ⟨-, later, apart⟩ := nodup_append.mp once
  rcases member with early | late
  · exact apart register (mem_filterMap.mpr ⟨other, mem_codes early, same⟩) register mem_cons_self rfl
  · exact (nodup_cons.mp later).1 (mem_filterMap.mpr ⟨other, mem_codes late, same⟩)

/-- The chain has lost the frame pointer or has the same one. -/
theorem related_positions (related : q.base = none ∨ q.base = p.base) :
    (list.foldl chainPosition q).base = none ∨
      (list.foldl chainPosition q).base = (list.foldl wholePosition p).base := by
  refine foldl_rel (r := fun q p : Position => q.base = none ∨
    q.base = p.base) related fun item _ _ _ related => ?_
  cases item with
  | none => exact .inl rfl
  | some code =>
    cases code with
    | setFramePointer => exact .inr rfl
    | _ => exact related

theorem positions_related : (list.foldl chainPosition .stack).base = none ∨
      (list.foldl chainPosition .stack).base = (list.foldl wholePosition .stack).base :=
  related_positions (.inl rfl)

/-- A frame pointer that a position has was set by a code. -/
theorem position_frame (base : (list.foldl wholePosition p).base = some (index, offset)) :
    p.base = some (index, offset) ∨
      ∃ codeOffset, some (.setFramePointer codeOffset index offset) ∈ list := by
  revert base
  refine foldlRecOn (motive := fun q : Position => q.base = _ → _ ∨
    _) list wholePosition .inl fun _ earlier item member base => ?_
  cases item with
  | none => exact earlier base
  | some code =>
    cases code with
    | setFramePointer codeOffset =>
      cases base
      exact .inr ⟨codeOffset, member⟩
    | _ => exact earlier base

end Plain

/-- Both replays keep what no code changes. -/
theorem foldl_keeps (observe : X64Context → α) {list : List (Option UnwindCode)}
    (keeps : ∀ code, some code ∈ list →
      ∀ s, observe (replayCode reader s code).context = observe s.context)
    (s : Replay) :
    observe (list.foldl (wholeStep reader) s).context = observe s.context ∧
      observe (list.foldl (chainStep reader) s).context = observe s.context := by
  constructor
  all_goals
    refine foldlRecOn (motive := fun c : Replay => observe c.context = _) list _ rfl fun c same item member => ?_
    cases item with
    | none => exact same
    | some code => exact (keeps code member c).trans same

theorem answering_u64 :
    readU64FromGuest (answering address 8 (toLeBytes 8 value)) asked =
      if asked = address then some value else none := by
  rw [readU64FromGuest, answering]
  by_cases same : asked = address
  · rw [if_pos ⟨same, rfl⟩, if_pos same, map_some, fromLeBytes_toLeBytes, BitVec.setWidth_eq,
      BitVec.setWidth_eq]
  · rw [if_neg fun both => same both.1, if_neg same, map_none]

theorem answering_u64_no_xmm : readXmm128FromGuest (answering address 8 bytes) asked = none := by
  rw [readXmm128FromGuest, answering, if_neg (by omega), map_none]

theorem answering_xmm : readXmm128FromGuest (answering address 16 (replicate 16 0)) asked =
    if asked = address then some ⟨0, 0⟩ else none := by
  rw [readXmm128FromGuest, answering]
  by_cases same : asked = address
  · rw [if_pos ⟨same, rfl⟩, if_pos same]
    rfl
  · rw [if_neg fun both => same both.1, if_neg same, map_none]

theorem answering_xmm_no_u64 : readU64FromGuest (answering address 16 bytes) asked = none := by
  rw [readU64FromGuest, answering, if_neg (by omega), map_none]

theorem probe_accepted {xmm : Fin 16 → Xmm128} : Accepted (probe special own other xmm) := by
  have stack : (probe special own other xmm).gpr .rsp = 8 := by simp only [probe, if_true]
  rw [Accepted, stack]
  decide

theorem popReturn_gpr (notStack : register ≠ .rsp) :
    (popReturn reader s).gpr register = s.context.gpr register := by
  rw [popReturn]
  split
  · rfl
  · exact if_neg notStack

theorem popReturn_xmm : (popReturn reader s).xmm = s.context.xmm := by
  rw [popReturn]
  split <;> rfl

theorem replay_xmm (other : code.loadsXmm ≠ some register) (keeps : code.keepsStack) :
    (replayCode reader s code).context.xmm register = s.context.xmm register := by
  have restored (index : U8) (saved : Option Xmm128)
      (differ : (⟨index.toNat % 16, Nat.mod_lt _ (by decide)⟩ : Fin 16) ≠ register) :
      (s.context.restoreXmm index saved).xmm register = s.context.xmm register := by
    cases saved with
    | none => rfl
    | some => exact if_neg differ.symm
  cases code with
  | pushNonVolatile | saveNonVolatile | saveNonVolatileFar =>
    exact congrFun (restore_xmm _) register
  | saveXmm128 | saveXmm128Far => exact restored _ _ fun same => other (congrArg some same)
  | pushMachineFrame => cases keeps
  | _ => rfl

/-- Some memory and some context make the two replays end differently. -/
def Distinguished (list : List (Option UnwindCode)) : Prop :=
  ∃ (reader : MemoryReader) (context : X64Context), Accepted context ∧
    popReturn reader (list.foldl (wholeStep reader) (.start context)) ≠
      popReturn reader (list.foldl (chainStep reader) (.start context))

section Distinguish
variable {list after : List (Option UnwindCode)}

theorem Misread.distance (misread : Misread p q code) (keeps : code.keepsStack)
    (same : p.base = q.base) : code.distance p ≠ code.distance q := by
  rcases misread with ⟨top, differ⟩ | ⟨-, differ⟩
  · cases code with
    | pushNonVolatile =>
      intro adjust
      obtain ⟨base, bytes⟩ := p
      obtain ⟨base', bytes'⟩ := q
      exact differ (by rw [Position.mk.injEq]; exact ⟨same, adjust⟩)
    | pushMachineFrame => cases keeps
    | _ => cases top
  · exact absurd same differ

variable (plain : Plain (list.filterMap id))
include plain

theorem Plain.frame (base : (list.foldl wholePosition .stack).base = some (index, offset)) :
    ∃ register, getNonvolatileRegister index = some register ∧ register ≠ .rsp := by
  rcases position_frame base with none | ⟨codeOffset, member⟩
  · cases none
  · exact plain.frames codeOffset index offset (mem_codes member)

theorem Plain.distinguished_end
    (differ : list.foldl wholePosition .stack ≠ list.foldl chainPosition .stack) :
    Distinguished list := by
  obtain ⟨own, other, -, apart⟩ := separate positions_related (fun _ _ => plain.frame)
    (list.foldl wholePosition .stack).adjust (list.foldl chainPosition .stack).adjust
    fun base adjust => differ (by
      cases whole : list.foldl wholePosition .stack
      cases chain : list.foldl chainPosition .stack
      simp only [whole, chain] at base adjust
      rw [base, adjust])
  let reader : MemoryReader := fun _ _ => none
  let context := probe .rax own other fun _ => ⟨0, 0⟩
  have quiet (code : UnwindCode) (member : some code ∈ list) : Quiet reader context code :=
    ⟨fun _ _ _ _ answer => (some_ne_none _ answer.symm).elim,
      fun _ _ _ _ answer => (some_ne_none _ answer.symm).elim, plain.keeps code (mem_codes member)⟩
  have whole := (Stands.start).whole quiet
  have chain := (Stands.start).chain quiet
  refine ⟨reader, context, probe_accepted, fun same => ?_⟩
  have pointers := congrArg (fun context => context.gpr .rsp) same
  simp only [popReturn, whole.machineFrame, chain.machineFrame,
    whole.base, whole.adjust, chain.base, chain.adjust] at pointers
  exact apart _ _ (add_right_cancel pointers)

omit plain in
/-- What one code loads differently, and nothing else touches, is seen at the end. -/
theorem distinguished_of_load {α : Type} (reader : MemoryReader) (context : X64Context)
    (observe : X64Context → α) (accepted : Accepted context)
    (quiet : ∀ early, some early ∈ before → Quiet reader context early)
    (kept : ∀ late, some late ∈ after →
      ∀ s, observe (replayCode reader s late).context = observe s.context)
    (popped : ∀ s, observe (popReturn reader s) = observe s.context)
    (differ : ∀ s c, Stands context (before.foldl wholePosition .stack) s → Stands context (before.foldl chainPosition .stack) c → observe (replayCode reader s code).context ≠ observe (replayCode reader c code).context) :
    Distinguished (before ++ some code :: after) := by
  refine ⟨reader, context, accepted, fun same => ?_⟩
  have seen := congrArg observe same
  rw [popped, popped, foldl_append, foldl_append, foldl_cons, foldl_cons,
    (foldl_keeps observe kept _).1, (foldl_keeps observe kept _).2] at seen
  exact differ _ _ ((Stands.start).whole quiet) ((Stands.start).chain quiet) seen

theorem Plain.mem_keeps (member : some code ∈ list) : code.keepsStack :=
  plain.keeps code (mem_codes member)

theorem Plain.mem_notStack (member : some code ∈ list) (loads : code.loads = some register) :
    register ≠ .rsp :=
  fun same => keepsStack_loads (plain.mem_keeps member) (same ▸ loads)

omit plain in
/-- A probe for the place of a misread. -/
theorem Plain.separate_at (plain : Plain ((before ++ some code :: after).filterMap id))
    (misread : Misread (before.foldl wholePosition .stack) (before.foldl chainPosition .stack) code) :
    ∃ own other : U64, own ≠ other ∧ ∀ special xmm,
      (before.foldl wholePosition .stack).baseIn (probe special own other xmm) +
          code.distance (before.foldl wholePosition .stack) ≠
        (before.foldl chainPosition .stack).baseIn (probe special own other xmm) +
          code.distance (before.foldl chainPosition .stack) := by
  refine separate positions_related (fun index offset base => ?_) _ _
    (misread.distance (plain.mem_keeps (mem_append_right _ mem_cons_self)))
  rcases position_frame base with none | ⟨codeOffset, member⟩
  · cases none
  · exact plain.frames codeOffset index offset (mem_codes (mem_append_left _ member))

omit plain in
/-- A code that reads at different places loads different values. -/
theorem Plain.distinguished_load (plain : Plain ((before ++ some code :: after).filterMap id))
    (loads : code.loads = some register)
    (misread : Misread (before.foldl wholePosition .stack) (before.foldl chainPosition .stack) code) :
    Distinguished (before ++ some code :: after) := by
  have notStack : register ≠ .rsp := plain.mem_notStack (mem_append_right _ mem_cons_self) loads
  have elsewhere {other : UnwindCode} (member : some other ∈ before ∨ some other ∈ after) :
      other.loads ≠ some register := loaded_once plain.once loads member
  obtain ⟨own, other, unequal, apart⟩ := plain.separate_at misread
  let context := probe register own other fun _ => ⟨0, 0⟩
  let address := (before.foldl wholePosition .stack).baseIn context + code.distance
    (before.foldl wholePosition .stack)
  -- the one word that memory answers is what every other register has
  refine distinguished_of_load (answering address 8 (toLeBytes 8 other)) context
    (fun context => context.gpr register)
    probe_accepted ?quiet ?kept (fun _ => popReturn_gpr notStack) ?differ
  case quiet =>
    intro early member
    refine ⟨fun loaded names asked value answer => ?_, fun _ _ asked value answer => ?_,
      plain.mem_keeps (mem_append_left _ member)⟩
    · have notSpecial : loaded ≠ register := fun same => elsewhere (.inl member) (same ▸ names)
      have notRsp : loaded ≠ .rsp := plain.mem_notStack (mem_append_left _ member) names
      rw [answering_u64] at answer
      split at answer
      · rw [← some.inj answer]
        simp only [context, probe, if_neg notRsp, if_neg notSpecial]
      · cases answer
    · rw [answering_u64_no_xmm] at answer
      cases answer
  case kept =>
    intro late member s
    exact replay_gpr (plain.mem_keeps (mem_append_right _ (mem_cons_of_mem _ member))) (elsewhere (.inr member))
  case differ =>
    intro s c whole chain equal
    rw [whole.load loads, chain.load loads, answering_u64, answering_u64, if_pos rfl,
      if_neg (Ne.symm (apart register _))] at equal
    simp only [map_some, getD_some, map_none, getD_none, X64Context.set_gpr, if_true] at equal
    refine unequal ?_
    rw [equal]
    simp only [context, probe, if_neg notStack, if_true]

omit plain in
theorem Plain.distinguished_loadXmm (plain : Plain ((before ++ some code :: after).filterMap id))
    (loads : code.loadsXmm = some register)
    (misread : Misread (before.foldl wholePosition .stack) (before.foldl chainPosition .stack) code) :
    Distinguished (before ++ some code :: after) := by
  have elsewhere {other : UnwindCode} (member : some other ∈ before ∨ some other ∈ after) :
      other.loadsXmm ≠ some register := loaded_once plain.onceXmm loads member
  obtain ⟨own, other, -, apart⟩ := plain.separate_at misread
  let context := probe .rax own other fun vector => if vector = register then ⟨1, 0⟩ else ⟨0, 0⟩
  let address := (before.foldl wholePosition .stack).baseIn context + code.distance
    (before.foldl wholePosition .stack)
  refine distinguished_of_load (answering address 16 (replicate 16 0)) context
    (fun context => context.xmm register)
    probe_accepted ?quiet ?kept (fun _ => congrFun popReturn_xmm register) ?differ
  case quiet =>
    intro early member
    refine ⟨fun _ _ asked value answer => ?_, fun loaded names asked value answer => ?_,
      plain.mem_keeps (mem_append_left _ member)⟩
    · rw [answering_xmm_no_u64] at answer
      cases answer
    · have notSpecial : loaded ≠ register := fun same => elsewhere (.inl member) (same ▸ names)
      rw [answering_xmm] at answer
      split at answer
      · rw [← some.inj answer]
        simp only [context, probe, if_neg notSpecial]
      · cases answer
  case kept =>
    intro late member s
    exact replay_xmm (elsewhere (.inr member)) (plain.mem_keeps (mem_append_right _ (mem_cons_of_mem _ member)))
  case differ =>
    intro s c whole chain equal
    rw [whole.loadXmm loads, chain.loadXmm loads, answering_xmm, answering_xmm, if_pos rfl,
      if_neg (Ne.symm (apart .rax _))] at equal
    simp only [map_some, getD_some, map_none, getD_none, X64Context.setXmm, if_true, context,
      probe] at equal
    exact absurd (congrArg Xmm128.low equal) (by decide)

/-- A plain chain that loses a position can be told from one piece. -/
theorem Plain.distinguished (fails : ¬ Carries .stack .stack list) : Distinguished list := by
  rcases diverges_of_not_carries (fun _ member => plain.mem_keeps member) fails with
    ⟨before, code, after, rfl, misread⟩ | differ
  · have reads : code.readsTop ∨ code.readsOffset := misread.imp And.left And.left
    rcases plain.named code (mem_codes (mem_append_right _ mem_cons_self)) reads with gpr | xmm
    · obtain ⟨register, loads⟩ := isSome_iff_exists.mp gpr
      exact plain.distinguished_load loads misread
    · obtain ⟨register, loads⟩ := isSome_iff_exists.mp xmm
      exact plain.distinguished_loadXmm loads misread
  · exact plain.distinguished_end differ

end Distinguish

/-! ### Chains that are too deep -/

theorem replay_rip (keeps : code.keepsStack) :
    (replayCode reader s code).context.rip = s.context.rip := by
  cases code with
  | pushNonVolatile | saveNonVolatile | saveNonVolatileFar => exact restore_rip _
  | saveXmm128 | saveXmm128Far => exact restoreXmm_rip _
  | pushMachineFrame => cases keeps
  | _ => rfl

theorem foldl_rip {codes : List UnwindCode} (keeps : ∀ code ∈ codes, code.keepsStack) (s : Replay) :
    (codes.foldl (replayCode reader) s).context.rip = s.context.rip :=
  foldlRecOn (motive := fun c : Replay => c.context.rip = _) codes _ rfl fun _ same code member =>
    (replay_rip (keeps code member)).trans same

section Deep
variable {first : UnwindInfo}

/-- The loop gives up before the primary entry and has popped no return address. -/
theorem unwindChain_deep (linked : Linked getUnwindInfo first rest) (deep : depth ≤ rest.length)
    (keeps : ∀ entry ∈ first :: rest, ∀ code ∈ effective target entry.codes, code.keepsStack) :
    (unwindChain getUnwindInfo reader target depth first context).2.rip = context.rip := by
  induction depth generalizing first rest context with
  | zero => rfl
  | succ depth ih =>
    cases rest with
    | nil => exact absurd deep (Nat.not_succ_le_zero depth)
    | cons next rest =>
      obtain ⟨chained, found, linked⟩ := linked
      rw [unwindChain]
      by_cases accepted : Accepted context
      · have later := @ih next rest ((effective target first.codes).foldl (replayCode reader) (.start context)).context linked
          (Nat.le_of_succ_le_succ deep) fun entry member => keeps entry (mem_cons_of_mem first member)
        rw [unwind_chained accepted chained, found]
        exact later.trans (foldl_rip (keeps first mem_cons_self) (.start context))
      · rw [unwind_refused_entry accepted, if_neg UnwindResult.noConfusion]

/-- In one piece the return address is popped at any depth. -/
theorem Plain.pops_return {list : List (Option UnwindCode)} (plain : Plain (list.filterMap id)) :
    ∃ (reader : MemoryReader) (context : X64Context), Accepted context ∧
      (popReturn reader (list.foldl (wholeStep reader) (.start context))).rip ≠ context.rip := by
  let context := probe .rsp 0 1 fun _ => ⟨0, 0⟩
  let address :=
    (list.foldl wholePosition .stack).baseIn context + (list.foldl wholePosition .stack).adjust
  let reader := answering address 8 (toLeBytes 8 (1 : U64))
  have quiet (code : UnwindCode) (member : some code ∈ list) : Quiet reader context code := by
    refine ⟨fun loaded names asked value answer => ?_, fun _ _ asked value answer => ?_, plain.mem_keeps member⟩
    · have notRsp : loaded ≠ .rsp := plain.mem_notStack member names
      rw [answering_u64] at answer
      split at answer
      · rw [← some.inj answer]
        simp [context, probe, if_neg notRsp]
      · cases answer
    · rw [answering_u64_no_xmm] at answer
      cases answer
  have whole := (Stands.start).whole quiet
  refine ⟨reader, context, probe_accepted, ?_⟩
  rw [popReturn, whole.machineFrame, whole.base, whole.adjust]
  dsimp only
  rw [answering_u64, if_pos rfl]
  exact (by decide : (1 : U64) ≠ 0)

theorem keptBefore_of_keeps
    (keeps : ∀ entry ∈ first :: rest, ∀ code ∈ effective target entry.codes, code.keepsStack) :
    KeptBefore target first rest := by
  induction rest generalizing first with
  | nil => trivial
  | cons next rest ih =>
    exact ⟨keeps first mem_cons_self, ih fun entry member => keeps entry (mem_cons_of_mem first member)⟩

theorem Same.carried (linked : Linked getUnwindInfo first rest)
    (together : effective target (joined first rest).codes = effective target first.codes ++ (parts target rest).flatten)
    (plain : Plain (effective target (joined first rest).codes))
    (same : Same getUnwindInfo target first rest) : Carried target first rest := by
  have keeps (entry : UnwindInfo) (member : entry ∈ first :: rest) (code : UnwindCode)
      (replayed : code ∈ effective target entry.codes) : code.keepsStack := by
    refine plain.keeps code ?_
    rw [together]
    rcases mem_cons.mp member with rfl | inRest
    · exact mem_append_left _ replayed
    · exact mem_append_right _ (mem_flatten.mpr ⟨_, mem_map.mpr ⟨entry, inRest, rfl⟩, replayed⟩)
  have whole : Plain ((items (effective target first.codes) (parts target rest)).filterMap id) := by
    rw [items_codes, ← together]
    exact plain
  have shallow : rest.length < maxChainDepth := by
    refine Nat.lt_of_not_le fun deep => ?_
    obtain ⟨reader, context, accepted, popped⟩ := whole.pops_return
    rw [← joined_unwind linked together reader accepted, ← same reader context] at popped
    exact popped (unwindChain_deep linked deep keeps)
  refine ⟨shallow, together, not_not.mp fun fails => ?_⟩
  obtain ⟨reader, context, accepted, differ⟩ := whole.distinguished fails
  refine differ ?_
  rw [← joined_unwind linked together reader accepted,
    ← unwindChain_eq linked shallow accepted (keptBefore_of_keeps keeps)]
  exact (same reader context).symm

end Deep

/-! ## Chained entries and one piece -/

/-- A chain unwinds as one piece if it carries its position, and a plain chain only then. -/
theorem chained_unwind_as_joined {getUnwindInfo : U32 → Option UnwindInfo} {target : Option U32}
    {first : UnwindInfo} {rest : List UnwindInfo} (linked : Linked getUnwindInfo first rest) :
    (Carried target first rest → Same getUnwindInfo target first rest) ∧
    (effective target (joined first rest).codes = effective target first.codes ++ (parts target rest).flatten →
      Plain (effective target (joined first rest).codes) →
      (Same getUnwindInfo target first rest ↔ Carried target first rest)) :=
  ⟨Carried.same linked,
    fun together plain => ⟨Same.carried linked together plain, Carried.same linked⟩⟩

/-- An entry with the codes; the chained ones point at the address 0. -/
def entryOf (flags : U8) (codes : List UnwindCode) (chained : Option U32) : UnwindInfo :=
  ⟨flags, codes, none, chained⟩

/-- A register saved by a move, as compilers do it for a part of the function. -/
def movedLate : UnwindInfo := entryOf 4 [.saveNonVolatile 6 6 0x28] (some 0)

def allocated : UnwindInfo := entryOf 0 [.allocSmall 5 0x20, .pushNonVolatile 1 3] none

theorem chained_unwind_as_joined_moved :
    Linked (fun _ => some allocated) movedLate [allocated] ∧ Carried none movedLate [allocated] ∧
      Same (fun _ => some allocated) none movedLate [allocated] := by
  have linked : Linked (fun _ => some allocated) movedLate [allocated] := ⟨by decide, rfl, rfl⟩
  have carried : Carried none movedLate [allocated] :=
    { shallow := by decide
      together := rfl
      carries := ⟨fun _ => rfl, fun _ => rfl, fun _ => rfl, fun _ => rfl, fun _ => rfl, fun _ => rfl,
        fun _ => rfl, fun _ => rfl, fun _ => rfl, rfl⟩ }
  exact ⟨linked, carried, (chained_unwind_as_joined linked).1 carried⟩

def pushedLate : UnwindInfo := entryOf 4 [.pushNonVolatile 1 3] (some 0)

def pushedFirst : UnwindInfo := entryOf 0 [.pushNonVolatile 1 5] none

/-- Each word of memory holds its address. -/
def addressed : MemoryReader := fun address n => some (toLeBytes n address)

/-- With two pushes the second entry reads the slot of the first again. -/
theorem chained_unwind_rereads_slot :
    let context : X64Context := ⟨fun _ => 8, 0, fun _ => ⟨0, 0⟩⟩
    let chain := (unwindFrame (fun _ => some pushedFirst) addressed none pushedLate context).2
    let whole := (virtualUnwindAt addressed (joined pushedLate [pushedFirst]) context none).2
    Linked (fun _ => some pushedFirst) pushedLate [pushedFirst] ∧
      (chain.gpr .rbx, chain.gpr .rbp, chain.rip, chain.gpr .rsp) = (8, 8, 16, 24) ∧
      (whole.gpr .rbx, whole.gpr .rbp, whole.rip, whole.gpr .rsp) = (8, 16, 24, 32) := by
  refine ⟨⟨by decide, rfl, rfl⟩, by decide, by decide⟩

end Casa.Seh
