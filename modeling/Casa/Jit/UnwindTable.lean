import Casa.Lib.Along
import Mathlib.Data.BitVec
import Mathlib.Data.List.Nodup
import Casa.Lib.MachineInt

/-! The unwind table of compiled blocks (jit/unwind.rs) beside the addresses of the cached blocks
(jit/code_cache.rs). The table knows a block by the low half of its address. Evictions and
invalidations of pages come down to those of single blocks. -/
namespace Casa.Jit
open Effect List

structure JitUnwindInfo where
  startRva : U32
  endRva : U32
  unwindData : List U8

structure JitUnwindTable where
  entries : List JitUnwindInfo
  dirty : Bool

namespace JitUnwindTable

def registerBlock (table : JitUnwindTable) (startAddr endAddr : U64) : JitUnwindTable :=
  let funcLen := ((endAddr - startAddr) / 4).setWidth 32
  let packed := if 0x3f < funcLen then 0x3f else funcLen.setWidth 8
  ⟨table.entries ++ [⟨startAddr.setWidth 32, endAddr.setWidth 32, [packed, 0]⟩], true⟩

def unregisterBlock (table : JitUnwindTable) (guestAddress : U64) : Bool × JitUnwindTable :=
  let entries := table.entries.filter fun entry => entry.startRva ≠ guestAddress.setWidth 32
  let removed := decide (entries.length ≠ table.entries.length)
  (removed, ⟨entries, removed || table.dirty⟩)

end JitUnwindTable

inductive UnwindCall where
  | compile (address stop : U64)
  | compileFunction (entry stop : U64)
  | invalidate (address : U64)

structure UnwindTrace where
  cached : List U64
  table : JitUnwindTable

namespace UnwindTrace

def new : UnwindTrace := ⟨[], [], false⟩

/-- A block is compiled where none is cached, a whole function also over a block of a lower tier. -/
def step (t : UnwindTrace) : UnwindCall → UnwindTrace
  | .compile address stop =>
    if address ∈ t.cached then t else ⟨t.cached ++ [address], t.table.registerBlock address stop⟩
  | .compileFunction entry stop =>
    ⟨t.cached.filter (· ≠ entry) ++ [entry], t.table.registerBlock entry stop⟩
  | .invalidate address =>
    if address ∈ t.cached then ⟨t.cached.filter (· ≠ address), (t.table.unregisterBlock address).2⟩ else t

/-- The table has one entry for each cached block. -/
def Exact (t : UnwindTrace) : Prop :=
  (t.table.entries.map (·.startRva)).Perm (t.cached.map (·.setWidth 32))

/-- No other cached block has the low half of the new one, and no function replaces a block. -/
def Apart (t : UnwindTrace) : UnwindCall → Prop
  | .compile address _ =>
    ∀ other ∈ t.cached, other.setWidth 32 = address.setWidth 32 → other = address
  | .compileFunction entry _ => ∀ other ∈ t.cached, other.setWidth 32 ≠ entry.setWidth 32
  | .invalidate _ => True

structure Kept (t : UnwindTrace) : Prop where
  entries : t.table.entries.map (·.startRva) = t.cached.map (·.setWidth 32)
  distinct : (t.cached.map (·.setWidth 32)).Nodup

theorem Kept.register (kept : Kept t)
    (fresh : ∀ other ∈ t.cached, other.setWidth 32 ≠ address.setWidth 32) :
    Kept ⟨t.cached ++ [address], t.table.registerBlock address stop⟩ := by
  constructor
  · simp [JitUnwindTable.registerBlock, kept.entries]
  · simpa [nodup_append, kept.distinct] using fresh

theorem Kept.step (kept : Kept t) (apart : Apart t call) : Kept (t.step call) := by
  cases call with
  | compile =>
    rw [UnwindTrace.step]
    split
    case isTrue => exact kept
    case isFalse absent =>
      exact kept.register (fun other member same => absent (apart other member same ▸ member))
  | compileFunction entry =>
    have others : t.cached.filter (· ≠ entry) = t.cached := by
      refine filter_eq_self.mpr fun other member => decide_eq_true fun same => apart other member ?_
      rw [same]
    rw [UnwindTrace.step, others]
    exact kept.register apart
  | invalidate address =>
    rw [UnwindTrace.step]
    split
    case isFalse => exact kept
    case isTrue member =>
      refine ⟨?_, kept.distinct.sublist (filter_sublist.map _)⟩
      have alike : ∀ other ∈ t.cached,
          decide (other.setWidth 32 ≠ address.setWidth 32) = decide (other ≠ address) := by
        intro other there
        rw [decide_eq_decide, not_iff_not]
        exact ⟨inj_on_of_nodup_map kept.distinct there member, congrArg _⟩
      have rest := congrArg (filter (· ≠ address.setWidth 32)) kept.entries
      rw [filter_map, filter_map] at rest
      exact rest.trans (congrArg (map _) (filter_congr alike))

/-- While the low halves of the cached addresses are distinct, also for the entries that a removal leaves. -/
theorem unwind_table_exact (apart : Along step Apart new calls) :
    ∀ taken, taken <+: calls → Exact (taken.foldl step new) := by
  intro taken within
  have start : Kept new := ⟨rfl, nodup_nil⟩
  exact .of_eq (apart.invariant start (fun _ _ kept apart => kept.step apart) taken within).entries

theorem unwind_table_exact_two_blocks :
    Exact ([.compile 0x1000 0x1010, .compile 0x2000 0x2010, .invalidate 0x1000].foldl step new) := by
  have apart : Along step Apart new [.compile 0x1000 0x1010, .compile 0x2000 0x2010, .invalidate 0x1000] := by
    refine ⟨?_, ?_, trivial, trivial⟩
    · intro other member
      cases member
    · intro other member same
      cases mem_singleton.mp member
      exact absurd same (by decide)
  exact unwind_table_exact apart _ prefix_rfl

/-- A block takes the entry of another one with it, and a function gets a second one. -/
theorem unwind_table_offsets_meet :
    ¬ Exact ([.compile 0x1000 0x1010, .compile 0x100001000 0x100001010, .invalidate 0x1000].foldl step new) ∧
      ¬ Exact ([.compile 0x1000 0x1010, .compileFunction 0x1000 0x1010].foldl step new) :=
  ⟨fun exact => absurd exact.length_eq (by decide), fun exact => absurd exact.length_eq (by decide)⟩

end UnwindTrace

end Casa.Jit
