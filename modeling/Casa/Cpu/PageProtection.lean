import Casa.Cpu.CheckedWrite
import Casa.Vm.Pages

/-! What the checked accessors ask of the canonical virtual-memory layer. A read
asks again at every page of its range; a write asks at its first address only, so
the pages after the first are protected by nothing but the page map. -/
namespace Casa.Cpu
open Effect MachineInt Vm

namespace MemoryImage

/-- The layer grants the access on every page that the range touches. -/
def GrantsRange (vm : VirtualMemory) (write : Bool) (address : U64) (len : Nat) : Prop :=
  ∀ i < len, vm.Grants write ((address + BitVec.ofNat 64 i) &&& vmPageMask)

def WritesOnlyGranted (m : MemoryImage) (vm : VirtualMemory) (address : U64) (buf : List U8) :
    Prop :=
  (∃ t, (guestWriteChecked address buf).run m = .ok () t) → GrantsRange vm true address buf.length

def ReadsOnlyGranted (m : MemoryImage) (vm : VirtualMemory) (address : U64) (len : Nat) : Prop :=
  (∃ bytes, m.guestReadChecked address len = .ok bytes) → GrantsRange vm false address len

/-- A writable page followed by a read-only one. -/
def readOnlyTail : VirtualMemory :=
  (VmOperation.run (VmSpace.new 0x10000)
    [.register 0x1000 0x2000 .image, .commit 0x1000 0x2000 ⟨true, true, false⟩ false,
      .protect 0x2000 0x1000 ⟨true, false, false⟩]).toVirtualMemory

theorem readOnlyTail_reachable : readOnlyTail.Reachable := ⟨_, _, rfl⟩

section Checks
variable {m : MemoryImage} {vm : VirtualMemory}

theorem chunk_grants (granted : vm.Grants write (address &&& vmPageMask))
    (inside : i < (chunkAt address len).len) :
    vm.Grants write ((address + BitVec.ofNat 64 i) &&& vmPageMask) := by
  have samePage : (address + BitVec.ofNat 64 i) &&& vmPageMask = address &&& vmPageMask :=
    (chunkAt_address inside).1
  rwa [samePage]

/-- The layer is asked at the start of every chunk, and its answer there is the
answer for the chunk's page. -/
theorem readChunks_granted (attached : m.vm = some vm) (aligned : vm.Aligned) (enough : len ≤ fuel)
    (returned : m.readChunks fuel address len = .ok bytes) : GrantsRange vm false address len := by
  induction fuel generalizing address len bytes with
  | zero =>
    intro i inside
    omega
  | succ fuel ih =>
    intro i inside
    have left : len ≠ 0 := by omega
    obtain ⟨page, rest, allowed, -, tail, -⟩ := readChunks_eq_ok left returned
    have granted : vm.Grants false (address &&& vmPageMask) := by
      have asked := Result.isOk_iff.mpr ⟨_, allowed⟩
      rw [checkCanonicalAccess, attached] at asked
      rw [← checkAccess_isOk_iff aligned]
      exact (Result.isOk_mapError _).symm.trans asked
    by_cases here : i < (chunkAt address len).len
    · exact chunk_grants granted here
    · obtain ⟨j, rfl⟩ := Nat.exists_eq_add_of_le (Nat.le_of_not_lt here)
      have positive := chunkAt_len_pos address left
      rw [address_add]
      exact ih (by omega) tail j (by omega)

theorem acceptsWrite_iff : m.acceptsWrite address len ↔
    (m.checkWriteAccess address len).isOk ∧ m.firstGap address len = none := by
  have scanned : (m.firstUnmappedInRange address len : Result GuestMemoryFault _) =
      .ok ((m.firstGap address len).map fun i => address + BitVec.ofNat 64 i) := scanUnmapped_eq le_rfl
  rw [acceptsWrite, scanned]
  cases m.firstGap address len <;> simp

/-- A write returns exactly when its first page is granted and no byte is missing. -/
theorem guestWriteChecked_returns_iff (attached : m.vm = some vm) (aligned : vm.Aligned) :
    (∃ t, (guestWriteChecked address buf).run m = .ok () t) ↔
      vm.Grants true (address &&& vmPageMask) ∧ m.firstGap address buf.length = none := by
  have asked : (m.checkWriteAccess address buf.length).isOk ↔
      vm.Grants true (address &&& vmPageMask) := by
    rw [← checkAccess_isOk_iff aligned, checkWriteAccess, attached]
    exact Iff.of_eq (congrArg (· = true) (Result.isOk_mapError _))
  rw [← asked, ← acceptsWrite_iff]
  constructor
  · rintro ⟨t, wrote⟩
    exact accepts_of_guestWriteChecked wrote
  · intro accepted
    have scanned : (m.scanUnmapped buf.length address buf.length : Result GuestMemoryFault _) = .ok none := by
      rw [scanUnmapped_eq le_rfl, (acceptsWrite_iff.mp accepted).2]
      rfl
    obtain ⟨t, stored⟩ := writeChunks_returns (ε := GuestMemoryFault) scanned
    exact ⟨t, (guestWriteChecked_of_accepts accepted).trans stored⟩

end Checks

/-- Four bytes across the boundary: the last two land in the read-only page. -/
theorem guestWriteChecked_ignores_later_page :
    ¬ WritesOnlyGranted { ofPages [(0x1000, .zeroed), (0x2000, .zeroed)] with vm := some readOnlyTail }
      readOnlyTail 0x1ffe [1, 2, 3, 4] := by
  intro granted
  have first :=
    (checkAccess_isOk_iff readOnlyTail_reachable.aligned 0x1ffe true).mp (by decide +kernel)
  have range := granted ((guestWriteChecked_returns_iff rfl readOnlyTail_reachable.aligned).mpr
    ⟨first, by decide +kernel⟩)
  have last :=
    (checkAccess_isOk_iff readOnlyTail_reachable.aligned 0x2001 true).mpr (range 3 (by decide))
  revert last
  decide +kernel

/-- With a canonical layer attached, however it was built, a checked read
returns only what every page of its range grants. A checked write does so if and
only if its first page is refused, a byte of its range is not mapped, or every
page of its range is granted. -/
theorem checked_access_granted_iff {m : MemoryImage} {vm : VirtualMemory}
    (attached : m.vm = some vm) (reachable : vm.Reachable) (address : U64) :
    (∀ len, m.ReadsOnlyGranted vm address len) ∧
    ∀ buf, m.WritesOnlyGranted vm address buf ↔
      (¬ vm.Grants true (address &&& vmPageMask) ∨
        (∃ i < buf.length, m.byteMapped (address + BitVec.ofNat 64 i) = false) ∨
        GrantsRange vm true address buf.length) := by
  have aligned := reachable.aligned
  refine ⟨?_, fun buf => ?_⟩
  · rintro len ⟨bytes, returned⟩
    obtain ⟨_, -, returned⟩ := Result.bind_eq_ok.mp returned
    obtain ⟨missing, -, returned⟩ := Result.bind_eq_ok.mp returned
    cases missing with
    | some => cases returned
    | none =>
      cases copied : m.readInto address len with
      | ok => exact readChunks_granted attached aligned le_rfl copied
      | error | panic => rw [copied] at returned; cases returned
  · rw [WritesOnlyGranted, guestWriteChecked_returns_iff attached aligned, firstGap_eq_none]
    constructor
    · intro granted
      by_cases first : vm.Grants true (address &&& vmPageMask)
      · by_cases full : ∀ i < buf.length, m.byteMapped (address + BitVec.ofNat 64 i) = true
        · exact .inr (.inr (granted ⟨first, full⟩))
        · simp only [not_forall] at full
          obtain ⟨i, inside, unmapped⟩ := full
          exact .inr (.inl ⟨i, inside, Bool.of_not_eq_true unmapped⟩)
      · exact .inl first
    · rintro (refused | ⟨i, inside, unmapped⟩ | all) ⟨first, full⟩
      · exact absurd first refused
      · rw [full i inside] at unmapped
        cases unmapped
      · exact all

theorem checked_access_granted_iff_readOnlyTail :
    let m := { ofPages [(0x1000, .zeroed), (0x2000, .zeroed)] with vm := some readOnlyTail }
    (∀ len, ReadsOnlyGranted m readOnlyTail 0x1ffe len) ∧
    ∀ buf, WritesOnlyGranted m readOnlyTail 0x1ffe buf ↔
      (¬ readOnlyTail.Grants true ((0x1ffe : U64) &&& vmPageMask) ∨
        (∃ i < buf.length, m.byteMapped (0x1ffe + BitVec.ofNat 64 i) = false) ∨
        GrantsRange readOnlyTail true 0x1ffe buf.length) :=
  checked_access_granted_iff rfl readOnlyTail_reachable 0x1ffe

end MemoryImage

end Casa.Cpu
