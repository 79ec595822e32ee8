import Casa.Vm.Reserve
import Mathlib.Data.List.Find

/-! Page granularity of the canonical virtual-memory layer. Every region that the
operations build starts and ends on a page boundary, so an access is granted to a
whole page or to no address in it. -/
namespace Casa.Vm
open Effect MachineInt VirtualMemory VmSpace

/-- A region of whole pages, under its own key. -/
structure PageAligned (entry : U64 × VmRegion) : Prop where
  keyed : entry.2.base = entry.1
  base : entry.1.toNat % 0x1000 = 0
  size : entry.2.size.toNat % 0x1000 = 0

def VirtualMemory.Aligned (vm : VirtualMemory) : Prop := ∀ entry ∈ vm.regions, PageAligned entry

/-! ## Every operation keeps regions of whole pages -/

theorem and_vmPageMask_mod (value : U64) : (value &&& vmPageMask).toNat % 0x1000 = 0 := by
  rw [and_vmPageMask_toNat, Nat.mul_mod_left]

theorem pageAlignedSize_mod (size : U64) : (pageAlignedSize size).toNat % 0x1000 = 0 :=
  and_vmPageMask_mod _

theorem pageAligned_ignoresPages : VmSpace.IgnoresPages PageAligned :=
  fun _ _ _ aligned => ⟨aligned.keyed, aligned.base, aligned.size⟩

theorem reserve_aligned {vm : VmSpace} (aligned : vm.Aligned) :
    (vm.reserve base size).2.Aligned := by
  have sized := pageAlignedSize_mod size
  cases base with
  | some requested =>
    rw [reserve]
    split
    · exact aligned
    · exact insertRegion_forall aligned ⟨rfl, and_vmPageMask_mod requested, sized⟩
  | none =>
    rw [reserve]
    split
    · exact aligned
    case h_2 stop fits =>
      have moved : VirtualMemory.Aligned { vm with nextRegionAddress := stop }.toVirtualMemory := aligned
      exact insertRegion_forall moved ⟨rfl, and_vmPageMask_mod _, sized⟩

/-- No condition is needed: a size that wraps in the rounding is still whole pages. -/
theorem VmOperation.apply_aligned (aligned : vm.Aligned) (operation : VmOperation) :
    (operation.apply vm).Aligned := by
  cases operation with
  | reserve => exact reserve_aligned aligned
  | register base size =>
    refine register_forall aligned (fun _ region old => ?_) fun _ => ?_
    · exact ⟨old.keyed, old.base, pageAlignedSize_mod size⟩
    · exact ⟨rfl, and_vmPageMask_mod base, pageAlignedSize_mod size⟩
  | commit base size protection guard =>
    exact commit_forall pageAligned_ignoresPages aligned base size protection guard
  | decommit base size => exact decommit_forall pageAligned_ignoresPages aligned base size
  | protect base size protection =>
    exact protect_forall pageAligned_ignoresPages aligned base size protection
  | release base => exact release_forall aligned base

theorem VmOperation.run_aligned (aligned : vm.Aligned) (operations : List VmOperation) :
    (VmOperation.run vm operations).Aligned := by
  induction operations generalizing vm with
  | nil => exact aligned
  | cons operation rest ih => exact ih (apply_aligned aligned operation)

theorem VmSpace.new_aligned (cursor : U64) : (new cursor).Aligned :=
  fun _ member => nomatch member

/-- The layers that the operations can build; no one else sees the region map. -/
def VirtualMemory.Reachable (vm : VirtualMemory) : Prop :=
  ∃ cursor operations, vm = (VmOperation.run (VmSpace.new cursor) operations).toVirtualMemory

theorem VirtualMemory.Reachable.aligned {vm : VirtualMemory} (reachable : vm.Reachable) :
    vm.Aligned := by
  obtain ⟨cursor, operations, rfl⟩ := reachable
  exact VmOperation.run_aligned (new_aligned cursor) operations

/-! ## Access by whole pages -/

/-- The innermost region over the page has it committed, without a guard and
with the access allowed. -/
def VirtualMemory.Grants (vm : VirtualMemory) (write : Bool) (page : U64) : Prop :=
  ∃ region state, vm.regionContaining page = some region ∧ region.pages.lookup page = some state ∧
    state.committed = true ∧ state.guard = false ∧
    (if write then state.protection.write else state.protection.read) = true

section Access
variable {vm : VirtualMemory}

theorem PageAligned.contains_page (aligned : PageAligned entry) :
    entry.2.contains (address &&& vmPageMask) = entry.2.contains address := by
  have base := aligned.base
  have size := aligned.size
  rw [Bool.eq_iff_iff, VmRegion.contains_iff, VmRegion.contains_iff, and_vmPageMask_toNat,
    aligned.keyed]
  omega

theorem PageAligned.ule_page (aligned : PageAligned entry) :
    entry.1.ule (address &&& vmPageMask) = entry.1.ule address := by
  have base := aligned.base
  rw [Bool.eq_iff_iff, BitVec.ule_iff_toNat_le, BitVec.ule_iff_toNat_le, and_vmPageMask_toNat]
  omega

theorem regionContaining_page (aligned : vm.Aligned) :
    vm.regionContaining (address &&& vmPageMask) = vm.regionContaining address := by
  have candidates : vm.regions.filter (fun entry => entry.1.ule (address &&& vmPageMask)) =
      vm.regions.filter fun entry => entry.1.ule address :=
    List.filter_congr fun entry member => (aligned entry member).ule_page
  rw [regionContaining, candidates]
  congr 1
  refine List.find?_congr fun entry member => ?_
  have present := List.mem_of_mem_filter (List.mem_reverse.mp member)
  exact (aligned entry present).contains_page

/-- The access check at any address decides for its page. -/
theorem checkAccess_isOk_iff (aligned : vm.Aligned) (address : U64) (write : Bool) :
    (vm.checkAccess address write false).isOk ↔ vm.Grants write (address &&& vmPageMask) := by
  rw [checkAccess, VirtualMemory.Grants, regionContaining_page aligned]
  cases vm.regionContaining address with
  | none => simp [Result.isOk]
  | some region =>
    cases lookedUp : region.pages.lookup (address &&& vmPageMask) with
    | none => simp [Result.isOk, lookedUp]
    | some state =>
      obtain ⟨⟨read, written, executed⟩, guard, committed⟩ := state
      cases committed with
      | false => simp [lookedUp, Result.isOk]
      | true =>
        cases guard with
        | true => simp [lookedUp, Result.isOk]
        | false => cases write <;> cases read <;> cases written <;> simp [lookedUp, Result.isOk]

end Access

end Casa.Vm
