import Casa.Lib.Exec
import Casa.Lib.MachineInt

/-! Access validation of the canonical virtual-memory layer (vm.rs). Ordered
maps are association lists in ascending key order. -/
namespace Casa.Vm
open Effect

def vmPageSize : U64 := 0x1000

def vmPageMask : U64 := ~~~(vmPageSize - 1)

structure VmProtection where
  read : Bool
  write : Bool
  execute : Bool
  deriving DecidableEq

structure VmPageState where
  protection : VmProtection
  guard : Bool
  committed : Bool
  deriving DecidableEq

inductive VmRegionKind where
  | «private»
  | image
  | heap
  | stack
  deriving DecidableEq

structure VmRegion where
  base : U64
  size : U64
  kind : VmRegionKind
  pages : List (U64 × VmPageState)
  deriving DecidableEq

def VmRegion.contains (region : VmRegion) (address : U64) : Bool :=
  region.base.ule address && (address - region.base).ult region.size

structure VmAccessFault where
  address : U64
  write : Bool
  guard : Bool

structure VirtualMemory where
  regions : List (U64 × VmRegion)

/-- The innermost region: the highest base among those that cover the address. -/
def VirtualMemory.regionContaining (vm : VirtualMemory) (address : U64) : Option VmRegion :=
  let candidates := (vm.regions.filter fun entry => entry.1.ule address).reverse
  (candidates.find? fun entry => entry.2.contains address).map (·.2)

def VirtualMemory.checkAccess (vm : VirtualMemory) (address : U64) (write execute : Bool) :
    Result VmAccessFault Unit :=
  let page := address &&& vmPageMask
  let fault guard : VmAccessFault := ⟨address, write, guard⟩
  match vm.regionContaining address with
  | none => .error (fault false)
  | some region =>
    match region.pages.lookup page with
    | none => .error (fault false)
    | some state =>
      if !state.committed then .error (fault false)
      else if state.guard then .error (fault true)
      else
        let allowed := (execute && state.protection.execute) || (write && state.protection.write)
          || (!execute && !write && state.protection.read)
        if allowed then .ok () else .error (fault false)

theorem VirtualMemory.checkAccess_cases (vm : VirtualMemory) :
    vm.checkAccess address write execute = .ok () ∨
      ∃ fault, vm.checkAccess address write execute = .error fault := by
  unfold checkAccess
  dsimp only
  split
  · exact .inr ⟨_, rfl⟩
  · split
    · exact .inr ⟨_, rfl⟩
    · split
      · exact .inr ⟨_, rfl⟩
      · split
        · exact .inr ⟨_, rfl⟩
        · split
          · exact .inl rfl
          · exact .inr ⟨_, rfl⟩

end Casa.Vm
