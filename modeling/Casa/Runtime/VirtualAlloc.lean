import Casa.Cpu.ZeroRange
import Casa.Lib.Along
import Casa.Vm.CommitRange

/-! The VirtualAlloc, VirtualFree and VirtualProtect thunks (runtime/router/mod.rs,
alloc_impl.rs). They keep two structures by separate calls: the sparse guest memory
and the canonical virtual-memory map. -/
namespace Casa.Runtime
open Effect Vm Cpu MachineInt VmSpace OrderedMap Option
open BitVec (eq_of_toNat_eq isLt)

/-- The parts of the runtime that the three thunks read and write. -/
structure GuestSpace where
  vm : VmSpace
  memory : MemoryImage
  rax : U64
  lastError : U32

def memCommit : U32 := 0x1000
def memReserve : U32 := 0x2000
def memDecommit : U32 := 0x4000
def memRelease : U32 := 0x8000
def errorInvalidParameter : U32 := 87
def errorInvalidAddress : U32 := 487

def pageNoaccess : U32 := 0x01
def pageReadonly : U32 := 0x02
def pageReadwrite : U32 := 0x04
def pageExecute : U32 := 0x10
def pageExecuteRead : U32 := 0x20
def pageExecuteReadwrite : U32 := 0x40
def pageGuard : U32 := 0x100

def protectionFromPageFlags (flags : U32) : VmProtection :=
  let flags := flags &&& ~~~pageGuard
  { read := flags &&&
      (pageReadonly ||| pageReadwrite ||| pageExecuteRead ||| pageExecuteReadwrite) != 0
    write := flags &&& (pageReadwrite ||| pageExecuteReadwrite) != 0
    execute := flags &&& (pageExecute ||| pageExecuteRead ||| pageExecuteReadwrite) != 0 }

def pageFlagsFromProtection (protection : VmProtection) : U32 :=
  match protection.read, protection.write, protection.execute with
  | false, false, false => pageNoaccess
  | true, false, false => pageReadonly
  | true, true, false => pageReadwrite
  | false, false, true => pageExecute
  | true, false, true => pageExecuteRead
  | true, true, true => pageExecuteReadwrite
  | _, _, _ => pageNoaccess

def alignUpU64 (value align : U64) : U64 :=
  if align.ule 1 then value
  else
    let mask := align - 1
    (value + mask) &&& ~~~mask

namespace GuestSpace

def answer (g : GuestSpace) (value : U64) (error : U32) : GuestSpace :=
  { g with rax := value, lastError := error }

def maxPrivatePagesAllocation : U64 := 1 <<< 30

/-- The answer is the address of the new pages. -/
def allocPrivatePages (g : GuestSpace) (requestedAddress size : U64) (protection : VmProtection) :
    Outcome GuestSpace AppError U64 :=
  let requestedSize := alignUpU64 (if size = 0 then 1 else size) 0x1000
  if maxPrivatePagesAllocation.ult requestedSize then
    .error ⟨.rcBufferLimitExceeded, "private page allocation of " ++ hex requestedSize ++
      " bytes exceeds the " ++ hex maxPrivatePagesAllocation ++ "-byte bound", []⟩ g
  else
    let candidate := requestedAddress &&& ~~~(0xfff : U64)
    let (address, vm) :=
      g.vm.reserve (if requestedAddress = 0 then none else some candidate) requestedSize
    let g := { g with vm }
    if requestedAddress ≠ 0 ∧ address = 0 then
      .error ⟨.rcUnimplInsn, "VirtualAlloc at " ++ hex candidate ++ " size " ++ hex requestedSize ++
        " overlaps an existing allocation", []⟩ g
    else if address = 0 then .error ⟨.rcUnimplInsn, "PE runtime virtual allocation overflow", []⟩ g
    else
      let memory := g.memory.zeroRange address requestedSize.toNat
      .ok address { g with memory, vm := vm.commit address requestedSize protection false }

/-- The longest vector the host can hold. -/
def isizeMax : Nat := 2 ^ 63 - 1

def virtualAlloc (g : GuestSpace) (requestedAddress bytes : U64) (allocationType protect : U32) :
    Outcome GuestSpace AppError Unit :=
  if bytes = 0 ∨ allocationType &&& (memCommit ||| memReserve) = 0 then
    .ok () (g.answer 0 errorInvalidParameter)
  else
    let aligned := alignUpU64 bytes 0x1000
    if allocationType &&& memCommit = 0 then
      let request := if requestedAddress = 0 then none else some (requestedAddress &&& ~~~(0xfff : U64))
      let (base, vm) := g.vm.reserve request aligned
      if base = 0 then .ok () ({ g with vm }.answer 0 errorInvalidParameter)
      else .ok () ({ g with vm }.answer base 0)
    else if requestedAddress ≠ 0 then
      let base := requestedAddress &&& ~~~(0xfff : U64)
      if g.vm.canCommit base aligned = false then .ok () (g.answer 0 errorInvalidAddress)
      -- the vector of zeroes comes first
      else if isizeMax < aligned.toNat then .panic
      else
        let memory := g.memory.mapBytes base (List.replicate aligned.toNat 0)
        let vm := g.vm.commit base aligned (protectionFromPageFlags protect) false
        .ok () ({ g with vm, memory }.answer base 0)
    else
      match g.allocPrivatePages 0 bytes (protectionFromPageFlags protect) with
      | .ok address g => .ok () (g.answer address 0)
      | .error reason g => .error reason g
      | .panic => .panic

def virtualFree (g : GuestSpace) (address bytes : U64) (freeType : U32) :
    Outcome GuestSpace AppError Unit :=
  if freeType &&& memRelease ≠ 0 then
    if bytes ≠ 0 then .ok () (g.answer 0 errorInvalidParameter)
    else
      match g.vm.regionSize address with
      | some size =>
        let memory := g.memory.unmapRange address size.toNat
        .ok () ({ g with memory, vm := (g.vm.release address).2 }.answer 1 0)
      | none => .ok () (g.answer 0 errorInvalidParameter)
  else if freeType &&& memDecommit ≠ 0 then
    let aligned := alignUpU64 (if bytes = 0 then 1 else bytes) 0x1000
    let memory := g.memory.unmapRange address aligned.toNat
    .ok () ({ g with memory, vm := g.vm.decommit address aligned }.answer 1 0)
  else .ok () (g.answer 0 errorInvalidParameter)

def virtualProtect (g : GuestSpace) (address bytes : U64) (newProtect : U32) (oldProtectPtr : U64) :
    Outcome GuestSpace AppError Unit :=
  let aligned := alignUpU64 (if bytes = 0 then 1 else bytes) 0x1000
  let firstPage := address &&& ~~~(0xfff : U64)
  let (old, vm) := g.vm.protect firstPage aligned (protectionFromPageFlags newProtect)
  let oldProtection := old.getD ⟨false, false, false⟩
  let memory :=
    if oldProtectPtr = 0 then g.memory
    else g.memory.mapBytes oldProtectPtr (toLeBytes 4 (pageFlagsFromProtection oldProtection))
  .ok () ({ g with vm, memory }.answer 1 0)

end GuestSpace

inductive VirtualCall where
  | alloc (requestedAddress bytes : U64) (allocationType protect : U32)
  | free (address bytes : U64) (freeType : U32)
  | protect (address bytes : U64) (newProtect : U32) (oldProtectPtr : U64)

namespace VirtualCall

def exec (g : GuestSpace) : VirtualCall → Outcome GuestSpace AppError Unit
  | .alloc requestedAddress bytes allocationType flags =>
    g.virtualAlloc requestedAddress bytes allocationType flags
  | .free address bytes freeType => g.virtualFree address bytes freeType
  | .protect address bytes newProtect oldProtectPtr =>
    g.virtualProtect address bytes newProtect oldProtectPtr

/-- The runtime after the call; a panic leaves it as it was. -/
def apply (g : GuestSpace) (call : VirtualCall) : GuestSpace := (call.exec g).state?.getD g

/-- The address that a call answers with, if it asks for a new region. -/
def reported (places : Prop) [Decidable places] : Outcome GuestSpace AppError Unit → List U64
  | .ok _ after => if places ∧ after.rax ≠ 0 then [after.rax] else []
  | _ => []

theorem reported_of_panic [Decidable places] (panic : outcome.state? = none) :
    reported places outcome = [] := by
  cases outcome with
  | panic => rfl
  | _ => cases panic

/-- The bases of the regions that a call creates: a commit at an address creates none. -/
def creates (g : GuestSpace) : VirtualCall → List U64
  | .alloc requestedAddress bytes allocationType flags =>
    reported (allocationType &&& memCommit = 0 ∨ requestedAddress = 0)
      (g.virtualAlloc requestedAddress bytes allocationType flags)
  | _ => []

end VirtualCall

/-- The runtime, and the bases of the regions that were created so far. -/
structure Session where
  space : GuestSpace
  created : List U64

def Committed (vm : VmSpace) (byte : U64) : Prop :=
  ∃ state, vm.pageState (byte &&& vmPageMask) = some state ∧ state.committed = true

/-- The byte lies in a region that was created. -/
def Held (vm : VmSpace) (created : List U64) (byte : U64) : Prop :=
  ∃ entry ∈ vm.regions, entry.1 ∈ created ∧ entry.2.contains byte = true

def Coherent (vm : VmSpace) (created : List U64) (memory : MemoryImage) : Prop :=
  ∀ byte, Held vm created byte → ((memory.cell byte).isSome = true ↔ Committed vm byte)

namespace Session

def new (space : GuestSpace) : Session := ⟨space, []⟩

def step (t : Session) (call : VirtualCall) : Session :=
  ⟨call.apply t.space, call.creates t.space ++ t.created⟩

def Coheres (t : Session) : Prop := Coherent t.space.vm t.created t.space.memory

end Session

def emptySpace (cursor : U64) : GuestSpace := ⟨VmSpace.new cursor, .empty .preferred, 0, 0⟩

/-- Two allocations side by side, and the first one released by an address inside
its page: the first page of the second is unmapped too. Reserved memory that takes
the old protection of a page is mapped. -/
theorem virtualFree_unmaps_neighbour :
    ¬ ([.alloc 0 0x1000 memCommit pageReadwrite, .alloc 0 0x1000 memCommit pageReadwrite,
        .free 0x10800 0 memRelease].foldl Session.step (.new (emptySpace 0x10000))).Coheres ∧
    ¬ ([.alloc 0 0x1000 memReserve pageReadwrite, .protect 0x10000 0x1000 pageReadonly 0x10000].foldl
      Session.step (.new (emptySpace 0x10000))).Coheres := by
  refine ⟨fun coherent => ?_, fun coherent => ?_⟩
  · have mapped := (coherent 0x11000 ⟨(0x11000, ⟨0x11000, 0x1000, VmRegionKind.private,
        [(0x11000, ⟨⟨true, true, false⟩, false, true⟩)]⟩), by decide +kernel, by decide +kernel, by decide⟩).mpr
      ⟨⟨⟨true, true, false⟩, false, true⟩, by decide +kernel, rfl⟩
    exact absurd mapped (by decide +kernel)
  · obtain ⟨state, found, -⟩ :=
      (coherent 0x10000 ⟨(0x10000, ⟨0x10000, 0x1000, VmRegionKind.private, []⟩),
      by decide +kernel, by decide +kernel, by decide⟩).mp (by decide +kernel)
    cases found

/-! ## The map with created regions apart -/

/-- Created regions end inside the address space and meet no other region. -/
structure CreatedApart (vm : VmSpace) (created : List U64) : Prop where
  kept : vm.WellKept
  aligned : vm.Aligned
  fits : ∀ entry ∈ vm.regions, entry.1 ∈ created → RegionFits entry
  apart : ∀ entry ∈ vm.regions, entry.1 ∈ created → ∀ other ∈ vm.regions,
    other.1 ≠ entry.1 → other.2.Apart entry.1 entry.2.size

def SameRange (old entry : U64 × VmRegion) : Prop :=
  ∃ pages, entry = (old.1, { old.2 with pages })

namespace CreatedApart

variable (map : CreatedApart vm created)
include map

theorem byte_bounds (member : entry ∈ vm.regions) (made : entry.1 ∈ created)
    (inside : entry.2.contains byte) :
    entry.1.toNat ≤ byte.toNat ∧ byte.toNat < entry.1.toNat + entry.2.size.toNat := by
  have bounds := VmRegion.contains_iff.mp inside
  rwa [(map.fits entry member made).keyed] at bounds

/-- No other region holds a byte of a created one. -/
theorem located (member : entry ∈ vm.regions) (made : entry.1 ∈ created)
    (inside : entry.2.contains byte) : vm.located byte = some entry := by
  have bounds := map.byte_bounds member made inside
  have covered := covers_of_contains map.aligned member inside
  change ((vm.located byte).map Prod.snd).isSome at covered
  rw [isSome_map] at covered
  obtain ⟨other, found⟩ := isSome_iff_exists.mp covered
  obtain ⟨present, contains⟩ := located_mem found
  rw [found]
  by_cases same : other.1 = entry.1
  · rw [map.kept.ascending.eq_of_key present member same]
  · have otherBounds := VmRegion.contains_iff.mp contains
    rcases map.apart entry member made other present same with before | after
    · omega
    · omega

theorem page_inside (member : entry ∈ vm.regions) (inside : entry.2.contains byte) :
    entry.2.contains (byte &&& vmPageMask) :=
  ((map.aligned entry member).contains_page).trans inside

theorem committed_iff (member : entry ∈ vm.regions) (made : entry.1 ∈ created)
    (inside : entry.2.contains byte) :
    Committed vm byte ↔ (entry.2.pages.lookup (byte &&& vmPageMask)).isSome := by
  have found := map.located member made (map.page_inside member inside)
  have view : vm.pageState (byte &&& vmPageMask) = entry.2.pages.lookup (byte &&& vmPageMask) := by
    change ((vm.located (byte &&& vmPageMask)).map Prod.snd).bind _ = _
    rw [found]
    rfl
  rw [Committed, view]
  constructor
  · rintro ⟨state, there, -⟩
    exact isSome_iff_exists.mpr ⟨state, there⟩
  · intro some
    obtain ⟨state, there⟩ := isSome_iff_exists.mp some
    exact ⟨state, there, (map.kept.pages entry member _ (mem_of_lookup there)).committed⟩

theorem covers_held (held : Held vm created byte) : vm.covers (byte &&& vmPageMask) := by
  obtain ⟨entry, member, -, contains⟩ := held
  exact covers_of_contains map.aligned member (map.page_inside member contains)

/-- A created region leaves out the last page of the address space. -/
theorem below_last (held : Held vm created byte) : byte.toNat < 2 ^ 64 - 0x1000 := by
  obtain ⟨entry, member, made, contains⟩ := held
  have bounds := map.byte_bounds member made contains
  have inside := (map.fits entry member made).inside
  have baseMod := (map.aligned entry member).base
  have sizeMod := (map.aligned entry member).size
  omega

/-- Page states have no bearing on where the regions are. -/
theorem of_sameRange (kept : vm'.WellKept)
    (shapes : ∀ entry ∈ vm'.regions, ∃ old ∈ vm.regions, SameRange old entry) :
    CreatedApart vm' created where
  kept := kept
  aligned := by
    intro entry member
    obtain ⟨old, present, pages, rfl⟩ := shapes entry member
    exact pageAligned_ignoresPages _ _ _ (map.aligned old present)
  fits := by
    intro entry member made
    obtain ⟨old, present, pages, rfl⟩ := shapes entry member
    exact regionFits_ignoresPages _ _ _ (map.fits old present made)
  apart := by
    intro entry member made other otherMember distinct
    obtain ⟨old, present, pages, rfl⟩ := shapes entry member
    obtain ⟨oldOther, otherPresent, otherPages, rfl⟩ := shapes other otherMember
    exact map.apart old present made oldOther otherPresent distinct

end CreatedApart

theorem sameRange_ignoresPages (vm : VmSpace) :
    VmSpace.IgnoresPages fun entry => ∃ old ∈ vm.regions, SameRange old entry := by
  rintro key region pages ⟨old, present, oldPages, same⟩
  obtain ⟨rfl, rfl⟩ := Prod.mk.inj same
  exact ⟨old, present, pages, rfl⟩

theorem sameRange_refl (vm : VmSpace) :
    ∀ entry ∈ vm.regions, ∃ old ∈ vm.regions, SameRange old entry :=
  fun entry member => ⟨entry, member, entry.2.pages, rfl⟩

/-- What every call of a safe run finds and leaves. -/
structure Inv (vm : VmSpace) (created : List U64) (memory : MemoryImage) : Prop where
  map : CreatedApart vm created
  sound : memory.Sound
  coherent : Coherent vm created memory

theorem Inv.mono (inv : Inv vm more memory) (fewer : ∀ base ∈ created, base ∈ more) :
    Inv vm created memory where
  map :=
    { kept := inv.map.kept
      aligned := inv.map.aligned
      fits := fun entry member made => inv.map.fits entry member (fewer _ made)
      apart := fun entry member made => inv.map.apart entry member (fewer _ made) }
  sound := inv.sound
  coherent := by
    rintro byte ⟨entry, member, made, contains⟩
    exact inv.coherent byte ⟨entry, member, fewer _ made, contains⟩

/-- A change of page states, with the bytes of the created regions to match. -/
theorem Inv.of_sameRange (inv : Inv vm created memory) (kept : vm'.WellKept)
    (shapes : ∀ entry ∈ vm'.regions, ∃ old ∈ vm.regions, SameRange old entry)
    (sound : memory'.Sound)
    (bytes : ∀ byte, Held vm created byte → ((memory'.cell byte).isSome ↔ Committed vm' byte)) :
    Inv vm' created memory' where
  map := inv.map.of_sameRange kept shapes
  sound := sound
  coherent := by
    rintro byte ⟨entry, member, made, contains⟩
    obtain ⟨old, present, pages, rfl⟩ := shapes entry member
    exact bytes byte ⟨old, present, made, contains⟩

/-- Committing a range of which the bytes are mapped as well. -/
theorem Inv.commit (inv : Inv vm created memory) (sound : memory'.Sound)
    (cells : ∀ byte, Held vm created byte → (memory'.cell byte).isSome = if Walked base (pagesEnd base len) (byte &&& vmPageMask) then true else (memory.cell byte).isSome)
    (protection : VmProtection) (guard : Bool) :
    Inv (vm.commit base len protection guard) created memory' := by
  refine inv.of_sameRange (commit_wellKept inv.map.kept base len protection guard)
    (commit_forall (sameRange_ignoresPages vm) (sameRange_refl vm) base len protection guard) sound ?_
  intro byte held
  have covered := inv.map.covers_held held
  rw [cells byte held, Committed, commit_pageState]
  by_cases walked : Walked base (pagesEnd base len) (byte &&& vmPageMask)
  · rw [if_pos walked, if_pos ⟨walked, covered⟩]
    exact ⟨fun _ => ⟨_, rfl, rfl⟩, fun _ => rfl⟩
  · rw [if_neg walked, if_neg fun both => walked both.1]
    exact inv.coherent byte held

/-- Decommitting a range of which the bytes are unmapped as well. -/
theorem Inv.decommit (inv : Inv vm created memory) (sound : memory'.Sound)
    (cells : ∀ byte, Held vm created byte → (memory'.cell byte).isSome = if Walked address (pagesEnd address len) (byte &&& vmPageMask) then false else (memory.cell byte).isSome) :
    Inv (vm.decommit address len) created memory' := by
  refine inv.of_sameRange (decommit_wellKept inv.map.kept address len)
    (decommit_forall (sameRange_ignoresPages vm) (sameRange_refl vm) address len) sound ?_
  intro byte held
  have covered := inv.map.covers_held held
  rw [cells byte held, Committed, decommit_pageState]
  by_cases walked : Walked address (pagesEnd address len) (byte &&& vmPageMask)
  · rw [if_pos walked, if_pos ⟨walked, covered⟩]
    refine ⟨fun mapped => absurd mapped Bool.false_ne_true, fun committed => ?_⟩
    obtain ⟨state, found, -⟩ := committed
    cases found
  · rw [if_neg walked, if_neg fun both => walked both.1]
    exact inv.coherent byte held

/-! ## Which pages a range has -/

theorem walked_whole (baseMod : base.toNat % 0x1000 = 0) (lenMod : len.toNat % 0x1000 = 0)
    (nonempty : len ≠ 0) (inside : base.toNat + len.toNat < 2 ^ 64) (byte : U64) :
    Walked base (pagesEnd base len) (byte &&& vmPageMask) ↔
      base.toNat ≤ byte.toNat ∧ byte.toNat < base.toNat + len.toNat := by
  have positive : len.toNat ≠ 0 := fun zero => nonempty (eq_of_toNat_eq zero)
  have start := and_vmPageMask_toNat base
  have page := and_vmPageMask_toNat byte
  have ends : (pagesEnd base len).toNat = base.toNat + len.toNat := by
    rw [pagesEnd_toNat]
    omega
  rw [Walked]
  omega

theorem walked_pages (lenMod : len.toNat % 0x1000 = 0) (nonempty : len ≠ 0)
    (below : byte.toNat < 2 ^ 64 - 0x1000) :
    Walked address (pagesEnd address len) (byte &&& vmPageMask) ↔
      address.toNat / 4096 ≤ byte.toNat / 4096 ∧ 4096 * (byte.toNat / 4096) < address.toNat + len.toNat := by
  have positive : len.toNat ≠ 0 := fun zero => nonempty (eq_of_toNat_eq zero)
  have start := and_vmPageMask_toNat address
  have page := and_vmPageMask_toNat byte
  rw [Walked, pagesEnd_toNat]
  rcases Nat.lt_or_ge (address.toNat + len.toNat + 0xfff) (2 ^ 64) with fits | saturates
  · rw [Nat.min_eq_left (by omega)]
    omega
  · rw [Nat.min_eq_right (by omega)]
    omega

/-- An empty range still has the page of its address. -/
theorem walked_empty (walked : Walked address (pagesEnd address 0) (byte &&& vmPageMask)) :
    byte &&& vmPageMask = address &&& vmPageMask := by
  have start := and_vmPageMask_toNat address
  have page := and_vmPageMask_toNat byte
  rw [Walked, pagesEnd_toNat] at walked
  apply eq_of_toNat_eq
  have empty : max (0 : U64).toNat 1 = 1 := rfl
  rw [empty] at walked
  omega

/-! ## Changes of memory and regions -/

theorem Inv.protect (inv : Inv vm created memory) (base size : U64) (protection : VmProtection) :
    Inv (vm.protect base size protection).2 created memory := by
  refine inv.of_sameRange (protect_wellKept inv.map.kept base size protection)
    (protect_forall (sameRange_ignoresPages vm) (sameRange_refl vm) base size protection) inv.sound ?_
  intro byte held
  refine (inv.coherent byte held).trans ?_
  rw [Committed, Committed, protect_pageState]
  split
  · cases vm.pageState (byte &&& vmPageMask) with
    | none => exact Iff.rfl
    | some => simp
  · exact Iff.rfl

/-- Bytes written into created regions land in committed pages. -/
theorem Inv.mapBytes (inv : Inv vm created memory)
    (straight : address.toNat + bytes.length ≤ 2 ^ 64)
    (room : memory.HasRoom address.toNat bytes.length)
    (target : ∀ byte, Held vm created byte → address.toNat ≤ byte.toNat →
      byte.toNat < address.toNat + bytes.length → Committed vm byte) :
    Inv vm created (memory.mapBytes address bytes) := by
  obtain ⟨sound, cells⟩ := MemoryImage.mapBytes_spec inv.sound straight room
  refine ⟨inv.map, sound, fun byte held => ?_⟩
  rw [cells]
  split
  case isTrue there => exact ⟨fun _ => target byte held there.1 there.2, fun _ => rfl⟩
  case isFalse => exact inv.coherent byte held

/-- No region meets the range and no byte of it is mapped. -/
structure Fresh (vm : VmSpace) (memory : MemoryImage) (base size : U64) : Prop where
  apart : ∀ entry ∈ vm.regions, entry.2.Apart base size
  unmapped : ∀ byte : U64, base.toNat ≤ byte.toNat → byte.toNat < base.toNat + size.toNat →
    memory.cell byte = none

theorem Inv.insertRegion (inv : Inv vm created memory) (baseMod : base.toNat % 0x1000 = 0)
    (sizeMod : size.toNat % 0x1000 = 0) (nonempty : 0 < size.toNat)
    (inside : base.toNat + size.toNat < 2 ^ 64) (fresh : Fresh vm memory base size) :
    Inv (vm.insertRegion base size VmRegionKind.private) (base :: created) memory := by
  have kept := insertRegion_wellKept inv.map.kept base size VmRegionKind.private
  -- an entry of the new map is the new region, or an old one under another key
  have cases {entry : U64 × VmRegion} (member : entry ∈ (vm.insertRegion base size VmRegionKind.private).regions)
      (made : entry.1 ∈ base :: created) :
      entry = (base, ⟨base, size, VmRegionKind.private, []⟩) ∨ entry ∈ vm.regions ∧ entry.1 ∈ created := by
    rcases List.mem_cons.mp made with same | made
    · exact .inl (kept.ascending.eq_of_key member (mem_of_lookup ((lookup_insert base).trans (if_pos rfl))) same)
    · exact (mem_insert member).imp_right fun old => ⟨old, made⟩
  have map : CreatedApart (vm.insertRegion base size VmRegionKind.private) (base :: created) := by
    refine ⟨kept, insertRegion_forall inv.map.aligned ⟨rfl, baseMod, sizeMod⟩, ?_, ?_⟩
    · intro entry member made
      rcases cases member made with rfl | ⟨old, made⟩
      · exact ⟨rfl, nonempty, inside⟩
      · exact inv.map.fits entry old made
    · intro entry member made other otherMember distinct
      rcases cases member made with rfl | ⟨old, made⟩
      · rcases mem_insert otherMember with rfl | otherOld
        · exact absurd rfl distinct
        · exact fresh.apart other otherOld
      · rcases mem_insert otherMember with rfl | otherOld
        · have apart : VmRegion.Apart ⟨base, size, VmRegionKind.private, []⟩ entry.2.base entry.2.size :=
            Or.symm (fresh.apart entry old)
          rwa [(inv.map.aligned entry old).keyed] at apart
        · exact inv.map.apart entry old made other otherOld distinct
  refine ⟨map, inv.sound, ?_⟩
  rintro byte ⟨entry, member, made, contains⟩
  rw [map.committed_iff member made contains]
  rcases cases member made with rfl | ⟨old, made⟩
  · have bounds := VmRegion.contains_iff.mp contains
    rw [fresh.unmapped byte bounds.1 bounds.2]
    exact Iff.rfl
  · rw [inv.coherent byte ⟨entry, old, made, contains⟩, inv.map.committed_iff old made contains]

/-- The page after the region that an address inside the region's first page
releases is no committed page of a created region. -/
def ReleaseSafe (vm : VmSpace) (created : List U64) (address size : U64) : Prop :=
  address.toNat % 0x1000 = 0 ∨ ∀ byte : U64, Held vm created byte →
    byte.toNat / 0x1000 = ((address &&& vmPageMask).toNat + size.toNat) / 0x1000 →
      ¬ Committed vm byte

theorem CreatedApart.release (map : CreatedApart vm created) (address : U64) :
    CreatedApart (vm.release address).2 created where
  kept := ⟨erase_ascending map.kept.ascending _, release_forall map.kept.pages address⟩
  aligned := release_forall map.aligned address
  fits := release_forall map.fits address
  apart := by
    intro entry member made other otherMember distinct
    exact map.apart entry (mem_of_mem_erase member) made other (mem_of_mem_erase otherMember) distinct

theorem Inv.release (inv : Inv vm created memory) (found : vm.regionSize address = some size)
    (safe : ReleaseSafe vm created address size) :
    Inv (vm.release address).2 created (memory.unmapRange address size.toNat) := by
  obtain ⟨region, there, rfl⟩ := map_eq_some_iff.mp found
  have released := mem_of_lookup there
  have whole := inv.map.aligned _ released
  have map := inv.map.release address
  -- a created region that stays keeps its bytes
  have stays (byte : U64) {entry : U64 × VmRegion} (member : entry ∈ (vm.release address).2.regions)
      (made : entry.1 ∈ created) (contains : entry.2.contains byte) :
      Committed (vm.release address).2 byte ↔ (memory.cell byte).isSome := by
    have old := mem_of_mem_erase member
    rw [inv.coherent byte ⟨entry, old, made, contains⟩, map.committed_iff member made contains,
      inv.map.committed_iff old made contains]
  by_cases empty : region.size.toNat = 0
  · rw [MemoryImage.unmapRange, if_pos empty]
    refine ⟨map, inv.sound, ?_⟩
    rintro byte ⟨entry, member, made, contains⟩
    exact (stays byte member made contains).symm
  · obtain ⟨sound, cells⟩ :=
      @MemoryImage.unmapRange_pages_spec memory region.size.toNat address inv.sound whole.size
      empty region.size.isLt
    refine ⟨map, sound, ?_⟩
    rintro byte ⟨entry, member, made, contains⟩
    have old := mem_of_mem_erase member
    have held : Held vm created byte := ⟨entry, old, made, contains⟩
    have apart : region.Apart entry.1 entry.2.size :=
      inv.map.apart entry old made _ released (ne_of_mem_erase member).symm
    have bounds := inv.map.byte_bounds old made contains
    have start := and_vmPageMask_toNat address
    have keyed : region.base = address &&& vmPageMask := whole.keyed
    have sizeMod : region.size.toNat % 0x1000 = 0 := whole.size
    rw [stays byte member made contains, cells]
    split
    case isFalse => exact Iff.rfl
    case isTrue touched =>
      -- only the page right after the released region can be one of its pages
      have outside : byte.toNat < region.base.toNat ∨ region.base.toNat + region.size.toNat ≤ byte.toNat := by
        rcases apart with before | after
        · exact .inl (by omega)
        · exact .inr (by omega)
      rw [keyed] at outside
      have unaligned : ¬ address.toNat % 0x1000 = 0 := by omega
      have uncommitted := safe.resolve_left unaligned byte held (by omega)
      have unmapped := mt (inv.coherent byte held).mp uncommitted
      exact ⟨fun mapped => absurd mapped Bool.false_ne_true, fun mapped => absurd mapped unmapped⟩

/-! ## Where a reservation goes -/

/-- The address that a reservation asks for, or the cursor's. -/
def placement (vm : VmSpace) : Option U64 → U64
  | some requested => requested &&& vmPageMask
  | none => alignUp vm.nextRegionAddress vmPageSize

def Places (vm : VmSpace) (request : Option U64) (size : U64) : Prop :=
  match request with
  | some _ =>
    placement vm request ≠ 0 ∧ vm.overlapsAny (placement vm request) (pageAlignedSize size) = false
  | none => (placement vm none).toNat + (pageAlignedSize size).toNat < 2 ^ 64

theorem reserve_places : vm.reserve request size = (0, vm) ∨
    Places vm request size ∧ (placement vm request).toNat + (pageAlignedSize size).toNat < 2 ^ 64 ∧
      ∃ cursor, vm.reserve request size = (placement vm request,
        { vm with nextRegionAddress := cursor }.insertRegion (placement vm request) (pageAlignedSize size)
          VmRegionKind.private) := by
  cases request with
  | some =>
    rw [reserve]
    split
    · exact .inl rfl
    case isFalse accepted =>
      simp only [Bool.or_eq_true, beq_iff_eq, not_or, Bool.not_eq_true] at accepted
      refine .inr ⟨accepted, ?_, vm.nextRegionAddress, rfl⟩
      have clear := accepted.2
      rw [overlapsAny] at clear
      split at clear
      · cases clear
      case h_2 stop fits => exact (checkedAdd_eq_some fits).1
  | none =>
    rw [reserve]
    split
    · exact .inl rfl
    case h_2 stop fits =>
      have inside := (checkedAdd_eq_some fits).1
      exact .inr ⟨inside, inside, stop, rfl⟩

theorem placement_mod : (placement vm request).toNat % 0x1000 = 0 := by
  cases request with
  | some requested => exact and_vmPageMask_mod requested
  | none => exact and_vmPageMask_mod _

theorem alignUpU64_page : alignUpU64 value 0x1000 = alignUp value vmPageSize := rfl

theorem alignUpU64_mod (value : U64) : (alignUpU64 value 0x1000).toNat % 0x1000 = 0 :=
  and_vmPageMask_mod _

theorem alignUpU64_ne_zero (some : value ≠ 0) (rounds : SizeRounds value) :
    alignUpU64 value 0x1000 ≠ 0 := by
  have positive := pageAlignedSize_pos rounds
  rw [pageAlignedSize, if_neg some] at positive
  intro zero
  rw [alignUpU64_page] at zero
  rw [zero] at positive
  exact absurd positive (Nat.lt_irrefl 0)

/-- Whole pages keep their size when it is rounded again. -/
theorem pageAlignedSize_of_whole (whole : size.toNat % 0x1000 = 0) (some : size ≠ 0) :
    pageAlignedSize size = size := by
  have positive : size.toNat ≠ 0 := fun zero => some (eq_of_toNat_eq zero)
  apply eq_of_toNat_eq
  rw [pageAlignedSize_toNat]
  omega

/-! ## Safe calls -/

def ReserveSafe (g : GuestSpace) (request : Option U64) (size : U64) : Prop :=
  Places g.vm request size → Fresh g.vm g.memory (placement g.vm request) (pageAlignedSize size)

/-- New regions are free, the page tables have room, a size that rounds to nothing changes no
created page, a release by an inner address spares the next page, and the old protection is
written outside reserved memory. -/
def Session.Safe (t : Session) : VirtualCall → Prop
  | .alloc requestedAddress bytes allocationType _ =>
    let aligned := alignUpU64 bytes 0x1000
    let base := requestedAddress &&& ~~~(0xfff : U64)
    bytes = 0 ∨ allocationType &&& (memCommit ||| memReserve) = 0 ∨
    if allocationType &&& memCommit = 0 then
      ReserveSafe t.space (if requestedAddress = 0 then none else some base) aligned
    else if requestedAddress ≠ 0 then
      t.space.vm.canCommit base aligned = true → aligned.toNat ≤ GuestSpace.isizeMax →
        t.space.memory.HasRoom base.toNat aligned.toNat ∧
        (SizeRounds bytes ∨ ∀ byte, Held t.space.vm t.created byte → byte &&& vmPageMask = base →
          Committed t.space.vm byte)
    else
      GuestSpace.maxPrivatePagesAllocation.ult aligned = false → ReserveSafe t.space none aligned ∧
        (Places t.space.vm none aligned →
          SizeRounds bytes ∧ t.space.memory.HasRoom (placement t.space.vm none).toNat aligned.toNat)
  | .free address bytes freeType =>
    if freeType &&& memRelease ≠ 0 then
      bytes = 0 → ∀ size, t.space.vm.regionSize address = some size →
        ReleaseSafe t.space.vm t.created address size
    else freeType &&& memDecommit ≠ 0 → SizeRounds bytes ∨
      ∀ byte, Held t.space.vm t.created byte → byte &&& vmPageMask = address &&& vmPageMask →
        ¬ Committed t.space.vm byte
  | .protect _ _ _ oldProtectPtr =>
    oldProtectPtr = 0 ∨
      (oldProtectPtr.toNat + 4 ≤ 2 ^ 64 ∧ t.space.memory.HasRoom oldProtectPtr.toNat 4 ∧
      ∀ byte, Held t.space.vm t.created byte → oldProtectPtr.toNat ≤ byte.toNat →
        byte.toNat < oldProtectPtr.toNat + 4 → Committed t.space.vm byte)

section Calls
variable {g : GuestSpace}

variable (inv : Inv g.vm created g.memory)
include inv

/-- The region of a reservation that is granted counts as created. -/
theorem Inv.reserve (sizeMod : size.toNat % 0x1000 = 0) (safe : ReserveSafe g request size) :
    ∃ more, Inv (g.vm.reserve request size).2 more g.memory ∧ (∀ base ∈ created, base ∈ more) ∧
      ((g.vm.reserve request size).1 ≠ 0 → (g.vm.reserve request size).1 ∈ more) := by
  rcases reserve_places with refused | ⟨places, inside, cursor, placed⟩
  · rw [refused]
    exact ⟨created, inv, fun _ => id, fun given => absurd rfl given⟩
  · rw [placed]
    have moved : Inv { g.vm with nextRegionAddress := cursor } created g.memory :=
      ⟨⟨⟨inv.map.kept.ascending, inv.map.kept.pages⟩, inv.map.aligned, inv.map.fits, inv.map.apart⟩, inv.sound,
        inv.coherent⟩
    have rounds : SizeRounds size := by
      rw [SizeRounds]
      omega
    refine ⟨placement g.vm request :: created, ?_, fun _ => List.mem_cons_of_mem _, fun _ => List.mem_cons_self⟩
    exact moved.insertRegion placement_mod (pageAlignedSize_mod size) (pageAlignedSize_pos rounds)
      inside ⟨(safe places).apart, (safe places).unmapped⟩

/-- Committing inside a reservation. -/
theorem Inv.interiorCommit (some : bytes ≠ 0)
    (granted : g.vm.canCommit (address &&& vmPageMask) (alignUpU64 bytes 0x1000))
    (room : g.memory.HasRoom (address &&& vmPageMask).toNat (alignUpU64 bytes 0x1000).toNat)
    (rounds : SizeRounds bytes ∨ ∀ byte, Held g.vm created byte →
      byte &&& vmPageMask = address &&& vmPageMask → Committed g.vm byte)
    (protection : VmProtection) :
    Inv (g.vm.commit (address &&& vmPageMask) (alignUpU64 bytes 0x1000) protection false) created
      (g.memory.mapBytes (address &&& vmPageMask) (List.replicate (alignUpU64 bytes 0x1000).toNat 0)) := by
  have whole := alignUpU64_mod bytes
  have inside := canCommit_inside granted
  have again : address &&& vmPageMask &&& vmPageMask = address &&& vmPageMask := by
    rw [BitVec.and_assoc, BitVec.and_self]
  rw [again] at inside
  by_cases empty : alignUpU64 bytes 0x1000 = 0
  · -- nothing is mapped, and one page is committed that was committed before
    have already := rounds.resolve_left fun rounds => alignUpU64_ne_zero some rounds empty
    rw [empty]
    refine inv.commit inv.sound (fun byte held => ?_) protection false
    split
    case isTrue walked =>
      exact (inv.coherent byte held).mpr (already byte held ((walked_empty walked).trans again))
    case isFalse => rfl
  · rw [pageAlignedSize_of_whole whole empty] at inside
    generalize alignUpU64 bytes 0x1000 = len at *
    have length : (List.replicate len.toNat (0 : U8)).length = len.toNat := List.length_replicate
    rw [← length] at room
    obtain ⟨sound, cells⟩ := MemoryImage.mapBytes_spec inv.sound (by rw [length]; omega) room
    refine inv.commit sound (fun byte _ => ?_) protection false
    rw [cells byte, length]
    simp only [walked_whole (and_vmPageMask_mod address) whole empty inside byte]
    split <;> rfl

theorem Inv.decommitPages (rounds : SizeRounds bytes ∨ ∀ byte, Held g.vm created byte →
      byte &&& vmPageMask = address &&& vmPageMask → ¬ Committed g.vm byte) :
    Inv (g.vm.decommit address (alignUpU64 (if bytes = 0 then 1 else bytes) 0x1000)) created
      (g.memory.unmapRange address (alignUpU64 (if bytes = 0 then 1 else bytes) 0x1000).toNat) := by
  have whole := alignUpU64_mod (if bytes = 0 then 1 else bytes)
  by_cases empty : alignUpU64 (if bytes = 0 then 1 else bytes) 0x1000 = 0
  · -- nothing is unmapped, and one page is decommitted that was not committed
    have uncommitted := rounds.resolve_left fun rounds => by
      refine alignUpU64_ne_zero ?_ ?_ empty
      · split
        · decide
        · assumption
      · split
        · decide
        · exact rounds
    rw [empty]
    refine inv.decommit inv.sound fun byte held => ?_
    split
    case isTrue walked =>
      have unmapped := mt (inv.coherent byte held).mp (uncommitted byte held (walked_empty walked))
      exact Bool.eq_false_of_not_eq_true unmapped
    case isFalse => rfl
  · generalize alignUpU64 (if bytes = 0 then 1 else bytes) 0x1000 = len at *
    have positive : len.toNat ≠ 0 := fun zero => empty (eq_of_toNat_eq zero)
    obtain ⟨sound, cells⟩ :=
      @MemoryImage.unmapRange_pages_spec g.memory len.toNat address inv.sound whole positive
      len.isLt
    refine inv.decommit sound fun byte held => ?_
    rw [cells]
    simp only [walked_pages whole empty (inv.map.below_last held)]
    split <;> rfl

/-- New pages at the cursor: reserved, zeroed and committed. -/
theorem Inv.allocPrivatePages (any : bytes ≠ 0)
    (safe : GuestSpace.maxPrivatePagesAllocation.ult (alignUpU64 bytes 0x1000) = false → ReserveSafe g none (alignUpU64 bytes 0x1000) ∧ (Places g.vm none (alignUpU64 bytes 0x1000) → SizeRounds bytes ∧ g.memory.HasRoom (placement g.vm none).toNat (alignUpU64 bytes 0x1000).toNat))
    (protection : VmProtection)
    (left : (g.allocPrivatePages 0 bytes protection).state? = some after) :
    ∃ more, Inv after.vm more after.memory ∧ (∀ base ∈ created, base ∈ more) ∧
      ∀ address, g.allocPrivatePages 0 bytes protection = .ok address after → address ∈ more := by
  have whole := alignUpU64_mod bytes
  rw [GuestSpace.allocPrivatePages, if_neg any] at left ⊢
  dsimp only at left ⊢
  split at left
  case isTrue large =>
    obtain rfl := some.inj left
    rw [if_pos large]
    exact ⟨created, inv, fun _ => id, fun _ done => by cases done⟩
  case isFalse small =>
    obtain ⟨safe, room⟩ := safe (Bool.eq_false_of_not_eq_true small)
    obtain ⟨more, reserved, old, new⟩ := inv.reserve whole safe
    rw [if_neg small]
    rw [if_pos rfl, if_neg fun both => both.1 rfl] at left ⊢
    split at left
    case isTrue refused =>
      obtain rfl := some.inj left
      rw [if_pos refused]
      exact ⟨more, reserved, old, fun _ done => by cases done⟩
    case isFalse given =>
      obtain rfl := some.inj left
      rw [if_neg given]
      refine ⟨more, ?_, old, fun _ done => by cases done; exact new given⟩
      rcases reserve_places with refused | ⟨places, inside, cursor, placed⟩
      · rw [refused] at given
        exact absurd rfl given
      · have base : (g.vm.reserve none (alignUpU64 bytes 0x1000)).1 = placement g.vm none := by rw [placed]
        obtain ⟨rounds, free⟩ := room places
        have positive := alignUpU64_ne_zero any rounds
        rw [base]
        rw [pageAlignedSize_of_whole whole positive] at inside
        have length : MemoryImage.zeroedLen (placement g.vm none) (alignUpU64 bytes 0x1000).toNat =
            (alignUpU64 bytes 0x1000).toNat := by
          rw [MemoryImage.zeroedLen, if_pos inside]
        rw [← length] at free
        refine reserved.commit (MemoryImage.zeroRange_sound inv.sound (Nat.le_of_lt inside) (isLt _) free)
          (fun byte _ => ?_) _ _
        rw [MemoryImage.zeroRange_cell inv.sound (Nat.le_of_lt inside) (isLt _) free, length]
        simp only [walked_whole placement_mod whole positive inside byte]
        split <;> rfl

omit inv in
/-- What a call leaves, with the region that it reports. -/
def Keeps (created : List U64) (places : Prop) [Decidable places]
    (outcome : Outcome GuestSpace AppError Unit) : Prop :=
  ∀ after, outcome.state? = some after →
    Inv after.vm (VirtualCall.reported places outcome ++ created) after.memory

section
variable {places : Prop} [Decidable places]

omit inv in
theorem Keeps.ok (inv : Inv g.vm more g.memory) (old : ∀ base ∈ created, base ∈ more)
    (new : places → value ≠ 0 → value ∈ more) (error : U32) :
    Keeps created places (.ok () (g.answer value error)) := by
  rintro _ ⟨⟩
  refine inv.mono fun base listed => ?_
  rcases List.mem_append.mp listed with listed | listed
  · rw [VirtualCall.reported] at listed
    split at listed
    case isTrue there =>
      cases List.mem_singleton.mp listed
      exact new there.1 there.2
    case isFalse => cases listed
  · exact old base listed

theorem Keeps.refused (error : U32) : Keeps created places (.ok () (g.answer 0 error)) :=
  .ok inv (fun _ => id) (fun _ some => absurd rfl some) error

end

theorem Inv.virtualAlloc {protect : U32}
    (safe : Session.Safe ⟨g, created⟩ (.alloc requestedAddress bytes allocationType protect)) :
    Keeps created (allocationType &&& memCommit = 0 ∨ requestedAddress = 0)
      (g.virtualAlloc requestedAddress bytes allocationType protect) := by
  have whole := alignUpU64_mod bytes
  rw [GuestSpace.virtualAlloc]
  split
  case isTrue => exact .refused inv _
  case isFalse accepted =>
    obtain ⟨nonempty, typed⟩ := not_or.mp accepted
    have safe := (safe.resolve_left nonempty).resolve_left typed
    dsimp only at safe ⊢
    split
    case isTrue reserves =>
      rw [if_pos reserves] at safe
      generalize (if requestedAddress = 0 then none else some (requestedAddress &&& ~~~(0xfff : U64))) = request
        at safe ⊢
      obtain ⟨more, reserved, old, new⟩ := inv.reserve whole safe
      split
      case isTrue => exact .ok (g := { g with vm := _ }) reserved old (fun _ some => absurd rfl some) _
      case isFalse given => exact .ok (g := { g with vm := _ }) reserved old (fun _ _ => new given) _
    case isFalse commits =>
      rw [if_neg commits] at safe
      split
      case isTrue interior =>
        rw [if_pos interior] at safe
        split
        case isTrue => exact .refused inv _
        case isFalse granted =>
          have granted := Bool.eq_true_of_not_eq_false granted
          split
          case isTrue => exact fun _ left => by cases left
          case isFalse short =>
            obtain ⟨room, rounds⟩ := safe granted (Nat.le_of_not_lt short)
            have done := inv.interiorCommit nonempty granted room rounds (protectionFromPageFlags protect)
            exact .ok (g := { g with vm := _, memory := _ }) done (fun _ => id)
              (fun places => absurd places (not_or.mpr ⟨commits, interior⟩)) _
      case isFalse anywhere =>
        rw [if_neg anywhere] at safe
        split
        case h_1 address placed made =>
          obtain ⟨more, done, old, new⟩ := inv.allocPrivatePages nonempty safe _ (by rw [made]; rfl)
          exact .ok done old (fun _ _ => new address made) _
        case h_2 reason placed made =>
          rintro _ ⟨⟩
          obtain ⟨more, done, old, -⟩ := inv.allocPrivatePages nonempty safe _ (by rw [made]; rfl)
          exact done.mono old
        case h_3 => exact fun _ left => by cases left

theorem Inv.virtualFree (safe : Session.Safe ⟨g, created⟩ (.free address bytes freeType))
    (left : (g.virtualFree address bytes freeType).state? = some after) :
    Inv after.vm created after.memory := by
  rw [GuestSpace.virtualFree] at left
  rw [Session.Safe] at safe
  split at left
  case isTrue releases =>
    rw [if_pos releases] at safe
    split at left
    · obtain rfl := some.inj left
      exact inv
    case isFalse whole =>
      split at left
      case h_1 size found =>
        obtain rfl := some.inj left
        exact inv.release found (safe (not_not.mp whole) size found)
      case h_2 =>
        obtain rfl := some.inj left
        exact inv
  case isFalse keeps =>
    rw [if_neg keeps] at safe
    split at left
    case isTrue decommits =>
      obtain rfl := some.inj left
      exact inv.decommitPages (safe decommits)
    case isFalse =>
      obtain rfl := some.inj left
      exact inv

theorem Inv.virtualProtect
    (safe : Session.Safe ⟨g, created⟩ (.protect address bytes newProtect oldProtectPtr))
    (left : (g.virtualProtect address bytes newProtect oldProtectPtr).state? = some after) :
    Inv after.vm created after.memory := by
  obtain rfl := some.inj left
  dsimp only [GuestSpace.answer]
  refine Inv.protect ?_ _ _ _
  split
  case isTrue => exact inv
  case isFalse written =>
    obtain ⟨straight, room, target⟩ := safe.resolve_left written
    exact inv.mapBytes straight room target

theorem Inv.step (call : VirtualCall) (safe : Session.Safe ⟨g, created⟩ call) :
    Inv (call.apply g).vm (call.creates g ++ created) (call.apply g).memory := by
  rw [VirtualCall.apply]
  cases left : (call.exec g).state? with
  | none =>
    have nothing : call.creates g = [] := by
      cases call with
      | alloc => exact VirtualCall.reported_of_panic left
      | free => rfl
      | protect => rfl
    rw [nothing]
    exact inv
  | some =>
    cases call with
    | alloc => exact inv.virtualAlloc safe _ left
    | free => exact inv.virtualFree safe left
    | protect => exact inv.virtualProtect safe left

end Calls

/-- Nothing has to be in step before the first call. -/
theorem Inv.nothing_created (sound : memory.Sound) :
    Inv (VmOperation.run (new cursor) operations) [] memory where
  map :=
    { kept := VmOperation.run_wellKept (new_wellKept cursor) operations
      aligned := VmOperation.run_aligned (new_aligned cursor) operations
      fits := fun _ _ made => absurd made List.not_mem_nil
      apart := fun _ _ made => absurd made List.not_mem_nil }
  sound := sound
  coherent := fun _ ⟨_, _, made, _⟩ => absurd made List.not_mem_nil

/-- Whatever map and memory the loader has built, a run of safe calls maps exactly the
committed pages of the regions that it creates. -/
theorem virtual_calls_stay_coherent (cursor : U64) (operations : List VmOperation)
    (memory : MemoryImage) (rax : U64) (lastError : U32) (sound : memory.Sound)
    (calls : List VirtualCall)
    (safe : Along Session.step Session.Safe (.new ⟨VmOperation.run (VmSpace.new cursor) operations, memory, rax, lastError⟩) calls) :
    ∀ taken, taken <+: calls → (taken.foldl Session.step
      (.new ⟨VmOperation.run (VmSpace.new cursor) operations, memory, rax, lastError⟩)).Coheres := by
  intro taken within
  have inv := safe.invariant (I := fun t => Inv t.space.vm t.created t.space.memory)
    (Inv.nothing_created sound)
    (fun t call inv safe => inv.step call safe) taken within
  exact inv.coherent

theorem fresh_of_unmapped (apart : ∀ entry ∈ vm.regions, entry.2.Apart base size) :
    Fresh vm (.empty .preferred) base size where
  apart := apart
  unmapped := by
    intro byte _ _
    have nowhere : (MemoryImage.empty .preferred).page (byte &&& memoryPageMask) = none := by
      cases found : (MemoryImage.empty .preferred).page (byte &&& memoryPageMask) with
      | none => rfl
      | some =>
        obtain ⟨index, -, there⟩ := bind_eq_some_iff.mp found
        cases there
    rw [MemoryImage.cell, nowhere]
    rfl

/-- A reservation, a commit inside it, its decommit and the release. -/
def reserveToRelease : List VirtualCall :=
  [.alloc 0 0x2000 memReserve pageReadwrite, .alloc 0x11000 0x1000 memCommit pageReadwrite,
    .free 0x11000 0x1000 memDecommit, .free 0x10000 0 memRelease]

/-- Beside a private region that was there before: with the page committed, and at the end. -/
theorem virtual_calls_stay_coherent_reserved :
    let start := VmOperation.run (VmSpace.new 0x10000) [.reserve (some 0x8000) 0x1000]
    ((reserveToRelease.take 2).foldl Session.step (.new ⟨start, .empty .preferred, 0, 0⟩)).Coheres ∧
      (reserveToRelease.foldl Session.step (.new ⟨start, .empty .preferred, 0, 0⟩)).Coheres := by
  have coheres :=
    virtual_calls_stay_coherent 0x10000 [.reserve (some 0x8000) 0x1000] (.empty .preferred) 0 0
    MemoryImage.empty_sound reserveToRelease ⟨
      .inr (.inr fun _ => fresh_of_unmapped (by decide +kernel)),
      .inr (.inr fun _ _ => ⟨MemoryImage.hasRoom_of_few (by decide +kernel), .inl (by decide)⟩),
      fun _ => .inl (by decide), fun _ _ _ => .inl (by decide), trivial⟩
  exact ⟨coheres _ (List.take_prefix 2 _), coheres _ (List.prefix_refl _)⟩

end Casa.Runtime
