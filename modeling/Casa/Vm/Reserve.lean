import Casa.Vm
import Casa.Lib.MachineInt
import Casa.Lib.OrderedMap

/-! Reservations of the canonical virtual-memory layer (vm.rs). A requested
address is checked against the regions already there; an anonymous one is taken
from the cursor as it stands. The invariant that regions end inside the address
space is carried over whole runs, and with it the exact effect of a reservation. -/
namespace Casa.Vm
open MachineInt

def alignUp (value align : U64) : U64 := (value + (align - 1)) &&& ~~~(align - 1)

/-- `size.max(1)` in whole pages; the rounding wraps for the last page of sizes. -/
def pageAlignedSize (size : U64) : U64 :=
  alignUp (if size = 0 then 1 else size) vmPageSize

/-- The regions and the cursor for reservations without an address. -/
structure VmSpace extends VirtualMemory where
  nextRegionAddress : U64

namespace VmSpace

def new (privateRegionCursor : U64) : VmSpace where
  regions := []
  nextRegionAddress := alignUp privateRegionCursor vmPageSize

/-- Updates the innermost region over the address, if there is one. -/
def updateContaining (vm : VmSpace) (address : U64) (update : VmRegion → VmRegion) : VmSpace :=
  let candidates := (vm.regions.filter fun entry => entry.1.ule address).reverse
  match candidates.find? fun entry => entry.2.contains address with
  | none => vm
  | some entry => { vm with regions := OrderedMap.modify entry.1 update vm.regions }

def overlapsAny (vm : VmSpace) (base size : U64) : Bool :=
  match checkedAdd base size with
  | none => true
  | some stop => vm.regions.any fun entry =>
      base.ult (entry.2.base + entry.2.size) && entry.2.base.ult stop

def insertRegion (vm : VmSpace) (base size : U64) (kind : VmRegionKind) : VmSpace :=
  { vm with regions := OrderedMap.insert base ⟨base, size, kind, []⟩ vm.regions }

/-- Zero reports a failed reservation. -/
def reserve (vm : VmSpace) (base : Option U64) (size : U64) : U64 × VmSpace :=
  let size := pageAlignedSize size
  match base with
  | some requested =>
    let candidate := requested &&& vmPageMask
    if candidate == 0 || vm.overlapsAny candidate size then (0, vm)
    else (candidate, vm.insertRegion candidate size VmRegionKind.private)
  | none =>
    let candidate := alignUp vm.nextRegionAddress vmPageSize
    match checkedAdd candidate size with
    | none => (0, vm)
    | some stop =>
      (candidate, { vm with nextRegionAddress := stop }.insertRegion candidate size VmRegionKind.private)

def register (vm : VmSpace) (base size : U64) (kind : VmRegionKind) : Bool × VmSpace :=
  let base := base &&& vmPageMask
  let size := pageAlignedSize size
  match vm.regions.lookup base with
  | some _ =>
    -- growth is not checked against the end of the address space
    let grow (region : VmRegion) := if region.size.ult size then { region with size } else region
    (true, { vm with regions := OrderedMap.modify base grow vm.regions })
  | none =>
    match checkedAdd base size with
    | none => (false, vm)
    | some stop => if stop.ult base then (false, vm) else (true, vm.insertRegion base size kind)

/-- The end of the pages that `[base, base + size)` touches. -/
def pagesEnd (base size : U64) : U64 :=
  saturatingAdd (saturatingAdd base (if size = 0 then 1 else size)) (vmPageSize - 1) &&& vmPageMask

/-- `while page < stop`, a page further each time. -/
def forPages {σ : Type} (body : U64 → σ → σ) (stop : U64) : Nat → U64 → σ → σ
  | 0, _, state => state
  | rounds + 1, page, state =>
    if page.ult stop then forPages body stop rounds (saturatingAdd page vmPageSize) (body page state)
    else state

/-- Rounds enough for the loop to reach its end. -/
def pageRounds (start stop : U64) : Nat :=
  (stop.toNat - start.toNat + (vmPageSize.toNat - 1)) / vmPageSize.toNat

def commit (vm : VmSpace) (base size : U64) (protection : VmProtection) (guard : Bool) : VmSpace :=
  let start := base &&& vmPageMask
  let stop := pagesEnd base size
  forPages (fun page vm => vm.updateContaining page fun region =>
      { region with pages := OrderedMap.insert page ⟨protection, guard, true⟩ region.pages })
    stop (pageRounds start stop) start vm

def decommit (vm : VmSpace) (base size : U64) : VmSpace :=
  let start := base &&& vmPageMask
  let stop := pagesEnd base size
  forPages (fun page vm => vm.updateContaining page fun region =>
      { region with pages := OrderedMap.erase page region.pages })
    stop (pageRounds start stop) start vm

def release (vm : VmSpace) (base : U64) : Bool × VmSpace :=
  let key := base &&& vmPageMask
  ((vm.regions.lookup key).isSome, { vm with regions := OrderedMap.erase key vm.regions })

/-- One page of `protect`: the state of a page that is there changes, and the
first such page gives the answer. -/
def protectPage (protection : VmProtection) (page : U64) (state : Option VmProtection × VmSpace) :
    Option VmProtection × VmSpace :=
  let (firstOld, vm) := state
  let old := (vm.regionContaining page).bind fun region => region.pages.lookup page
  (firstOld.or (old.map (·.protection)), vm.updateContaining page fun region =>
    { region with pages := OrderedMap.modify page (fun state => { state with protection }) region.pages })

def protect (vm : VmSpace) (base size : U64) (protection : VmProtection) :
    Option VmProtection × VmSpace :=
  let start := base &&& vmPageMask
  let stop := saturatingAdd start (pageAlignedSize size)
  forPages (protectPage protection) stop (pageRounds start stop) start (none, vm)

end VmSpace

inductive VmOperation where
  | reserve (base : Option U64) (size : U64)
  | register (base size : U64) (kind : VmRegionKind)
  | commit (base size : U64) (protection : VmProtection) (guard : Bool)
  | decommit (base size : U64)
  | protect (base size : U64) (protection : VmProtection)
  | release (base : U64)

namespace VmOperation

def apply (vm : VmSpace) : VmOperation → VmSpace
  | .reserve base size => (vm.reserve base size).2
  | .register base size kind => (vm.register base size kind).2
  | .commit base size protection guard => vm.commit base size protection guard
  | .decommit base size => vm.decommit base size
  | .protect base size protection => (vm.protect base size protection).2
  | .release base => (vm.release base).2

def run (vm : VmSpace) (operations : List VmOperation) : VmSpace := operations.foldl apply vm

end VmOperation

/-- A call that reports an address, or changes the regions at all, keeps every
earlier region as it was and shares no byte with any of them. -/
def ReserveExact (vm : VmSpace) (base : Option U64) (size : U64) : Prop :=
  (vm.reserve base size).1 ≠ 0 ∨ (vm.reserve base size).2.regions ≠ vm.regions →
    ∀ entry ∈ vm.regions, entry ∈ (vm.reserve base size).2.regions ∧
      ∀ byte, ¬ (entry.2.contains byte = true ∧
        VmRegion.contains ⟨(vm.reserve base size).1, pageAlignedSize size, VmRegionKind.private, []⟩ byte = true)

/-- An anonymous reservation replaces the committed region registered at the
cursor, and a requested one whose size rounds to nothing replaces the region at
its own base. -/
theorem reserve_replaces_region :
    ¬ ReserveExact (VmOperation.run (VmSpace.new 0x10000)
        [.register 0x10000 0x1000 .image, .commit 0x10000 0x1000 ⟨true, true, false⟩ false]) none 0x1000 ∧
    ¬ ReserveExact (VmOperation.run (VmSpace.new 0x10000)
        [.register 0x10000 0x1000 .image, .commit 0x10000 0x1000 ⟨true, true, false⟩ false])
      (some 0x10000) (BitVec.allOnes 64) := by
  let committed : U64 × VmRegion :=
    (0x10000, ⟨0x10000, 0x1000, .image, [(0x10000, ⟨⟨true, true, false⟩, false, true⟩)]⟩)
  refine ⟨fun exact => ?_, fun exact => ?_⟩
  all_goals exact absurd (exact (.inl (by decide)) committed (by decide)).1 (by decide)

/-- Region and requested range as intervals of numbers that do not meet. -/
def VmRegion.Apart (region : VmRegion) (base size : U64) : Prop :=
  base.toNat + size.toNat ≤ region.base.toNat ∨ region.base.toNat + region.size.toNat ≤ base.toNat

instance (region : VmRegion) (base size : U64) : Decidable (region.Apart base size) :=
  inferInstanceAs (Decidable (_ ∨ _))

theorem VmRegion.contains_iff {region : VmRegion} :
    region.contains address ↔ region.base.toNat ≤ address.toNat ∧
      address.toNat < region.base.toNat + region.size.toNat := by
  simp only [contains, Bool.and_eq_true, BitVec.ule_iff_toNat_le, BitVec.ult_iff_toNat_lt]
  constructor
  · rintro ⟨above, offset⟩
    rw [BitVec.toNat_sub_of_le (BitVec.le_def.mpr above)] at offset
    exact ⟨above, by omega⟩
  · rintro ⟨above, below⟩
    rw [BitVec.toNat_sub_of_le (BitVec.le_def.mpr above)]
    exact ⟨above, by omega⟩

theorem VmRegion.Apart.no_shared_byte {region : VmRegion} {base size : U64}
    (apart : region.Apart base size) {kind : VmRegionKind} (byte : U64) :
    ¬ (region.contains byte ∧ contains ⟨base, size, kind, []⟩ byte) := by
  rintro ⟨old, fresh⟩
  have old := contains_iff.mp old
  have fresh := contains_iff.mp fresh
  rcases apart with before | after
  · exact absurd (Nat.lt_of_lt_of_le fresh.2 before) (Nat.not_lt.mpr old.1)
  · exact absurd (Nat.lt_of_lt_of_le old.2 after) (Nat.not_lt.mpr fresh.1)

/-- What the operations keep of an entry of the region map. -/
structure RegionFits (entry : U64 × VmRegion) : Prop where
  keyed : entry.2.base = entry.1
  nonempty : 0 < entry.2.size.toNat
  inside : entry.1.toNat + entry.2.size.toNat < 2 ^ 64

def VmSpace.Bounded (vm : VmSpace) : Prop := ∀ entry ∈ vm.regions, RegionFits entry

/-- Sizes whose rounding to whole pages stays inside a word. -/
def SizeRounds (size : U64) : Prop := size.toNat ≤ 2 ^ 64 - 0x1000

instance (size : U64) : Decidable (SizeRounds size) := inferInstanceAs (Decidable (_ ≤ _))

theorem and_vmPageMask_toNat (value : U64) :
    (value &&& vmPageMask).toNat = value.toNat / 0x1000 * 0x1000 := by
  exact toNat_and_highBits value 12

theorem pageAlignedSize_pos (rounds : SizeRounds size) : 0 < (pageAlignedSize size).toNat := by
  have atLeast : ∀ value : U64, 1 ≤ value.toNat → value.toNat ≤ 2 ^ 64 - 0x1000 →
      0 < (alignUp value vmPageSize).toNat := by
    intro value positive fits
    have masked := and_vmPageMask_toNat (value + (vmPageSize - 1))
    have sum : (value + (vmPageSize - 1)).toNat = value.toNat + 0xfff := by
      rw [BitVec.toNat_add, show (vmPageSize - 1).toNat = 0xfff from rfl]
      omega
    rw [alignUp, show ~~~(vmPageSize - 1) = vmPageMask from rfl]
    omega
  rw [pageAlignedSize]
  split
  · exact atLeast 1 (by decide) (by decide)
  case isFalse positive =>
    exact atLeast size (Nat.pos_of_ne_zero fun zero => positive (BitVec.eq_of_toNat_eq zero)) rounds

theorem forPages_preserves {P : σ → Prop} (step : ∀ page state, P state → P (body page state))
    (rounds : Nat) (page : U64) (state : σ) (holds : P state) :
    P (VmSpace.forPages body stop rounds page state) := by
  induction rounds generalizing page state with
  | zero => exact holds
  | succ rounds ih =>
    rw [VmSpace.forPages]
    split
    · exact ih _ _ (step page state holds)
    · exact holds

namespace VmSpace
variable {vm : VmSpace}

section Entries
variable {Q : U64 × VmRegion → Prop} (all : ∀ entry ∈ vm.regions, Q entry)
include all

theorem modify_forall (kept : ∀ region, Q (key, region) → Q (key, update region)) :
    ∀ entry ∈ OrderedMap.modify key update vm.regions, Q entry := by
  rintro ⟨base, region⟩ member
  obtain ⟨⟨base', before⟩, inside, sameKey, change⟩ := OrderedMap.mem_modify member
  obtain rfl : base' = base := sameKey
  have old := all _ inside
  rcases change with same | ⟨atKey, updated⟩
  · obtain rfl : region = before := same
    exact old
  · obtain rfl : base' = key := atKey
    obtain rfl : region = update before := updated
    exact kept before old

theorem insertRegion_forall (fresh : Q (base, ⟨base, size, kind, []⟩)) :
    ∀ entry ∈ (vm.insertRegion base size kind).regions, Q entry := by
  intro entry member
  rcases OrderedMap.mem_insert member with rfl | old
  · exact fresh
  · exact all entry old

theorem release_forall (base : U64) : ∀ entry ∈ (vm.release base).2.regions, Q entry :=
  fun entry member => all entry (OrderedMap.mem_of_mem_erase member)

theorem register_forall (grown : (vm.regions.lookup (base &&& vmPageMask)).isSome → ∀ region,
      Q (base &&& vmPageMask, region) →
      Q (base &&& vmPageMask, { region with size := pageAlignedSize size }))
    (fresh : (base &&& vmPageMask).toNat + (pageAlignedSize size).toNat < 2 ^ 64 →
      Q (base &&& vmPageMask, ⟨base &&& vmPageMask, pageAlignedSize size, kind, []⟩)) :
    ∀ entry ∈ (vm.register base size kind).2.regions, Q entry := by
  rw [register]
  split
  case h_1 region present =>
    dsimp only
    refine modify_forall all fun region old => ?_
    split
    · exact grown (by rw [present]; rfl) region old
    · exact old
  case h_2 =>
    split
    · exact all
    case h_2 stop fits =>
      split
      · exact all
      · exact insertRegion_forall all (fresh (checkedAdd_eq_some fits).1)

end Entries

/-- The page states have no bearing on a fact about the regions. -/
def IgnoresPages (Q : U64 × VmRegion → Prop) : Prop :=
  ∀ key region pages, Q (key, region) → Q (key, { region with pages })

section Pages
variable (ignores : IgnoresPages Q)
include ignores

variable (all : ∀ entry ∈ vm.regions, Q entry)
include all

theorem updateContaining_forall (address : U64) (pages : VmRegion → List (U64 × VmPageState)) :
    ∀ entry ∈ (vm.updateContaining address fun region => { region with pages := pages region }).regions, Q entry := by
  rw [updateContaining]
  split
  · exact all
  · exact modify_forall all fun region old => ignores _ region (pages region) old

theorem commit_forall (base size : U64) (protection : VmProtection) (guard : Bool) :
    ∀ entry ∈ (vm.commit base size protection guard).regions, Q entry := by
  refine forPages_preserves (P := fun vm : VmSpace => ∀ entry ∈ vm.regions, Q entry) ?_ _ _ _ all
  intro page vm old
  exact updateContaining_forall ignores old page _

theorem decommit_forall (base size : U64) : ∀ entry ∈ (vm.decommit base size).regions, Q entry := by
  refine forPages_preserves (P := fun vm : VmSpace => ∀ entry ∈ vm.regions, Q entry) ?_ _ _ _ all
  intro page vm old
  exact updateContaining_forall ignores old page _

theorem protect_forall (base size : U64) (protection : VmProtection) :
    ∀ entry ∈ (vm.protect base size protection).2.regions, Q entry := by
  refine forPages_preserves
    (P := fun state : Option VmProtection × VmSpace => ∀ entry ∈ state.2.regions, Q entry) ?_ _ _ _ all
  rintro page ⟨firstOld, vm⟩ old
  exact updateContaining_forall ignores old page _

end Pages

theorem regionFits_ignoresPages : IgnoresPages RegionFits :=
  fun _ _ _ fits => ⟨fits.keyed, fits.nonempty, fits.inside⟩

/-- The overlap test is exact on regions that end inside the address space. -/
theorem apart_of_not_overlapsAny (bounded : vm.Bounded) (clear : vm.overlapsAny base size = false) :
    base.toNat + size.toNat < 2 ^ 64 ∧ ∀ entry ∈ vm.regions, entry.2.Apart base size := by
  rw [overlapsAny] at clear
  split at clear
  · cases clear
  case h_2 stop fits =>
    obtain ⟨inside, stopAt⟩ := checkedAdd_eq_some fits
    refine ⟨inside, fun entry member => ?_⟩
    have old := bounded entry member
    have regionEnd : (entry.2.base + entry.2.size).toNat = entry.2.base.toNat + entry.2.size.toNat := by
      rw [BitVec.toNat_add, Nat.mod_eq_of_lt (old.keyed ▸ old.inside)]
    have test := List.any_eq_false.mp clear entry member
    simp only [Bool.and_eq_true, BitVec.ult_iff_toNat_lt, regionEnd, stopAt, not_and,
      Nat.not_lt] at test
    by_cases reaches : base.toNat < entry.2.base.toNat + entry.2.size.toNat
    · exact .inl (test reaches)
    · exact .inr (Nat.le_of_not_lt reaches)

/-- Placing a region apart from all others adds it and changes nothing else. -/
theorem insertRegion_keeps (bounded : vm.Bounded) (nonempty : 0 < size.toNat)
    (apart : ∀ entry ∈ vm.regions, entry.2.Apart base size) :
    ∀ entry ∈ vm.regions, entry ∈ (vm.insertRegion base size kind).regions ∧
      ∀ byte, ¬ (entry.2.contains byte ∧ VmRegion.contains ⟨base, size, kind, []⟩ byte) := by
  intro entry member
  have old := bounded entry member
  have otherKey : entry.1 ≠ base := by
    rintro rfl
    rcases apart entry member with before | after
    · rw [old.keyed] at before
      omega
    · have := old.nonempty
      rw [old.keyed] at after
      omega
  exact ⟨OrderedMap.mem_insert_of_ne member otherKey, (apart entry member).no_shared_byte⟩

end VmSpace

/-- Sizes round inside a word, a grown region still ends inside the address
space, and the range at the cursor is free when a reservation is taken from it. -/
def VmOperation.Safe (vm : VmSpace) : VmOperation → Prop
  | .reserve base size => SizeRounds size ∧ (base = none → ∀ entry ∈ vm.regions,
      entry.2.Apart (alignUp vm.nextRegionAddress vmPageSize) (pageAlignedSize size))
  | .register base size _ => SizeRounds size ∧
      ((vm.regions.lookup (base &&& vmPageMask)).isSome = true →
        (base &&& vmPageMask).toNat + (pageAlignedSize size).toNat < 2 ^ 64)
  | _ => True

/-- A safe reservation fails without effect, or adds a region apart from the others. -/
theorem reserve_cases (bounded : vm.Bounded) (safe : (VmOperation.reserve base size).Safe vm) :
    vm.reserve base size = (0, vm) ∨
    ∃ address cursor, address.toNat + (pageAlignedSize size).toNat < 2 ^ 64 ∧
      (∀ entry ∈ vm.regions, entry.2.Apart address (pageAlignedSize size)) ∧
      vm.reserve base size =
        (address, { vm with nextRegionAddress := cursor }.insertRegion address (pageAlignedSize size)
          VmRegionKind.private) := by
  cases base with
  | some =>
    rw [VmSpace.reserve]
    split
    · exact .inl rfl
    case isFalse accepted =>
      simp only [Bool.or_eq_true, not_or, Bool.not_eq_true] at accepted
      obtain ⟨inside, apart⟩ := VmSpace.apart_of_not_overlapsAny bounded accepted.2
      exact .inr ⟨_, vm.nextRegionAddress, inside, apart, rfl⟩
  | none =>
    rw [VmSpace.reserve]
    split
    · exact .inl rfl
    case h_2 stop fits =>
      exact .inr ⟨_, stop, (checkedAdd_eq_some fits).1, safe.2 rfl, rfl⟩

theorem reserve_exact (bounded : vm.Bounded) (safe : (VmOperation.reserve base size).Safe vm) :
    ReserveExact vm base size := by
  rcases reserve_cases bounded safe with failed | ⟨address, cursor, -, apart, placed⟩
  · intro effect
    rw [failed] at effect
    simp at effect
  · intro _ entry member
    rw [placed]
    have moved : VmSpace.Bounded { vm with nextRegionAddress := cursor } := bounded
    exact VmSpace.insertRegion_keeps moved (pageAlignedSize_pos safe.1) apart entry member

namespace VmOperation

theorem apply_bounded {operation : VmOperation} (bounded : vm.Bounded) (safe : operation.Safe vm) :
    (operation.apply vm).Bounded := by
  cases operation with
  | reserve =>
    rcases reserve_cases bounded safe with failed | ⟨address, cursor, inside, -, placed⟩
    · rw [apply, failed]
      exact bounded
    · rw [apply, placed]
      have moved : VmSpace.Bounded { vm with nextRegionAddress := cursor } := bounded
      exact VmSpace.insertRegion_forall moved ⟨rfl, pageAlignedSize_pos safe.1, inside⟩
  | register =>
    refine VmSpace.register_forall bounded (fun present region old => ?_) fun inside => ?_
    · exact ⟨old.keyed, pageAlignedSize_pos safe.1, safe.2 present⟩
    · exact ⟨rfl, pageAlignedSize_pos safe.1, inside⟩
  | commit base size protection guard =>
    exact VmSpace.commit_forall VmSpace.regionFits_ignoresPages bounded base size protection guard
  | decommit base size =>
    exact VmSpace.decommit_forall VmSpace.regionFits_ignoresPages bounded base size
  | protect base size protection =>
    exact VmSpace.protect_forall VmSpace.regionFits_ignoresPages bounded base size protection
  | release base => exact VmSpace.release_forall bounded base

def SafeRun : VmSpace → List VmOperation → Prop
  | _, [] => True
  | vm, operation :: rest => operation.Safe vm ∧ SafeRun (operation.apply vm) rest

theorem run_bounded (bounded : vm.Bounded) (safe : SafeRun vm (before ++ after)) :
    (run vm before).Bounded ∧ SafeRun (run vm before) after := by
  induction before generalizing vm with
  | nil => exact ⟨bounded, safe⟩
  | cons operation rest ih => exact ih (apply_bounded bounded safe.1) safe.2

end VmOperation

/-- In a safe run from an empty map every reservation is exact, whatever was
reserved, registered, committed, protected or released before it. The default
map is the one whose cursor starts at `0x7fff84000000`. -/
theorem reservations_keep_regions (cursor : U64) (operations : List VmOperation)
    (safe : VmOperation.SafeRun (VmSpace.new cursor) operations) :
    ∀ before base size after, operations = before ++ .reserve base size :: after →
      ReserveExact (VmOperation.run (VmSpace.new cursor) before) base size := by
  rintro before base size after rfl
  have empty : (VmSpace.new cursor).Bounded := fun _ member => nomatch member
  obtain ⟨bounded, remaining⟩ := VmOperation.run_bounded empty safe
  exact reserve_exact bounded remaining.1

theorem reservations_keep_regions_registered :
    let before : List VmOperation :=
      [.register 0x400000 0x2000 .image, .commit 0x400000 0x1000 ⟨true, true, false⟩ false,
        .reserve (some 0x800000) 0x1000]
    let vm := VmOperation.run (VmSpace.new 0x10000) before
    (vm.reserve none 0x1800).1 = 0x10000 ∧ ReserveExact vm none 0x1800 := by
  refine ⟨by decide, ?_⟩
  exact reservations_keep_regions 0x10000
    [.register 0x400000 0x2000 .image, .commit 0x400000 0x1000 ⟨true, true, false⟩ false,
      .reserve (some 0x800000) 0x1000, .reserve none 0x1800]
    ⟨⟨by decide, by decide⟩, trivial, ⟨by decide, by decide⟩, ⟨by decide, by decide⟩, trivial⟩
    [_, _, _] none 0x1800 [] rfl

end Casa.Vm
