import Casa.Vm.PageStates

/-! Queries of the canonical virtual-memory layer (vm.rs). The run around a page
is found by walking the page map of its innermost region in both directions; what
it says is compared with the lookup that decides every access. -/
namespace Casa.Vm
open Effect MachineInt VirtualMemory BitVec Nat Option
open Bool (and_eq_true eq_false_iff)
open VmRegion (contains_iff)
open OrderedMap (mem_of_lookup)

inductive VmState where
  | free
  | reserved
  | committed
  deriving DecidableEq

def VmProtection.none : VmProtection := ⟨false, false, false⟩

structure VmQueryResult where
  base : U64
  regionSize : U64
  state : VmState
  protection : VmProtection
  kind : VmRegionKind
  guard : Bool

/-- The page is committed as `state` is. -/
def VmRegion.alike (region : VmRegion) (state : VmPageState) (page : U64) : Bool :=
  match region.pages.lookup page with
  | some other =>
    other.committed && other.protection == state.protection && other.guard == state.guard
  | none => false

/-- `while run_start > base`, a page back as long as it joins. -/
def walkBack (joins : U64 → Bool) (base : U64) : Nat → U64 → U64
  | 0, runStart => runStart
  | rounds + 1, runStart =>
    if base.ult runStart then
      let prev := runStart - vmPageSize
      if joins prev then walkBack joins base rounds prev else runStart
    else runStart

def walkForward (joins : U64 → Bool) : Nat → U64 → U64
  | 0, runEnd => runEnd
  | rounds + 1, runEnd =>
    if joins runEnd then walkForward joins rounds (runEnd + vmPageSize) else runEnd

/-- No walk visits more pages than the address space has. -/
def addressSpacePages : Nat := 2 ^ 52

def VirtualMemory.query (vm : VirtualMemory) (address : U64) : VmQueryResult :=
  let page := address &&& vmPageMask
  match vm.regionContaining address with
  | none => ⟨0, 0, .free, .none, VmRegionKind.private, false⟩
  | some region =>
    match region.pages.lookup page with
    | some state =>
      let runStart := walkBack (region.alike state) region.base addressSpacePages page
      let runEnd := walkForward (region.alike state) addressSpacePages (page + vmPageSize)
      ⟨runStart, runEnd - runStart, .committed, state.protection, region.kind, state.guard⟩
    | none =>
      let absent page := (region.pages.lookup page).isNone
      let runStart := walkBack absent region.base addressSpacePages page
      let regionEnd := region.base + region.size
      let runEnd := walkForward (fun page => page.ult regionEnd && absent page) addressSpacePages
        (page + vmPageSize)
      ⟨runStart, runEnd - runStart, .reserved, .none, region.kind, false⟩

/-! ## What a sound answer says -/

/-- State, protection and guard of one page. -/
structure PageView where
  state : VmState
  protection : VmProtection
  guard : Bool
  deriving DecidableEq

def PageView.ofState : Option VmPageState → PageView
  | none => ⟨.reserved, .none, false⟩
  | some state => ⟨.committed, state.protection, state.guard⟩

def VirtualMemory.pageView (vm : VirtualMemory) (address : U64) : PageView :=
  match vm.regionContaining address with
  | none => ⟨.free, .none, false⟩
  | some region => PageView.ofState (region.pages.lookup (address &&& vmPageMask))

/-- The verdict on an access that a page's view stands for. -/
def PageView.verdict (view : PageView) (address : U64) (write execute : Bool) :
    Result VmAccessFault Unit :=
  if view.state ≠ .committed then .error ⟨address, write, false⟩
  else if view.guard then .error ⟨address, write, true⟩
  else if (execute && view.protection.execute) || (write && view.protection.write)
      || (!execute && !write && view.protection.read) then .ok ()
  else .error ⟨address, write, false⟩

def VmQueryResult.view (result : VmQueryResult) : PageView :=
  ⟨result.state, result.protection, result.guard⟩

def VmQueryResult.InRun (result : VmQueryResult) (address : U64) : Prop :=
  result.base.toNat ≤ address.toNat ∧ address.toNat < result.base.toNat + result.regionSize.toNat

def VirtualMemory.SameAllocation (vm : VirtualMemory) (page address : U64) : Prop :=
  (vm.regionContaining page).map (·.base) = (vm.regionContaining address).map (·.base)

structure QuerySound (vm : VirtualMemory) (address : U64) : Prop where
  contains : (vm.query address).InRun address
  uniform : ∀ byte, (vm.query address).InRun byte → vm.pageView byte = (vm.query address).view ∧
    ∀ write execute,
      vm.checkAccess byte write execute = (vm.query address).view.verdict byte write execute
  before : ∀ page : U64, page.toNat + 0x1000 = (vm.query address).base.toNat →
    vm.SameAllocation page address → vm.pageView page ≠ (vm.query address).view
  after : ∀ page : U64,
    page.toNat = (vm.query address).base.toNat + (vm.query address).regionSize.toNat →
    vm.SameAllocation page address → vm.pageView page ≠ (vm.query address).view

/-- The walk over the region's own map steps onto the page. -/
structure Scanned (region : VmRegion) (page other : U64) : Prop where
  inside : region.contains other = true
  alike : region.pages.lookup other = region.pages.lookup page
  bounded : page.toNat < other.toNat → region.pages.lookup page = none →
    other.toNat < (region.base + region.size).toNat

/-- Every page from one to the other is stepped onto. -/
def RunsTo (region : VmRegion) (page other : U64) : Prop :=
  ∀ between : U64, between.toNat % 0x1000 = 0 →
    (other.toNat ≤ between.toNat ∧ between.toNat ≤ page.toNat ∨
      page.toNat < between.toNat ∧ between.toNat ≤ other.toNat) → Scanned region page between

/-- The address lies in a region whose own run around it is what accesses see
there: no inner region interrupts it. A region grown past the end of the address
space also has no reserved page right after a reserved page that is asked for. -/
structure QueryClear (vm : VirtualMemory) (address : U64) (region : VmRegion) : Prop where
  found : vm.regionContaining address = some region
  undisturbed : ∀ page : U64, page.toNat % 0x1000 = 0 →
    RunsTo region (address &&& vmPageMask) page → vm.pageView page = vm.pageView address
  ends : 2 ^ 64 ≤ region.base.toNat + region.size.toNat →
    region.pages.lookup (address &&& vmPageMask) = none → ∀ next : U64,
      next.toNat = (address &&& vmPageMask).toNat + 0x1000 → vm.SameAllocation next address →
        vm.pageView next ≠ vm.pageView address

/-- The committed run of the outer region goes on over an inner region that is
only reserved. Free memory is reported as no run at all. -/
theorem query_misses_inner_region :
    ¬ QuerySound (VmOperation.run (VmSpace.new 0x10000)
        [.register 0x10000 0x3000 .image, .commit 0x10000 0x3000 ⟨true, true, false⟩ false,
          .register 0x11000 0x1000 .heap]).toVirtualMemory 0x10000 ∧
    ¬ QuerySound (VmSpace.new 0x10000).toVirtualMemory 0x5000 := by
  refine ⟨fun sound => ?_, fun sound => ?_⟩
  · have inRun : ((VmOperation.run (VmSpace.new 0x10000)
        [.register 0x10000 0x3000 .image, .commit 0x10000 0x3000 ⟨true, true, false⟩ false,
          .register 0x11000 0x1000 .heap]).query 0x10000).InRun 0x11000 := ⟨by decide, by decide⟩
    exact absurd (sound.uniform 0x11000 inRun).1 (by decide)
  · exact absurd sound.contains.2 (by decide)

/-! ## The walks -/

structure RunsBack (joins : U64 → Bool) (base page start : U64) : Prop where
  whole : start.toNat % 0x1000 = 0
  above : base.toNat ≤ start.toNat
  below : start.toNat ≤ page.toNat
  joined : ∀ other : U64, other.toNat % 0x1000 = 0 → start.toNat ≤ other.toNat →
    other.toNat < page.toNat → joins other = true
  stopped : ∀ other : U64, other.toNat + 0x1000 = start.toNat → base.toNat ≤ other.toNat →
    joins other = false

/-- The end may be that of the address space, one past the last page. -/
structure RunsForward (joins : U64 → Bool) (start stop : Nat) : Prop where
  whole : stop % 0x1000 = 0
  above : start ≤ stop
  below : stop ≤ 2 ^ 64
  joined : ∀ other : U64, other.toNat % 0x1000 = 0 → start ≤ other.toNat → other.toNat < stop →
    joins other = true
  stopped : ∀ other : U64, other.toNat = stop → joins other = false

theorem RunsBack.here (aligned : page.toNat % 0x1000 = 0) (inside : base.toNat ≤ page.toNat)
    (stopped : ∀ other : U64, other.toNat + 0x1000 = page.toNat → base.toNat ≤ other.toNat →
      joins other = false) : RunsBack joins base page page where
  whole := aligned
  above := inside
  below := le_refl _
  joined := fun _ _ after before => absurd before (not_lt.mpr after)
  stopped := stopped

theorem walkBack_runs (baseAligned : base.toNat % 0x1000 = 0) (aligned : page.toNat % 0x1000 = 0)
    (inside : base.toNat ≤ page.toNat) (enough : page.toNat ≤ base.toNat + 0x1000 * rounds) :
    RunsBack joins base page (walkBack joins base rounds page) := by
  induction rounds generalizing page with
  | zero => exact RunsBack.here aligned inside fun other next above => by omega
  | succ rounds ih =>
    rw [walkBack]
    split
    case isFalse atBase =>
      have reached : page.toNat ≤ base.toNat := Nat.le_of_not_lt fun more => atBase (ult_iff_toNat_lt.mpr more)
      exact RunsBack.here aligned inside fun other next above => by omega
    case isTrue above =>
      have above := ult_iff_toNat_lt.mp above
      have full : vmPageSize ≤ page := le_def.mpr (show 0x1000 ≤ page.toNat by omega)
      have prev : (page - vmPageSize).toNat = page.toNat - 0x1000 := toNat_sub_of_le full
      dsimp only
      split
      case isTrue joined =>
        have rest := @ih (page - vmPageSize) (by omega) (by omega) (by omega)
        have below := rest.below
        refine ⟨rest.whole, rest.above, by omega, fun other whole after before => ?_, rest.stopped⟩
        by_cases here : other.toNat = page.toNat - 0x1000
        · obtain rfl : other = page - vmPageSize := eq_of_toNat_eq (here.trans prev.symm)
          exact joined
        · exact rest.joined other whole after (by omega)
      case isFalse apart =>
        refine RunsBack.here aligned inside fun other next _ => ?_
        obtain rfl : other = page - vmPageSize := eq_of_toNat_eq (by omega)
        exact eq_false_iff.mpr apart

theorem walkForward_of_apart (apart : joins runEnd = false) :
    walkForward joins rounds runEnd = runEnd := by
  cases rounds with
  | zero => rfl
  | succ rounds => rw [walkForward, if_neg (eq_false_iff.mp apart)]

theorem walkForward_runs (aligned : runEnd.toNat % 0x1000 = 0)
    (enough : 2 ^ 64 ≤ runEnd.toNat + 0x1000 * rounds) (wraps : joins lastPage → joins 0 = false) :
    ∃ stop, RunsForward joins runEnd.toNat stop ∧
      walkForward joins rounds runEnd = BitVec.ofNat 64 stop := by
  have atTop := runEnd.isLt
  induction rounds generalizing runEnd with
  | zero => omega
  | succ rounds ih =>
    rw [walkForward]
    split
    case isFalse apart =>
      refine ⟨runEnd.toNat, ⟨aligned, le_refl _, le_of_lt atTop, fun other _ after before => ?_,
        fun other same => ?_⟩, by rw [ofNat_toNat, setWidth_eq]⟩
      · exact absurd before (not_lt.mpr after)
      · obtain rfl := eq_of_toNat_eq same
        exact eq_false_iff.mpr apart
    case isTrue joined =>
      have size : vmPageSize.toNat = 0x1000 := rfl
      by_cases last : runEnd.toNat + 0x1000 < 2 ^ 64
      · have next : (runEnd + vmPageSize).toNat = runEnd.toNat + 0x1000 := by
          rw [toNat_add, size, mod_eq_of_lt last]
        obtain ⟨stop, rest, walked⟩ := @ih (runEnd + vmPageSize) (by omega) (by omega) (by omega)
        have above := rest.above
        refine ⟨stop, ⟨rest.whole, by omega, rest.below, fun other whole after before => ?_, rest.stopped⟩, walked⟩
        by_cases here : other.toNat = runEnd.toNat
        · obtain rfl := eq_of_toNat_eq here
          exact joined
        · exact rest.joined other whole (by omega) before
      · -- the last page of the address space: the walk comes back to address zero
        obtain rfl : runEnd = lastPage := eq_of_toNat_eq (show runEnd.toNat = 2 ^ 64 - 0x1000 by omega)
        refine ⟨2 ^ 64, ⟨rfl, by decide, le_refl _, fun other whole after before => ?_, fun other same => ?_⟩, ?_⟩
        · obtain rfl : other = lastPage := eq_of_toNat_eq (by omega)
          exact joined
        · omega
        · exact walkForward_of_apart (wraps joined)

/-! ## The run of a query -/

def VmRegion.same (region : VmRegion) (page other : U64) : Bool :=
  region.pages.lookup other == region.pages.lookup page

/-- The test of the forward walk. -/
def VmRegion.scans (region : VmRegion) (page other : U64) : Bool :=
  region.same page other &&
    ((region.pages.lookup page).isSome || other.ult (region.base + region.size))

/-- A region as the operations keep it. -/
structure VmRegion.Kept (region : VmRegion) : Prop where
  base : region.base.toNat % 0x1000 = 0
  size : region.size.toNat % 0x1000 = 0
  pages : ∀ entry ∈ region.pages, PageKept region entry

theorem regionContaining_kept {vm : VmSpace} (kept : vm.WellKept) (aligned : vm.Aligned)
    (found : vm.regionContaining address = some region) :
    region.Kept ∧ region.contains address := by
  obtain ⟨key, member, contains⟩ := regionContaining_mem found
  have whole := aligned _ member
  refine ⟨⟨?_, whole.size, kept.pages _ member⟩, contains⟩
  rw [show region.base = key from whole.keyed]
  exact whole.base

section Region
variable {region : VmRegion} (kept : region.Kept)
include kept

theorem VmRegion.Kept.alike_eq (found : region.pages.lookup page = some state) :
    region.alike state = region.same page := by
  have committed (other : U64) (value : VmPageState) (there : region.pages.lookup other = some value) :
      value.committed := (kept.pages _ (mem_of_lookup there)).committed
  have own := committed page state found
  funext other
  rw [alike, same, found]
  cases there : region.pages.lookup other with
  | none => rfl
  | some value =>
    have theirs := committed other value there
    obtain ⟨protection, guard, committed⟩ := state
    obtain ⟨protection', guard', committed'⟩ := value
    obtain rfl : committed := own
    obtain rfl : committed' := theirs
    rw [Bool.eq_iff_iff]
    simp

/-- A region that reaches the last page does not start at address zero. -/
theorem VmRegion.Kept.base_pos (last : region.contains lastPage) : 0 < region.base.toNat := by
  have inside := contains_iff.mp last
  have lastAt : lastPage.toNat = 2 ^ 64 - 0x1000 := rfl
  have sizeMod := kept.size
  omega

theorem VmRegion.Kept.contains_of_lookup (found : region.pages.lookup page = some state) :
    region.contains page :=
  (kept.pages _ (mem_of_lookup found)).inside

theorem VmRegion.Kept.end_mod : (region.base + region.size).toNat % 0x1000 = 0 := by
  have baseMod := kept.base
  have sizeMod := kept.size
  rw [toNat_add]
  omega

/-- The walk reaches the last page only over committed pages. -/
theorem VmRegion.Kept.scans_last (scans : region.scans page lastPage) :
    region.contains lastPage ∧ (region.pages.lookup page).isSome := by
  rw [VmRegion.scans, VmRegion.same, and_eq_true, Bool.or_eq_true, beq_iff_eq] at scans
  obtain ⟨same, committed | before⟩ := scans
  · obtain ⟨state, found⟩ := isSome_iff_exists.mp committed
    exact ⟨kept.contains_of_lookup (same.trans found), committed⟩
  · have below := ult_iff_toNat_lt.mp before
    have lastAt : lastPage.toNat = 2 ^ 64 - 0x1000 := rfl
    have endMod := kept.end_mod
    omega

theorem VmRegion.Kept.scans_wraps (scans : region.scans page lastPage) :
    region.scans page 0 = false := by
  obtain ⟨last, committed⟩ := kept.scans_last scans
  have positive := kept.base_pos last
  rw [eq_false_iff]
  intro atZero
  rw [VmRegion.scans, same, and_eq_true, beq_iff_eq] at atZero
  obtain ⟨state, found⟩ := isSome_iff_exists.mp committed
  have inside := contains_iff.mp (kept.contains_of_lookup (atZero.1.trans found))
  exact absurd inside.1 (not_le.mpr positive)

end Region

/-- A region that wraps ends below itself, so no page after a reserved one is joined to it. -/
theorem VmRegion.not_scans_of_wraps {region : VmRegion}
    (wraps : 2 ^ 64 ≤ region.base.toNat + region.size.toNat)
    (reserved : region.pages.lookup page = none) (contains : region.contains page)
    (after : page.toNat < next.toNat) : ¬ region.scans page next := by
  intro scans
  rw [VmRegion.scans, reserved, isSome_none, Bool.false_or, and_eq_true, ult_iff_toNat_lt,
    toNat_add] at scans
  have inside := contains_iff.mp contains
  omega

/-- Where the two walks from a page of the region end. -/
structure QueryRun (region : VmRegion) (page start : U64) (stop : Nat) : Prop where
  back : RunsBack (region.same page) region.base page start
  above : page.toNat + 0x1000 ≤ stop
  whole : stop % 0x1000 = 0 ∨ 2 ^ 64 ≤ stop
  joined : ∀ other : U64, other.toNat % 0x1000 = 0 → page.toNat < other.toNat → other.toNat < stop →
    region.scans page other = true
  stopped : ∀ other : U64, other.toNat = stop → region.scans page other = false

theorem VmRegion.Kept.query_eq {vm : VirtualMemory} (kept : region.Kept)
    (found : vm.regionContaining address = some region) :
    (vm.query address).base =
      walkBack (region.same (address &&& vmPageMask)) region.base addressSpacePages
        (address &&& vmPageMask) ∧
    (vm.query address).regionSize =
      walkForward (region.scans (address &&& vmPageMask)) addressSpacePages
        ((address &&& vmPageMask) + vmPageSize) - (vm.query address).base ∧
    (vm.query address).view = vm.pageView address := by
  rw [query, pageView, found]
  dsimp only
  cases there : region.pages.lookup (address &&& vmPageMask) with
  | some =>
    have scans : region.scans (address &&& vmPageMask) = region.same (address &&& vmPageMask) := by
      funext other
      rw [VmRegion.scans, there, isSome_some, Bool.true_or, Bool.and_true]
    dsimp only
    rw [kept.alike_eq there, scans]
    exact ⟨rfl, rfl, rfl⟩
  | none =>
    have same : (fun page => (region.pages.lookup page).isNone) = region.same (address &&& vmPageMask) := by
      funext other
      rw [VmRegion.same, there]
      cases region.pages.lookup other <;> rfl
    have scans : (fun page : U64 => page.ult (region.base + region.size) &&
        region.same (address &&& vmPageMask) page) = region.scans (address &&& vmPageMask) := by
      funext other
      rw [VmRegion.scans, there, isSome_none, Bool.false_or, Bool.and_comm]
    rw [← scans, ← same]
    exact ⟨rfl, rfl, rfl⟩

section Run
variable {region : VmRegion} (kept : region.Kept)
include kept

/-- The forward walk of a reserved page never passes the region's end. -/
theorem VmRegion.Kept.walkForward_le (reserved : region.pages.lookup page = none)
    (whole : runEnd.toNat % 0x1000 = 0) (before : runEnd.toNat ≤ (region.base + region.size).toNat)
    (rounds : Nat) :
    (walkForward (region.scans page) rounds runEnd).toNat ≤ (region.base + region.size).toNat := by
  induction rounds generalizing runEnd with
  | zero => exact before
  | succ rounds ih =>
    rw [walkForward]
    split
    case isFalse => exact before
    case isTrue scans =>
      rw [VmRegion.scans, reserved, and_eq_true] at scans
      have below := ult_iff_toNat_lt.mp scans.2
      have endMod := kept.end_mod
      have size : vmPageSize.toNat = 0x1000 := rfl
      have next : (runEnd + vmPageSize).toNat = runEnd.toNat + 0x1000 := by
        rw [toNat_add, size, mod_eq_of_lt (by omega)]
      exact ih (by omega) (by omega)

/-- From the last page the walk starts again at zero and stays below the region. -/
theorem VmRegion.Kept.walkForward_last (last : region.contains lastPage) (rounds : Nat) :
    (walkForward (region.scans lastPage) rounds 0).toNat < region.base.toNat := by
  have positive := kept.base_pos last
  cases found : region.pages.lookup lastPage with
  | some =>
    have apart : region.scans lastPage 0 = false := by
      apply kept.scans_wraps
      rw [scans, same, found]
      simp
    rw [walkForward_of_apart apart]
    exact positive
  | none =>
    have walked : (walkForward (region.scans lastPage) rounds 0).toNat ≤ (region.base + region.size).toNat :=
      kept.walkForward_le found rfl (zero_le _) rounds
    have inside := contains_iff.mp last
    have lastAt : lastPage.toNat = 2 ^ 64 - 0x1000 := rfl
    have baseMod := kept.base
    have sizeMod := kept.size
    rw [toNat_add] at walked
    omega

theorem VmRegion.Kept.queryRun (contains : region.contains page) (whole : page.toNat % 0x1000 = 0)
    (back : start = walkBack (region.same page) region.base addressSpacePages page) :
    QueryRun region page start (start.toNat +
      (walkForward (region.scans page) addressSpacePages (page + vmPageSize) - start).toNat) := by
  have inside := contains_iff.mp contains
  have rounds : addressSpacePages = 2 ^ 52 := rfl
  have size : vmPageSize.toNat = 0x1000 := rfl
  have behind : RunsBack (region.same page) region.base page start := by
    rw [back]
    exact walkBack_runs kept.base whole inside.1 (by omega)
  have below := behind.below
  have above := behind.above
  by_cases last : page = lastPage
  · -- the reported end lies past the address space
    subst last
    have walked := kept.walkForward_last contains addressSpacePages
    have wrapped : lastPage + vmPageSize = 0 := rfl
    have lastAt : lastPage.toNat = 2 ^ 64 - 0x1000 := rfl
    have beyond : 2 ^ 64 ≤ start.toNat +
        (walkForward (region.scans lastPage) addressSpacePages (lastPage + vmPageSize) - start).toNat := by
      rw [wrapped, toNat_sub]
      omega
    have top : lastPage.toNat + 0x1000 ≤ 2 ^ 64 := by decide
    refine ⟨behind, le_trans top beyond, .inr beyond, fun other otherMod after _ => ?_, fun other same => ?_⟩
    · omega
    · exact absurd (same ▸ other.isLt) (not_lt.mpr beyond)
  · have notLast : page.toNat ≠ 2 ^ 64 - 0x1000 := fun same => last (eq_of_toNat_eq same)
    have next : (page + vmPageSize).toNat = page.toNat + 0x1000 := by
      rw [toNat_add, size, mod_eq_of_lt (by omega)]
    have nextMod : (page + vmPageSize).toNat % 0x1000 = 0 := by omega
    have enough : 2 ^ 64 ≤ (page + vmPageSize).toNat + 0x1000 * addressSpacePages := by omega
    have wraps : region.scans page lastPage → region.scans page 0 = false := kept.scans_wraps
    obtain ⟨stop, ahead, walked⟩ := walkForward_runs nextMod enough wraps
    have aheadAbove := ahead.above
    have aheadBelow := ahead.below
    have notWhole : stop - start.toNat < 2 ^ 64 := by
      by_contra everything
      have lastAt : lastPage.toNat = 2 ^ 64 - 0x1000 := rfl
      have scanned := ahead.joined lastPage (by decide) (by omega) (by omega)
      have positive := kept.base_pos (kept.scans_last scanned).1
      omega
    have length : start.toNat + (BitVec.ofNat 64 stop - start).toNat = stop := by
      rw [toNat_sub, toNat_ofNat]
      omega
    rw [walked, length]
    exact ⟨behind, by omega, .inl ahead.whole, fun other otherMod after before =>
      ahead.joined other otherMod (by omega) before, ahead.stopped⟩

end Run

namespace QueryRun

/-- The pages of the run are those that the region's own map joins to the page. -/
theorem reaches_iff (run : QueryRun region page start stop) (kept : region.Kept)
    (contains : region.contains page) (whole : other.toNat % 0x1000 = 0) :
    (start.toNat ≤ other.toNat ∧ other.toNat < stop) ↔ RunsTo region page other := by
  have inside := contains_iff.mp contains
  have above := run.back.above
  constructor
  · rintro ⟨after, before⟩ between betweenMod (⟨low, high⟩ | ⟨low, high⟩)
    · refine ⟨contains_iff.mpr ⟨by omega, by omega⟩, ?_, fun later => by omega⟩
      by_cases here : between.toNat = page.toNat
      · rw [eq_of_toNat_eq here]
      · exact beq_iff_eq.mp (run.back.joined between betweenMod (by omega) (by omega))
    · have scans := run.joined between betweenMod low (by omega)
      rw [VmRegion.scans, VmRegion.same, and_eq_true, beq_iff_eq, Bool.or_eq_true, ult_iff_toNat_lt] at scans
      refine ⟨?_, scans.1, fun _ reserved => ?_⟩
      · cases found : region.pages.lookup page with
        | some => exact kept.contains_of_lookup (scans.1.trans found)
        | none =>
          have below := scans.2.resolve_left (by rw [found]; exact Bool.false_ne_true)
          exact contains_iff.mpr ⟨by omega, lt_of_lt_of_le below (mod_le _ _)⟩
      · exact scans.2.resolve_left (by rw [reserved]; exact Bool.false_ne_true)
  · intro reaches
    have startMod := run.back.whole
    have upper := run.above
    constructor
    · -- otherwise the page before the run's start would have been joined
      by_contra outside
      have below := run.back.below
      let previous : U64 := BitVec.ofNat 64 (start.toNat - 0x1000)
      have previousAt : previous.toNat = start.toNat - 0x1000 := by
        rw [toNat_ofNat, mod_eq_of_lt (by omega)]
      have scanned := reaches previous (by omega) (.inl ⟨by omega, by omega⟩)
      have apart := run.back.stopped previous (by omega) (contains_iff.mp scanned.inside).1
      rw [VmRegion.same, scanned.alike, beq_self_eq_true] at apart
      cases apart
    · by_contra outside
      have stopMod := run.whole
      let next : U64 := BitVec.ofNat 64 stop
      have nextAt : next.toNat = stop := by
        rw [toNat_ofNat, mod_eq_of_lt (by omega)]
      have scanned := reaches next (by omega) (.inr ⟨by omega, by omega⟩)
      have apart := run.stopped next nextAt
      rw [VmRegion.scans, VmRegion.same, scanned.alike, beq_self_eq_true, Bool.true_and, Bool.or_eq_false_iff] at apart
      have reserved : region.pages.lookup page = none := not_isSome_iff_eq_none.mp (eq_false_iff.mp apart.1)
      have below := scanned.bounded (by omega) reserved
      exact absurd (ult_iff_toNat_lt.mpr below) (eq_false_iff.mp apart.2)

/-- A byte belongs to the run with its page. -/
theorem byte_iff (run : QueryRun region page start stop) :
    (start.toNat ≤ byte.toNat ∧ byte.toNat < stop) ↔
      (start.toNat ≤ (byte &&& vmPageMask).toNat ∧ (byte &&& vmPageMask).toNat < stop) := by
  have startMod := run.back.whole
  have stopMod := run.whole
  rw [and_vmPageMask_toNat]
  omega

end QueryRun

section Views
variable {vm : VmSpace} (kept : vm.WellKept) (aligned : vm.Aligned)
include aligned

theorem pageView_page (address : U64) :
    vm.pageView (address &&& vmPageMask) = vm.pageView address := by
  rw [pageView, pageView, regionContaining_page aligned, BitVec.and_assoc, BitVec.and_self]

include kept

/-- An access is judged by the page's view alone. -/
theorem checkAccess_eq_verdict (address : U64) (write execute : Bool) :
    vm.checkAccess address write execute = (vm.pageView address).verdict address write execute := by
  rw [checkAccess, pageView]
  cases found : vm.regionContaining address with
  | none => rfl
  | some region =>
    cases there : region.pages.lookup (address &&& vmPageMask) with
    | none =>
      dsimp only
      rw [there]
      rfl
    | some state =>
      have committed : state.committed :=
        ((regionContaining_kept kept aligned found).1.pages _ (mem_of_lookup there)).committed
      dsimp only
      rw [there]
      simp [committed, PageView.ofState, PageView.verdict]

/-- Pages of one allocation with equal views have equal entries in its page map. -/
theorem lookup_eq_of_view (whole : page.toNat % 0x1000 = 0)
    (found : vm.regionContaining address = some region) (together : vm.SameAllocation page address)
    (views : vm.pageView page = vm.pageView address) :
    region.contains page ∧
      region.pages.lookup page = region.pages.lookup (address &&& vmPageMask) := by
  rw [VirtualMemory.SameAllocation, found] at together
  obtain ⟨other, otherFound, sameBase⟩ := map_eq_some_iff.mp together
  obtain ⟨key, member, contains⟩ := regionContaining_mem otherFound
  obtain ⟨key', member', -⟩ := regionContaining_mem found
  have sameKey : key = key' :=
    (aligned _ member).keyed.symm.trans (sameBase.trans (aligned _ member').keyed)
  obtain ⟨-, rfl⟩ := Prod.mk.inj (kept.ascending.eq_of_key member member' sameKey)
  have self : page &&& vmPageMask = page := by
    apply eq_of_toNat_eq
    rw [and_vmPageMask_toNat]
    omega
  refine ⟨contains, ?_⟩
  rw [pageView, pageView, otherFound, found] at views
  rw [self] at views
  have pages := (regionContaining_kept kept aligned found).1.pages
  cases left : other.pages.lookup page with
  | none =>
    cases right : other.pages.lookup (address &&& vmPageMask) with
    | none => rfl
    | some => simp [left, right, PageView.ofState] at views
  | some state =>
    cases right : other.pages.lookup (address &&& vmPageMask) with
    | none => simp [left, right, PageView.ofState] at views
    | some state' =>
      have committed := (pages _ (mem_of_lookup left)).committed
      have committed' := (pages _ (mem_of_lookup right)).committed
      obtain ⟨protection, guard, isCommitted⟩ := state
      obtain ⟨protection', guard', isCommitted'⟩ := state'
      obtain rfl : isCommitted := committed
      obtain rfl : isCommitted' := committed'
      simpa [left, right, PageView.ofState] using views

end Views

section Sound
variable {vm : VmSpace} (kept : vm.WellKept) (aligned : vm.Aligned)
include kept aligned

theorem page_contained (found : vm.regionContaining address = some region) :
    region.contains (address &&& vmPageMask) :=
  (regionContaining_kept kept aligned ((regionContaining_page aligned).trans found)).2

/-- The answer inside a region, with the run it describes. -/
theorem query_run (found : vm.regionContaining address = some region) :
    QueryRun region (address &&& vmPageMask) (vm.query address).base
        ((vm.query address).base.toNat + (vm.query address).regionSize.toNat) ∧
      (vm.query address).view = vm.pageView address := by
  obtain ⟨regionKept, -⟩ := regionContaining_kept kept aligned found
  obtain ⟨base, size, view⟩ := regionKept.query_eq found
  refine ⟨?_, view⟩
  rw [size]
  exact regionKept.queryRun (page_contained kept aligned found) (and_vmPageMask_mod address) base

theorem QueryClear.sound (clear : QueryClear vm.toVirtualMemory address region) :
    QuerySound vm.toVirtualMemory address := by
  have found := clear.found
  obtain ⟨regionKept, -⟩ := regionContaining_kept kept aligned found
  have contains := page_contained kept aligned found
  obtain ⟨run, view⟩ := query_run kept aligned found
  have pageMod := and_vmPageMask_mod address
  constructor
  case contains =>
    refine run.byte_iff.mpr ⟨run.back.below, ?_⟩
    exact lt_of_lt_of_le (Nat.lt_add_of_pos_right (by decide)) run.above
  case uniform =>
    intro byte inRun
    have reaches :=
      (run.reaches_iff regionKept contains (and_vmPageMask_mod byte)).mp (run.byte_iff.mp inRun)
    have same := clear.undisturbed _ (and_vmPageMask_mod byte) reaches
    rw [pageView_page aligned] at same
    refine ⟨same.trans view.symm, fun write execute => ?_⟩
    rw [checkAccess_eq_verdict kept aligned, same, view]
  case before =>
    intro page adjacent together views
    have startMod := run.back.whole
    rw [view] at views
    obtain ⟨inside, alike⟩ := lookup_eq_of_view kept aligned (by omega) found together views
    have apart := run.back.stopped page adjacent (contains_iff.mp inside).1
    rw [VmRegion.same, alike, beq_self_eq_true] at apart
    cases apart
  case after =>
    intro page adjacent together views
    have stopMod := run.whole
    have upper := run.above
    rw [view] at views
    obtain ⟨inside, alike⟩ := lookup_eq_of_view kept aligned (by omega) found together views
    have apart := run.stopped page adjacent
    rw [VmRegion.scans, VmRegion.same, alike, beq_self_eq_true, Bool.true_and,
      Bool.or_eq_false_iff] at apart
    have reserved := not_isSome_iff_eq_none.mp (eq_false_iff.mp apart.1)
    have past : ¬ page.toNat < (region.base + region.size).toNat := fun below =>
      eq_false_iff.mp apart.2 (ult_iff_toNat_lt.mpr below)
    have pageInside := contains_iff.mp inside
    rw [toNat_add] at past
    have wraps : 2 ^ 64 ≤ region.base.toNat + region.size.toNat := by
      by_contra fits
      omega
    -- the walk stopped at once
    refine clear.ends wraps reserved page ?_ together views
    by_contra later
    let next : U64 := BitVec.ofNat 64 ((address &&& vmPageMask).toNat + 0x1000)
    have nextAt : next.toNat = (address &&& vmPageMask).toNat + 0x1000 := by
      rw [toNat_ofNat, mod_eq_of_lt (by omega)]
    have scans := run.joined next (by omega) (by omega) (by omega)
    exact absurd scans (VmRegion.not_scans_of_wraps wraps reserved contains (by omega))

theorem QuerySound.clear (sound : QuerySound vm.toVirtualMemory address) :
    ∃ region, QueryClear vm.toVirtualMemory address region := by
  cases found : vm.regionContaining address with
  | none =>
    have nothing : vm.query address = ⟨0, 0, .free, .none, VmRegionKind.private, false⟩ := by
      rw [query, found]
    have contains := sound.contains
    rw [nothing] at contains
    exact absurd contains.2 (not_lt_zero _)
  | some region =>
    obtain ⟨regionKept, -⟩ := regionContaining_kept kept aligned found
    have contains := page_contained kept aligned found
    obtain ⟨run, view⟩ := query_run kept aligned found
    refine ⟨region, found, fun page pageMod reaches => ?_, fun wraps reserved next nextAt together => ?_⟩
    · have inRun := (run.reaches_iff regionKept contains pageMod).mpr reaches
      exact (sound.uniform page inRun).1.trans view
    · have ends : next.toNat = (vm.query address).base.toNat + (vm.query address).regionSize.toNat := by
        have upper := run.above
        have pageMod := and_vmPageMask_mod address
        by_contra later
        have scans := run.joined next (by omega) (by omega) (by omega)
        exact absurd scans (VmRegion.not_scans_of_wraps wraps reserved contains (by omega))
      rw [← view]
      exact sound.after next ends together

end Sound

/-- In every layer that the operations build, a query is sound just for the
addresses of a region whose run no inner region interrupts. -/
theorem query_sound_iff (cursor : U64) (operations : List VmOperation) (address : U64) :
    QuerySound (VmOperation.run (VmSpace.new cursor) operations).toVirtualMemory address ↔
      ∃ region, QueryClear (VmOperation.run (VmSpace.new cursor) operations).toVirtualMemory address region := by
  have kept := VmOperation.run_wellKept (VmSpace.new_wellKept cursor) operations
  have aligned := VmOperation.run_aligned (VmSpace.new_aligned cursor) operations
  exact ⟨fun sound => sound.clear kept aligned, fun ⟨_, clear⟩ => clear.sound kept aligned⟩

end Casa.Vm
