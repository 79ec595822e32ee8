import Casa.Vm.PageStates

/-! The pages of a byte range. A commit is granted by one rounding of the range,
carried out by a second and protected by a third; they differ in the page that an
unaligned range spills into, in sizes that round past a word and in the last page
of the address space. -/
namespace Casa.Vm
open MachineInt VmSpace
open BitVec (eq_of_toNat_eq)

def VmSpace.regionSize (vm : VmSpace) (base : U64) : Option U64 :=
  (vm.regions.lookup (base &&& vmPageMask)).map (·.size)

/-- The rounded range lies inside one private region. -/
def VmSpace.canCommit (vm : VmSpace) (base size : U64) : Bool :=
  let start := base &&& vmPageMask
  match checkedAdd start (pageAlignedSize size) with
  | none => false
  | some stop =>
    match vm.regionContaining start with
    | none => false
    | some region => region.kind == VmRegionKind.private && stop.ule (region.base + region.size)

def Intersects (base size page : U64) : Prop :=
  ∃ address : U64, address &&& vmPageMask = page ∧ base.toNat ≤ address.toNat ∧
    address.toNat < base.toNat + size.toNat

open Classical in
/-- What a granted commit and a protection must do, page by page. -/
structure RangeExact (vm : VmSpace) (base size : U64) : Prop where
  commits : vm.canCommit base size = true → ∀ protection guard page, Intersects base size page →
    (vm.commit base size protection guard).pageState page = some ⟨protection, guard, true⟩
  protects : ∀ protection page, page.toNat % 0x1000 = 0 →
    (vm.protect base size protection).2.pageState page = (vm.pageState page).map fun state =>
      if Intersects base size page ∧ state.committed = true then { state with protection } else state

/-- Beyond its rounded size the range meets no committed page, and where the
commit is granted only pages that it reaches; an empty range starts on a page
that is not committed. -/
structure RangeSafe (vm : VmSpace) (base size : U64) : Prop where
  spill : ∀ page, Intersects base size page →
    (base &&& vmPageMask).toNat + (pageAlignedSize size).toNat ≤ page.toNat →
      vm.pageState page = none ∧ (vm.canCommit base size = true → vm.covers page = true ∧ page ≠ lastPage)
  empty : size = 0 → vm.pageState (base &&& vmPageMask) = none

/-! ## The roundings as numbers -/

theorem pageAlignedSize_toNat :
    (pageAlignedSize size).toNat = (max size.toNat 1 + 0xfff) % 2 ^ 64 / 0x1000 * 0x1000 := by
  have masked (value : U64) :
      (alignUp value vmPageSize).toNat = (value.toNat + 0xfff) % 2 ^ 64 / 0x1000 * 0x1000 := by
    rw [alignUp, show ~~~(vmPageSize - 1) = vmPageMask from rfl, and_vmPageMask_toNat]
    rfl
  rw [pageAlignedSize]
  split
  case isTrue zero =>
    subst zero
    exact masked 1
  case isFalse positive =>
    have atLeast : size.toNat ≠ 0 := fun zero => positive (eq_of_toNat_eq zero)
    rw [masked, Nat.max_eq_left (by omega)]

theorem pagesEnd_toNat : (pagesEnd base size).toNat =
      min (base.toNat + max size.toNat 1 + 0xfff) (2 ^ 64 - 1) / 0x1000 * 0x1000 := by
  have atLeast : (if size = 0 then 1 else size : U64).toNat = max size.toNat 1 := by
    split
    case isTrue zero =>
      subst zero
      rfl
    case isFalse positive =>
      have atLeast : size.toNat ≠ 0 := fun zero => positive (eq_of_toNat_eq zero)
      rw [Nat.max_eq_left (by omega)]
  rw [pagesEnd, and_vmPageMask_toNat, saturatingAdd_toNat, saturatingAdd_toNat, atLeast,
    show (vmPageSize - 1).toNat = 0xfff from rfl]
  have once : min (min (base.toNat + max size.toNat 1) (2 ^ 64 - 1) + 0xfff) (2 ^ 64 - 1) =
      min (base.toNat + max size.toNat 1 + 0xfff) (2 ^ 64 - 1) := by omega
  rw [once]

theorem intersects_iff :
    Intersects base size page ↔ page.toNat % 0x1000 = 0 ∧ (base &&& vmPageMask).toNat ≤ page.toNat ∧
      page.toNat < base.toNat + size.toNat ∧ size ≠ 0 := by
  have start := and_vmPageMask_toNat base
  have positive : size ≠ 0 ↔ size.toNat ≠ 0 :=
    ⟨fun some zero => some (eq_of_toNat_eq zero), fun some zero => some (zero ▸ rfl)⟩
  rw [positive]
  constructor
  · rintro ⟨address, rfl, after, before⟩
    have page := and_vmPageMask_toNat address
    omega
  · rintro ⟨aligned, after, before, some⟩
    -- the later of the two starts lies in both
    refine ⟨if base.toNat ≤ page.toNat then page else base, ?_, ?_⟩
    · apply eq_of_toNat_eq
      rw [and_vmPageMask_toNat]
      split <;> omega
    · split <;> omega

theorem walked_commit (some : size ≠ 0) :
    Walked base (pagesEnd base size) page ↔ Intersects base size page ∧ page ≠ lastPage := by
  have positive : size.toNat ≠ 0 := fun zero => some (eq_of_toNat_eq zero)
  have last : page ≠ lastPage ↔ page.toNat ≠ 2 ^ 64 - 0x1000 :=
    ⟨fun other same => other (eq_of_toNat_eq same), fun other same => other (same ▸ rfl)⟩
  rw [Walked, intersects_iff, pagesEnd_toNat, last]
  have notZero : size ≠ 0 := some
  simp only [notZero, not_false_eq_true, and_true, ne_eq]
  omega

theorem walked_protect :
    Walked base (saturatingAdd (base &&& vmPageMask) (pageAlignedSize size)) page ↔
      page.toNat % 0x1000 = 0 ∧ (base &&& vmPageMask).toNat ≤ page.toNat ∧
        page.toNat < (base &&& vmPageMask).toNat + (pageAlignedSize size).toNat := by
  rw [Walked, saturatingAdd_toNat]
  omega

/-- The rounded size never reaches a page that a nonempty range does not meet. -/
theorem intersects_of_walked_protect (some : size ≠ 0)
    (walked : Walked base (saturatingAdd (base &&& vmPageMask) (pageAlignedSize size)) page) :
    Intersects base size page := by
  obtain ⟨aligned, after, before⟩ := walked_protect.mp walked
  have positive : size.toNat ≠ 0 := fun zero => some (eq_of_toNat_eq zero)
  have start := and_vmPageMask_toNat base
  rw [pageAlignedSize_toNat] at before
  refine intersects_iff.mpr ⟨aligned, after, ?_, some⟩
  omega

/-! ## What a grant covers -/

section Reachable
variable {vm : VmSpace}

theorem canCommit_inside (granted : vm.canCommit base size) :
    (base &&& vmPageMask).toNat + (pageAlignedSize size).toNat < 2 ^ 64 := by
  rw [canCommit] at granted
  split at granted
  · cases granted
  case h_2 stop fits => exact (checkedAdd_eq_some fits).1

/-- A granted range lies in one region, and before the last page. -/
theorem canCommit_covers (aligned : vm.Aligned) (granted : vm.canCommit base size)
    (after : (base &&& vmPageMask).toNat ≤ page.toNat)
    (before : page.toNat < (base &&& vmPageMask).toNat + (pageAlignedSize size).toNat) :
    vm.covers page ∧ page ≠ lastPage := by
  rw [canCommit] at granted
  split at granted
  · cases granted
  case h_2 stop fits =>
    obtain ⟨inside, stopAt⟩ := checkedAdd_eq_some fits
    split at granted
    · cases granted
    case h_2 region found =>
      obtain ⟨key, member, contains⟩ := regionContaining_mem found
      obtain ⟨regionStart, -⟩ := VmRegion.contains_iff.mp contains
      have reach := BitVec.ule_iff_toNat_le.mp (Bool.and_eq_true_iff.mp granted).2
      -- a region that wraps ends before it starts, so it grants nothing
      have regionEnd : (region.base + region.size).toNat ≤ region.base.toNat + region.size.toNat := by
        exact Nat.mod_le _ _
      have startMod := and_vmPageMask_mod base
      have sizeMod := pageAlignedSize_mod size
      refine ⟨covers_of_contains aligned member (VmRegion.contains_iff.mpr ⟨?_, ?_⟩), ?_⟩
      · exact Nat.le_trans regionStart after
      · change page.toNat < region.base.toNat + region.size.toNat
        omega
      · rintro rfl
        have last : lastPage.toNat = 2 ^ 64 - 0x1000 := rfl
        omega

end Reachable

/-! ## Commit and protect over one range -/

/-- A range that starts in the middle of a page: the page it spills into is
outside the region that grants the commit, or committed and left unprotected. -/
theorem commit_range_spills :
    ¬ RangeExact (VmOperation.run (VmSpace.new 0x20000) [.reserve none 0x1000]) 0x20800 0x1000 ∧
    ¬ RangeExact (VmOperation.run (VmSpace.new 0x20000)
        [.reserve none 0x2000, .commit 0x20800 0x1000 ⟨true, true, false⟩ false]) 0x20800 0x1000 := by
  have spills : Intersects 0x20800 0x1000 0x21000 := ⟨0x21000, by decide, by decide, by decide⟩
  refine ⟨fun exact => ?_, fun exact => ?_⟩
  · exact absurd (exact.commits (by decide) ⟨true, true, false⟩ false 0x21000 spills) (by decide)
  · have changed := exact.protects ⟨true, false, false⟩ 0x21000 (by decide)
    have before : (VmOperation.run (VmSpace.new 0x20000)
        [.reserve none 0x2000, .commit 0x20800 0x1000 ⟨true, true, false⟩ false]).pageState 0x21000 =
          some ⟨⟨true, true, false⟩, false, true⟩ := by decide
    rw [before, Option.map_some, if_pos ⟨spills, rfl⟩] at changed
    exact absurd changed (by decide)

section Exact
variable {vm : VmSpace} (kept : vm.WellKept)

include kept

theorem RangeSafe.exact (aligned : vm.Aligned) (safe : RangeSafe vm base size) :
    RangeExact vm base size where
  commits := by
    intro granted protection guard page meets
    obtain ⟨-, after, -, nonempty⟩ := intersects_iff.mp meets
    have reached : vm.covers page ∧ page ≠ lastPage := by
      rcases Nat.lt_or_ge page.toNat ((base &&& vmPageMask).toNat + (pageAlignedSize size).toNat) with rounded | spilled
      · exact canCommit_covers aligned granted after rounded
      · exact (safe.spill page meets spilled).2 granted
    rw [commit_pageState, if_pos ⟨(walked_commit nonempty).mpr ⟨meets, reached.2⟩, reached.1⟩]
  protects := by
    intro protection page whole
    rw [protect_pageState]
    cases found : vm.pageState page with
    | none => simp
    | some =>
      have committed := kept.pageState_committed found
      have covered := covers_of_pageState found
      by_cases walked : Walked base (saturatingAdd (base &&& vmPageMask) (pageAlignedSize size)) page
      · have nonempty : size ≠ 0 := by
          intro zero
          have bounds := walked_protect.mp walked
          have start := and_vmPageMask_mod base
          rw [zero, show (pageAlignedSize 0).toNat = 0x1000 from rfl] at bounds
          have same : base &&& vmPageMask = page := eq_of_toNat_eq (by omega)
          have absent := safe.empty zero
          rw [same, found] at absent
          cases absent
        rw [if_pos ⟨walked, covered⟩, Option.map_some, Option.map_some,
          if_pos ⟨intersects_of_walked_protect nonempty walked, committed⟩]
      · have missed : ¬ Intersects base size page := by
          intro meets
          have after := (intersects_iff.mp meets).2.1
          rcases Nat.lt_or_ge page.toNat ((base &&& vmPageMask).toNat + (pageAlignedSize size).toNat) with
            rounded | spilled
          · exact walked (walked_protect.mpr ⟨whole, after, rounded⟩)
          · have absent := (safe.spill page meets spilled).1
            rw [found] at absent
            cases absent
        rw [if_neg fun both => walked both.1, Option.map_some, if_neg fun both => missed both.1]

/-- A protection other than the page's own tells whether a call has changed it. -/
theorem RangeExact.changes_iff (exact : RangeExact vm base size)
    (found : vm.pageState page = some state) (whole : page.toNat % 0x1000 = 0) :
    Walked base (saturatingAdd (base &&& vmPageMask) (pageAlignedSize size)) page ↔
      Intersects base size page := by
  have committed := kept.pageState_committed found
  let other : VmProtection := { state.protection with read := !state.protection.read }
  have differs : ({ state with protection := other } : VmPageState) ≠ state := by
    intro same
    have read := congrArg (fun state : VmPageState => state.protection.read) same
    exact Bool.not_ne_self _ read
  have changed := exact.protects other page whole
  rw [protect_pageState, found, Option.map_some, Option.map_some] at changed
  constructor
  · intro walked
    by_contra missed
    rw [if_pos ⟨walked, covers_of_pageState found⟩, if_neg fun both => missed both.1] at changed
    exact differs (Option.some.inj changed)
  · intro meets
    by_contra missed
    rw [if_neg fun both => missed both.1, if_pos ⟨meets, committed⟩] at changed
    exact differs (Option.some.inj changed).symm

theorem RangeExact.safe (exact : RangeExact vm base size) : RangeSafe vm base size where
  spill := by
    intro page meets beyond
    have absent : vm.pageState page = none := by
      cases found : vm.pageState page with
      | none => rfl
      | some =>
        have walked := (exact.changes_iff kept found (intersects_iff.mp meets).1).mpr meets
        have bounds := walked_protect.mp walked
        omega
    refine ⟨absent, fun granted => ?_⟩
    have nonempty := (intersects_iff.mp meets).2.2.2
    have done := exact.commits granted ⟨true, false, false⟩ false page meets
    rw [commit_pageState] at done
    split at done
    case isTrue both => exact ⟨both.2, ((walked_commit nonempty).mp both.1).2⟩
    case isFalse =>
      rw [absent] at done
      cases done
  empty := by
    rintro rfl
    cases found : vm.pageState (base &&& vmPageMask) with
    | none => rfl
    | some =>
      have whole := and_vmPageMask_mod base
      have walked := walked_protect.mpr ⟨whole, le_rfl, Nat.lt_add_of_pos_right (n := (base &&& vmPageMask).toNat)
        (k := (pageAlignedSize 0).toNat) (by decide)⟩
      have meets := (exact.changes_iff kept found whole).mp walked
      exact absurd rfl (intersects_iff.mp meets).2.2.2

end Exact

/-- Over any layer that the operations build, granted commits and protections are
exact for a range just when nothing lies beyond its rounded size. -/
theorem commit_and_protect_exact_iff (cursor : U64) (operations : List VmOperation)
    (base size : U64) :
    RangeExact (VmOperation.run (VmSpace.new cursor) operations) base size ↔
      RangeSafe (VmOperation.run (VmSpace.new cursor) operations) base size := by
  have kept := VmOperation.run_wellKept (VmSpace.new_wellKept cursor) operations
  have aligned := VmOperation.run_aligned (VmSpace.new_aligned cursor) operations
  exact ⟨fun exact => exact.safe kept, fun safe => safe.exact kept aligned⟩

end Casa.Vm
