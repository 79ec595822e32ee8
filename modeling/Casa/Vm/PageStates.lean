import Casa.Vm.Pages

/-! What the canonical layer says of each page. Committing, decommitting and
protecting a range walk it page by page; each round changes one entry of the
innermost region, so a whole walk is described page by page. -/
namespace Casa.Vm
open MachineInt VirtualMemory VmSpace OrderedMap Option BitVec

/-- The innermost region over the address, under its key. -/
def VirtualMemory.located (vm : VirtualMemory) (address : U64) : Option (U64 × VmRegion) :=
  (vm.regions.filter fun entry => entry.1.ule address).reverse.find? fun entry =>
    entry.2.contains address

/-- The state that the innermost region over a page keeps for it. -/
def VirtualMemory.pageState (vm : VirtualMemory) (page : U64) : Option VmPageState :=
  (vm.regionContaining page).bind fun region => region.pages.lookup page

def VirtualMemory.covers (vm : VirtualMemory) (address : U64) : Bool :=
  (vm.regionContaining address).isSome

/-! ## One page -/

section Round
variable (vm : VmSpace) (page : U64)

theorem located_modify (key address : U64) (pages : VmRegion → List (U64 × VmPageState)) :
    located
        ⟨modify key (fun region => { region with pages := pages region }) vm.regions⟩ address =
      (vm.located address).map fun entry =>
        if entry.1 = key then (entry.1, { entry.2 with pages := pages entry.2 }) else entry := by
  let step (entry : U64 × VmRegion) : U64 × VmRegion :=
    if entry.1 = key then (entry.1, { entry.2 with pages := pages entry.2 }) else entry
  have keys : (fun entry : U64 × VmRegion => entry.1.ule address) ∘ step = fun entry =>
      entry.1.ule address := by
    funext entry
    by_cases here : entry.1 = key <;> simp [step, here]
  have ranges : (fun entry : U64 × VmRegion => entry.2.contains address) ∘ step =
      fun entry => entry.2.contains address := by
    funext entry
    by_cases here : entry.1 = key <;> simp [step, here, VmRegion.contains]
  change ((vm.regions.map step).filter _).reverse.find? _ = _
  rw [List.filter_map, keys, ← List.map_reverse, List.find?_map, ranges]
  rfl

theorem updateContaining_of_none (update : VmRegion → VmRegion) (absent : vm.located page = none) :
    vm.updateContaining page update = vm := by
  rw [located] at absent
  rw [updateContaining, absent]

theorem updateContaining_of_some (update : VmRegion → VmRegion)
    (found : vm.located page = some entry) :
    vm.updateContaining page update = { vm with regions := modify entry.1 update vm.regions } := by
  rw [located] at found
  rw [updateContaining, found]

theorem located_updateContaining (pages : VmRegion → List (U64 × VmPageState)) (address : U64) :
    (vm.updateContaining page fun region => { region with pages := pages region }).located address =
      (vm.located address).map fun entry =>
        if (vm.located page).map Prod.fst = some entry.1 then (entry.1, { entry.2 with pages := pages entry.2 })
        else entry := by
  cases found : vm.located page with
  | none =>
    rw [updateContaining_of_none vm page _ found]
    simp
  | some entry =>
    rw [updateContaining_of_some vm page _ found]
    refine (located_modify vm entry.1 address pages).trans ?_
    congr 1
    funext other
    simp [eq_comm]

/-- One round leaves every region where it was. -/
theorem regionContaining_updateContaining (pages : VmRegion → List (U64 × VmPageState))
    (shape : VmRegion → β) (ignores : ∀ region pages, shape { region with pages } = shape region)
    (address : U64) :
    ((vm.updateContaining page fun region => { region with pages := pages region }).regionContaining
      address).map shape = (vm.regionContaining address).map shape := by
  change ((located _ address).map _).map shape = ((vm.located address).map _).map shape
  rw [located_updateContaining]
  cases vm.located address with
  | none => rfl
  | some =>
    simp only [map_some]
    split
    · rw [ignores]
    · rfl

/-- One round changes the state of its own page. -/
theorem pageState_updateContaining (pages : List (U64 × VmPageState) → List (U64 × VmPageState))
    (others : ∀ states other, other ≠ page → (pages states).lookup other = states.lookup other)
    (other : U64) :
    (vm.updateContaining page fun region => { region with pages := pages region.pages }).pageState other =
      if other = page then (vm.regionContaining page).bind fun region => (pages region.pages).lookup page
      else vm.pageState other := by
  change ((located _ other).map _).bind _ = _
  rw [located_updateContaining vm page fun region => pages region.pages]
  by_cases here : other = page
  · subst here
    rw [if_pos rfl]
    change _ = ((vm.located other).map Prod.snd).bind _
    cases vm.located other with
    | none => rfl
    | some => simp
  · rw [if_neg here]
    change _ = ((vm.located other).map Prod.snd).bind _
    cases vm.located other with
    | none => rfl
    | some =>
      simp only [map_some]
      split
      · exact others _ _ here
      · rfl

end Round

/-! ## A range of pages -/

theorem forPages_finished (reached : stop.toNat ≤ page.toNat) (rounds : Nat) (state : σ) :
    forPages body stop rounds page state = state := by
  cases rounds with
  | zero => rfl
  | succ rounds =>
    have past : ¬ page.ult stop := fun less => Nat.not_lt.mpr reached (ult_iff_toNat_lt.mp less)
    rw [forPages, if_neg past]

section Walk
variable {body : U64 → σ → σ} (view : σ → U64 → α) (holds : σ → Prop) (effect : U64 → α → α)
  (keeps : ∀ page state, holds state → holds (body page state))
  (round : ∀ page state, holds state → ∀ other,
    view (body page state) other = if other = page then effect page (view state page)
      else view state other)
include keeps round

/-- A walk whose rounds change one page each changes the whole pages of its range. -/
theorem forPages_states (aligned : page.toNat % 0x1000 = 0)
    (enough : stop.toNat ≤ page.toNat + 0x1000 * rounds) (initial : holds state) (other : U64) :
    view (forPages body stop rounds page state) other =
      if other.toNat % 0x1000 = 0 ∧ page.toNat ≤ other.toNat ∧ other.toNat < stop.toNat then
        effect other (view state other)
      else view state other := by
  induction rounds generalizing page state with
  | zero =>
    rw [if_neg (by omega)]
    rfl
  | succ rounds ih =>
    by_cases more : page.toNat < stop.toNat
    · rw [forPages, if_pos (ult_iff_toNat_lt.mpr more)]
      have size : vmPageSize.toNat = 0x1000 := rfl
      rw [saturatingAdd]
      split
      case isTrue fits =>
        have next : (page + vmPageSize).toNat = page.toNat + 0x1000 := by
          rw [toNat_add, size, Nat.mod_eq_of_lt (by omega)]
        rw [ih (by omega) (by omega) (keeps page state initial), round page state initial]
        by_cases here : other = page
        · subst here
          rw [if_neg (by omega), if_pos rfl, if_pos ⟨aligned, le_rfl, more⟩]
        · have apart : other.toNat ≠ page.toNat := fun same => here (eq_of_toNat_eq same)
          rw [if_neg here]
          exact if_congr (by omega) rfl rfl
      case isFalse overflows =>
        -- the last page of the address space: the walk is over after it
        have last : (allOnes 64).toNat = 2 ^ 64 - 1 := toNat_allOnes
        rw [forPages_finished (by omega), round page state initial]
        by_cases here : other = page
        · subst here
          rw [if_pos rfl, if_pos ⟨aligned, le_rfl, more⟩]
        · have apart : other.toNat ≠ page.toNat := fun same => here (eq_of_toNat_eq same)
          rw [if_neg here, if_neg (by omega)]
    · rw [forPages_finished (Nat.le_of_not_lt more), if_neg (by omega)]

/-- The pages that a walk from the page of `base` up to `stop` visits. -/
def Walked (base stop page : U64) : Prop :=
  page.toNat % 0x1000 = 0 ∧ (base &&& vmPageMask).toNat ≤ page.toNat ∧ page.toNat < stop.toNat

instance (base stop page : U64) : Decidable (Walked base stop page) := inferInstanceAs (Decidable (_ ∧ _))

theorem walk_states (initial : holds state) (other : U64) :
    view (forPages body stop (pageRounds (base &&& vmPageMask) stop) (base &&& vmPageMask) state) other =
      if Walked base stop other then effect other (view state other) else view state other := by
  have enough : stop.toNat ≤ (base &&& vmPageMask).toNat + 0x1000 * pageRounds (base &&& vmPageMask) stop := by
    have size : vmPageSize.toNat = 0x1000 := rfl
    rw [pageRounds, size]
    omega
  exact forPages_states view holds effect keeps round (and_vmPageMask_mod base) enough initial other

end Walk

section Ranges
variable (vm : VmSpace) (base size : U64)

theorem updateContaining_covers (page : U64) (pages : VmRegion → List (U64 × VmPageState))
    (address : U64) :
    (vm.updateContaining page fun region => { region with pages := pages region }).covers address =
      vm.covers address := by
  have kept := congrArg isSome
    (regionContaining_updateContaining vm page pages (fun _ => ()) (fun _ _ => rfl) address)
  rwa [isSome_map, isSome_map] at kept

/-- A walk that changes one entry of the innermost region in each round. -/
theorem walk_pageState (space : σ → VmSpace)
    (change : U64 → List (U64 × VmPageState) → List (U64 × VmPageState))
    (effect : Option VmPageState → Option VmPageState)
    (rounds : ∀ page state, space (body page state) = (space state).updateContaining page fun region =>
      { region with pages := change page region.pages })
    (lookups : ∀ page states other, (change page states).lookup other =
      if other = page then effect (states.lookup page) else states.lookup other)
    {base stop : U64} (state : σ) (page : U64) :
    (space (forPages body stop (pageRounds (base &&& vmPageMask) stop) (base &&& vmPageMask) state)).pageState page =
      if Walked base stop page ∧ (space state).covers page then effect ((space state).pageState page)
      else (space state).pageState page := by
  have keeps (page : U64) (now : σ)
      (same : ∀ address, (space now).covers address = (space state).covers address) (address : U64) :
      (space (body page now)).covers address = (space state).covers address := by
    rw [rounds]
    exact (updateContaining_covers (space now) page _ address).trans (same address)
  have round (page : U64) (now : σ)
      (same : ∀ address, (space now).covers address = (space state).covers address) (other : U64) :
      (space (body page now)).pageState other =
        if other = page then
          if (space state).covers page then effect ((space now).pageState page) else (space now).pageState page
        else (space now).pageState other := by
    have others (states : List (U64 × VmPageState)) (other : U64) (apart : other ≠ page) :
        (change page states).lookup other = states.lookup other := by
      rw [lookups, if_neg apart]
    rw [rounds, pageState_updateContaining (space now) page (change page) others]
    by_cases here : other = page
    · subst here
      rw [if_pos rfl, if_pos rfl, ← same, covers, pageState]
      cases (space now).regionContaining other with
      | none => rfl
      | some => simp [lookups]
    · rw [if_neg here, if_neg here]
  refine (walk_states (fun now => (space now).pageState)
    (fun now => ∀ address, (space now).covers address = (space state).covers address)
    (fun page old => if (space state).covers page then effect old else old) keeps round
    (fun _ => rfl) page).trans ?_
  by_cases walked : Walked base stop page
  · simp only [walked, if_true, true_and]
  · rw [if_neg walked, if_neg fun both => walked both.1]

/-- Committing sets every page of the range that some region holds. -/
theorem commit_pageState (protection : VmProtection) (guard : Bool) (page : U64) :
    (vm.commit base size protection guard).pageState page =
      if Walked base (pagesEnd base size) page ∧ vm.covers page then
        some ⟨protection, guard, true⟩
      else vm.pageState page :=
  walk_pageState id (fun page => insert page ⟨protection, guard, true⟩)
    (fun _ => some ⟨protection, guard, true⟩) (fun _ _ => rfl) (fun _ _ => lookup_insert) vm page

/-- Decommitting forgets every page of the range. -/
theorem decommit_pageState (page : U64) :
    (vm.decommit base size).pageState page =
      if Walked base (pagesEnd base size) page ∧ vm.covers page then none
      else vm.pageState page :=
  walk_pageState id erase (fun _ => none) (fun _ _ => rfl) (fun _ _ => lookup_erase) vm page

/-- Protecting changes the protection of every page of its own range. -/
theorem protect_pageState (protection : VmProtection) (page : U64) :
    (vm.protect base size protection).2.pageState page =
      if Walked base (saturatingAdd (base &&& vmPageMask) (pageAlignedSize size)) page ∧ vm.covers page then
        (vm.pageState page).map fun state => { state with protection }
      else vm.pageState page := by
  refine walk_pageState Prod.snd (fun page => modify page fun state => { state with protection })
    (Option.map fun state => { state with protection }) (fun _ _ => rfl) (fun page states other => ?_) (none, vm) page
  rw [lookup_modify]
  by_cases here : other = page
  · rw [if_pos here, if_pos here, here]
  · rw [if_neg here, if_neg here]

end Ranges

/-! ## The page maps that the operations build -/

/-- An entry of a region's page map: a whole page of the region, committed. -/
structure PageKept (region : VmRegion) (entry : U64 × VmPageState) : Prop where
  aligned : entry.1.toNat % 0x1000 = 0
  inside : region.contains entry.1 = true
  committed : entry.2.committed = true

structure VmSpace.WellKept (vm : VmSpace) : Prop where
  ascending : OrderedMap.Ascending vm.regions
  pages : ∀ entry ∈ vm.regions, ∀ page ∈ entry.2.pages, PageKept entry.2 page

/-- Only whole pages are visited, so a fact may be kept on those alone. -/
theorem forPages_preserves_aligned {P : σ → Prop}
    (step : ∀ page state, page.toNat % 0x1000 = 0 → P state → P (body page state)) (rounds : Nat)
    (aligned : page.toNat % 0x1000 = 0) (holds : P state) :
    P (forPages body stop rounds page state) := by
  induction rounds generalizing page state with
  | zero => exact holds
  | succ rounds ih =>
    have now := step page state aligned holds
    rw [forPages]
    split
    case isFalse => exact holds
    case isTrue =>
      rw [saturatingAdd]
      split
      case isTrue fits =>
        have size : vmPageSize.toNat = 0x1000 := rfl
        have next : (page + vmPageSize).toNat % 0x1000 = 0 := by
          rw [toNat_add]
          omega
        exact ih next now
      case isFalse =>
        have last : (allOnes 64).toNat = 2 ^ 64 - 1 := toNat_allOnes
        rw [forPages_finished (by omega)]
        exact now

namespace VmSpace
variable {vm : VmSpace}

theorem located_mem (found : vm.located address = some entry) :
    entry ∈ vm.regions ∧ entry.2.contains address := by
  have contains := List.find?_some found
  exact ⟨List.mem_of_mem_filter (List.mem_reverse.mp (List.mem_of_find?_eq_some found)), contains⟩

section
variable (kept : vm.WellKept)
include kept

theorem updateContaining_wellKept {pages : List (U64 × VmPageState) → List (U64 × VmPageState)}
    (change : ∀ region : VmRegion, region.contains page → (∀ entry ∈ region.pages, PageKept region entry) → ∀ entry ∈ pages region.pages, PageKept region entry) :
    (vm.updateContaining page fun region => { region with pages := pages region.pages }).WellKept := by
  cases found : vm.located page with
  | none =>
    rw [updateContaining_of_none vm page _ found]
    exact kept
  | some located =>
    rw [updateContaining_of_some vm page _ found]
    obtain ⟨present, contains⟩ := located_mem found
    refine ⟨?_, ?_⟩ <;> dsimp only
    · exact modify_ascending kept.ascending
    intro entry member
    obtain ⟨before, inside, sameKey, same | ⟨atKey, updated⟩⟩ := mem_modify member
    · rw [same]
      exact kept.pages before inside
    · -- the keys are distinct: the entry is the located one
      obtain rfl := kept.ascending.eq_of_key inside present atKey
      rw [updated]
      intro state changed
      have old := change before.2 contains (kept.pages before inside) state changed
      exact ⟨old.aligned, old.inside, old.committed⟩

theorem insertRegion_wellKept (base size : U64) (kind : VmRegionKind) :
    (vm.insertRegion base size kind).WellKept where
  ascending := insert_ascending kept.ascending
  pages := insertRegion_forall kept.pages fun _ member => absurd member List.not_mem_nil

theorem reserve_wellKept (base : Option U64) (size : U64) : (vm.reserve base size).2.WellKept := by
  cases base with
  | some =>
    rw [reserve]
    split
    · exact kept
    · exact insertRegion_wellKept kept _ _ _
  | none =>
    rw [reserve]
    split
    · exact kept
    case h_2 stop fits =>
      have moved : WellKept { vm with nextRegionAddress := stop } := ⟨kept.ascending, kept.pages⟩
      exact insertRegion_wellKept moved _ _ _

omit kept in
theorem PageKept.of_grown (kept : PageKept region entry) (grows : region.size.toNat ≤ size.toNat) :
    PageKept { region with size } entry := by
  have inside := VmRegion.contains_iff.mp kept.inside
  refine ⟨kept.aligned, VmRegion.contains_iff.mpr ⟨inside.1, ?_⟩, kept.committed⟩
  exact Nat.lt_of_lt_of_le inside.2 (Nat.add_le_add_left grows _)

theorem register_wellKept (base size : U64) (kind : VmRegionKind) :
    (vm.register base size kind).2.WellKept := by
  rw [register]
  split
  case h_1 =>
    refine ⟨?_, ?_⟩ <;> dsimp only
    · exact modify_ascending kept.ascending
    refine modify_forall kept.pages fun region old => ?_
    split
    case isTrue grows =>
      intro page member
      exact PageKept.of_grown (old page member) (Nat.le_of_lt (ult_iff_toNat_lt.mp grows))
    case isFalse => exact old
  case h_2 =>
    split
    · exact kept
    · split
      · exact kept
      · exact insertRegion_wellKept kept _ _ _

theorem commit_wellKept (base size : U64) (protection : VmProtection) (guard : Bool) :
    (vm.commit base size protection guard).WellKept := by
  refine forPages_preserves_aligned (fun page vm aligned now => ?_) _ (and_vmPageMask_mod base) kept
  refine updateContaining_wellKept now fun region contains old entry member => ?_
  rcases mem_insert member with rfl | earlier
  · exact ⟨aligned, contains, rfl⟩
  · exact old entry earlier

theorem decommit_wellKept (base size : U64) : (vm.decommit base size).WellKept := by
  refine forPages_preserves_aligned (fun page vm _ now => ?_) _ (and_vmPageMask_mod base) kept
  exact updateContaining_wellKept now fun _ _ old entry member =>
    old entry (mem_of_mem_erase member)

theorem protect_wellKept (base size : U64) (protection : VmProtection) :
    (vm.protect base size protection).2.WellKept := by
  refine forPages_preserves_aligned
    (P := fun state : Option VmProtection × VmSpace => state.2.WellKept)
    (fun page state _ now => ?_) _ (and_vmPageMask_mod base) kept
  refine updateContaining_wellKept now fun region _ old entry member => ?_
  obtain ⟨before, inside, sameKey, change⟩ := mem_modify member
  have earlier := old before inside
  refine ⟨sameKey ▸ earlier.aligned, sameKey ▸ earlier.inside, ?_⟩
  rcases change with same | ⟨-, updated⟩
  · exact same ▸ earlier.committed
  · exact updated ▸ earlier.committed

end

theorem new_wellKept (cursor : U64) : (new cursor).WellKept where
  ascending := List.Pairwise.nil
  pages := fun _ member => absurd member List.not_mem_nil

end VmSpace

theorem VmOperation.run_wellKept (kept : vm.WellKept) (operations : List VmOperation) :
    (VmOperation.run vm operations).WellKept := by
  induction operations generalizing vm with
  | nil => exact kept
  | cons operation rest ih =>
    refine ih ?_
    cases operation with
    | reserve base size => exact reserve_wellKept kept base size
    | register base size kind => exact register_wellKept kept base size kind
    | commit base size protection guard => exact commit_wellKept kept base size protection guard
    | decommit base size => exact decommit_wellKept kept base size
    | protect base size protection => exact protect_wellKept kept base size protection
    | release base => exact ⟨erase_ascending kept.ascending _, release_forall kept.pages base⟩

/-- Every state that a page has is that of a committed page. -/
theorem VmSpace.WellKept.pageState_committed {vm : VmSpace} (kept : vm.WellKept)
    (found : vm.pageState page = some state) : state.committed := by
  change ((vm.located page).map Prod.snd).bind _ = _ at found
  cases located : vm.located page with
  | none => simp [located] at found
  | some entry =>
    rw [located] at found
    have member : (page, state) ∈ entry.2.pages := mem_of_lookup found
    exact (kept.pages entry (located_mem located).1 (page, state) member).committed

section Lookups
variable {vm : VmSpace}

theorem covers_of_contains (aligned : vm.Aligned) (member : entry ∈ vm.regions)
    (inside : entry.2.contains address) : vm.covers address := by
  have keyed : entry.1.ule address := by
    rw [ule_iff_toNat_le, ← (aligned entry member).keyed]
    exact (VmRegion.contains_iff.mp inside).1
  rw [covers, regionContaining, isSome_map, List.find?_isSome]
  exact ⟨entry, List.mem_reverse.mpr (List.mem_filter.mpr ⟨member, keyed⟩), inside⟩

theorem regionContaining_mem (found : vm.regionContaining address = some region) :
    ∃ key, (key, region) ∈ vm.regions ∧ region.contains address := by
  obtain ⟨entry, located, rfl⟩ := map_eq_some_iff.mp found
  obtain ⟨member, contains⟩ := located_mem located
  exact ⟨entry.1, member, contains⟩

theorem covers_of_pageState (found : vm.pageState page = some state) : vm.covers page := by
  obtain ⟨region, located, -⟩ := bind_eq_some_iff.mp found
  rw [covers, located]
  rfl

end Lookups

def lastPage : U64 := 0xfffffffffffff000

end Casa.Vm
