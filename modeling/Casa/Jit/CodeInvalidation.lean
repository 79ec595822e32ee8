import Casa.Jit.CodeCache

/-! What a drain of the dirty pages leaves in the two caches, in every state that the
operations reach. -/
namespace Casa.Jit
open MachineInt OrderedMap ProbeTable
open List (mem_map mem_singleton not_mem_nil mem_cons mem_cons_self Pairwise)
open Option (bind_eq_some_iff map_eq_some_iff)
open BitVec (ofNat toNat toNat_add toNat_inj toNat_ofNat)

/-! ## Pages -/

theorem pageOf_toNat : (pageOf address).toNat = address.toNat / 0x1000 * 0x1000 :=
  toNat_and_highBits address 12

theorem pageOf_pageOf : pageOf (pageOf address) = pageOf address := by
  rw [← toNat_inj, pageOf_toNat, pageOf_toNat]
  omega

/-- A page and the mark that the ring keeps for it. -/
theorem mark_ne_zero (aligned : pageOf page = page) : page + 1 ≠ 0 := by
  intro zero
  have last : page = BitVec.allOnes 64 :=
    (BitVec.add_sub_cancel page 1).symm.trans (congrArg (· - 1) zero)
  rw [last] at aligned
  exact absurd aligned (by decide)

theorem mem_pagesBetween (aligned : pageOf first = first)
    (member : page ∈ pagesBetween first last) : pageOf page = page := by
  obtain ⟨index, place⟩ : ∃ index, first + ofNat 64 (0x1000 * index) = page := by
    rw [pagesBetween, mem_map] at member
    exact member.imp fun _ => And.right
  have start := congrArg toNat aligned
  rw [pageOf_toNat] at start
  have left : 0x1000 ∣ first.toNat := ⟨first.toNat / 0x1000, by omega⟩
  have right : 0x1000 ∣ 0x1000 * index % 2 ^ 64 :=
    (Nat.dvd_mod_iff (by decide)).mpr (Nat.dvd_mul_right _ _)
  rw [← place, ← toNat_inj, pageOf_toNat]
  exact Nat.div_mul_cancel ((Nat.dvd_mod_iff (by decide)).mpr (Nat.dvd_add left right))

theorem mem_pagesBetween_of_le (alignedFirst : pageOf first = first)
    (alignedPage : pageOf page = page) (above : first.toNat ≤ page.toNat)
    (below : page.toNat ≤ last.toNat) : page ∈ pagesBetween first last := by
  have start := congrArg toNat alignedFirst
  have place := congrArg toNat alignedPage
  rw [pageOf_toNat] at start place
  have ordered : first ≤ last := by
    rw [BitVec.le_def]
    omega
  rw [pagesBetween, mem_map]
  refine ⟨(page.toNat - first.toNat) / 0x1000, List.mem_range.mpr ?_, ?_⟩
  · rw [BitVec.toNat_sub_of_le ordered]
    omega
  · rw [← toNat_inj, toNat_add, toNat_ofNat]
    omega

/-! ## The ring -/

namespace SmcState

/-- Unless it has overflowed, the ring has the marked pages. -/
structure Records (smc : SmcState) (marked : List U64) : Prop where
  aligned : ∀ page ∈ marked, pageOf page = page
  ring : smc.dirtyOverflow = false →
    smc.dirtyCount = marked.length ∧ marked.length ≤ smcDirtySlots ∧
      (List.range marked.length).map smc.dirty = marked.map (· + 1)

variable {smc : SmcState}

theorem Records.takeDirty (records : smc.Records marked) (fits : smc.dirtyOverflow = false) :
    smc.takeDirty.1 = marked := by
  obtain ⟨count, bound, ring⟩ := records.ring fits
  have kept : ∀ page ∈ marked, decide (page + 1 ≠ 0) := fun page member =>
    decide_eq_true (mark_ne_zero (records.aligned page member))
  have back : ∀ page ∈ marked, pageOf (page + 1 - 1) = page := fun page member => by
    rw [BitVec.add_sub_cancel]
    exact records.aligned page member
  simp only [SmcState.takeDirty]
  rw [count, Nat.min_eq_left bound, ring, List.filter_map, List.map_map]
  have all : marked.filter ((fun value => decide (value ≠ 0)) ∘ (· + 1)) = marked :=
    List.filter_eq_self.mpr kept
  rw [all]
  exact (List.map_congr_left back).trans (List.map_id _)

theorem Records.markDirty (records : smc.Records marked) (aligned : pageOf page = page) :
    (smc.markDirty page).Records (marked ++ [page]) := by
  refine ⟨fun other member => ?_, fun fits => ?_⟩
  · rcases List.mem_append.mp member with old | new
    · exact records.aligned other old
    · rw [mem_singleton.mp new]
      exact aligned
  · rw [SmcState.markDirty] at fits ⊢
    by_cases room : smc.dirtyCount < smcDirtySlots
    · rw [if_pos room] at fits ⊢
      obtain ⟨count, bound, ring⟩ := records.ring fits
      rw [count] at room ⊢
      have small : marked.length + 1 ≤ smcDirtySlots := room
      refine ⟨?_, ?_, ?_⟩
      · rw [List.length_append]
        exact Nat.mod_eq_of_lt (small.trans_lt (by decide))
      · rw [List.length_append]
        exact small
      · rw [List.length_append, List.length_singleton, List.range_succ, List.map_append, List.map_append, ← ring]
        congr 1
        · refine List.map_congr_left fun index member => ?_
          have inside := List.mem_range.mp member
          exact Function.update_of_ne (Nat.ne_of_lt inside) _ _
        · exact congrArg (fun value => [value]) (Function.update_self _ _ _)
    · rw [if_neg room] at fits
      cases fits

theorem Records.rebuildWatch (records : smc.Records marked) :
    (smc.rebuildWatch pages).Records marked := ⟨records.aligned, records.ring⟩

/-- The watch finds every page it was built from. -/
def Watches (smc : SmcState) (pages : List U64) : Prop :=
  ∀ page ∈ pages, pageOf page = page → smc.isWatched page = true ∧
    ¬ (smc.watchedCount = 0 ∧ smc.watchOverflow = false)

/-- What is placed already is found at the end, and what is still to come is placed, unless
the table is full. -/
theorem watchPages_finds (fits : (watchPages slots count pages).2.2 = false) :
    count + pages.length = (watchPages slots count pages).2.1 ∧
    (∀ page, find 0 smcWatchSlots (page + 1) slots smcWatchSlots (slot page) →
      find 0 smcWatchSlots (page + 1) (watchPages slots count pages).1 smcWatchSlots (slot page)) ∧
    ∀ page ∈ pages, pageOf page = page →
      find 0 smcWatchSlots (page + 1) (watchPages slots count pages).1 smcWatchSlots (slot page) := by
  induction pages generalizing slots count with
  | nil => exact ⟨rfl, fun _ => id, fun _ member => absurd member not_mem_nil⟩
  | cons first rest ih =>
    rw [watchPages] at fits ⊢
    cases placed : place 0 smcWatchSlots (first + 1) slots smcWatchSlots (slot first) with
    | none =>
      rw [placed] at fits
      cases fits
    | some =>
      rw [placed] at fits
      obtain ⟨counted, kept, found⟩ := ih fits
      obtain ⟨index, free, rfl⟩ := place_slot placed
      refine ⟨?_, fun page earlier => kept page (find_update _ free earlier), fun page member aligned => ?_⟩
      · rw [← counted, List.length_cons]
        omega
      · rcases mem_cons.mp member with rfl | inRest
        · exact kept page (find_place (mark_ne_zero aligned) placed)
        · exact found page inRest aligned

theorem rebuildWatch_watches (smc : SmcState) : (smc.rebuildWatch pages).Watches pages := by
  intro page member aligned
  cases full : (watchPages (fun _ => 0) 0 pages).2.2 with
  | true =>
    have overflow : (smc.rebuildWatch pages).watchOverflow := full
    rw [isWatched, overflow]
    exact ⟨rfl, fun both => Bool.false_ne_true both.2.symm⟩
  | false =>
    obtain ⟨counted, -, found⟩ := watchPages_finds full
    have count : (smc.rebuildWatch pages).watchedCount = 0 + pages.length := counted.symm
    refine ⟨Bool.or_eq_true_iff.mpr (.inr (found page member aligned)), fun both => ?_⟩
    have nonempty := List.length_pos_of_mem member
    omega

theorem markDirty_watch (smc : SmcState) : (smc.markDirty page).watched = smc.watched ∧
    (smc.markDirty page).watchOverflow = smc.watchOverflow ∧
      (smc.markDirty page).watchedCount = smc.watchedCount := by
  rw [SmcState.markDirty]
  split <;> exact ⟨rfl, rfl, rfl⟩

theorem Watches.markDirty (watches : smc.Watches pages) : (smc.markDirty page).Watches pages := by
  intro other member aligned
  obtain ⟨slots, overflow, count⟩ := markDirty_watch smc
  rw [isWatched, slots, overflow, count]
  exact watches other member aligned

theorem records_taken : smc.takeDirty.2.2.Records [] :=
  ⟨fun _ member => absurd member not_mem_nil, fun _ => ⟨rfl, Nat.zero_le _, rfl⟩⟩

/-- A slot keeps what it had, or holds the key of a page. -/
theorem watchPages_keys : (watchPages slots count pages).1 index = slots index ∨
    ∃ page ∈ pages, (watchPages slots count pages).1 index = page + 1 := by
  induction pages generalizing slots count with
  | nil => exact .inl rfl
  | cons first rest ih =>
    rw [watchPages]
    cases placed : place 0 smcWatchSlots (first + 1) slots smcWatchSlots (slot first) with
    | none => exact .inl rfl
    | some =>
      obtain ⟨free, -, rfl⟩ := place_slot placed
      rcases @ih (Function.update slots free (first + 1)) (count + 1) with old | ⟨page, member, same⟩
      · by_cases here : index = free
        · exact .inr ⟨first, mem_cons_self, by simpa [here] using old⟩
        · exact .inl (by simpa [here] using old)
      · exact .inr ⟨page, List.mem_cons_of_mem _ member, same⟩

end SmcState

/-! ## Calls of the tracker -/

inductive SmcCall where
  | rebuildWatch (pages : List U64)
  | markDirty (page : U64)
  | takeDirty

/-- The addresses of a call are those of pages. -/
def SmcCall.paged : SmcCall → Bool
  | rebuildWatch pages => pages.all fun page => pageOf page == page
  | markDirty page => pageOf page == page
  | takeDirty => true

/-- The tracker, the last watch set and the pages marked since the last take. -/
structure SmcTrace where
  smc : SmcState
  watch : List U64
  marked : List U64

namespace SmcTrace

def new : SmcTrace := ⟨.new, [], []⟩

def step (t : SmcTrace) : SmcCall → SmcTrace
  | .rebuildWatch pages => { t with smc := t.smc.rebuildWatch pages, watch := pages }
  | .markDirty page => { t with smc := t.smc.markDirty page, marked := t.marked ++ [page] }
  | .takeDirty => { t with smc := t.smc.takeDirty.2.2, marked := [] }

/-- The watch answers for its pages, alone unless it has overflowed, and no marked page is lost. -/
structure Complete (t : SmcTrace) : Prop where
  watched : ∀ page ∈ t.watch, t.smc.isWatched page = true
  alone : t.smc.watchOverflow = false → ∀ page, t.smc.isWatched page = true → page ∈ t.watch
  taken : ∀ page ∈ t.marked, page ∈ t.smc.takeDirty.1 ∨ t.smc.takeDirty.2.1 = true

structure Kept (t : SmcTrace) : Prop where
  records : t.smc.Records t.marked
  watches : t.smc.Watches t.watch
  aligned : ∀ page ∈ t.watch, pageOf page = page
  keys : ∀ index, t.smc.watched index ≠ 0 → ∃ page ∈ t.watch, t.smc.watched index = page + 1

theorem Kept.step (kept : Kept t) (paged : call.paged) : Kept (t.step call) := by
  cases call with
  | rebuildWatch pages =>
    have aligned : ∀ page ∈ pages, pageOf page = page := by simpa [SmcCall.paged] using paged
    exact ⟨kept.records.rebuildWatch, SmcState.rebuildWatch_watches _, aligned, fun index taken =>
      (SmcState.watchPages_keys).resolve_left taken⟩
  | markDirty =>
    have keys := kept.keys
    rw [← (SmcState.markDirty_watch t.smc).1] at keys
    exact ⟨kept.records.markDirty (beq_iff_eq.mp paged), kept.watches.markDirty, kept.aligned, keys⟩
  | takeDirty => exact ⟨SmcState.records_taken, kept.watches, kept.aligned, kept.keys⟩

theorem Kept.complete (kept : Kept t) : Complete t where
  watched page member := (kept.watches page member (kept.aligned page member)).1
  alone fits page found := by
    rw [SmcState.isWatched, fits] at found
    obtain ⟨slot, taken, key⟩ := mem_of_find found
    obtain ⟨other, member, same⟩ := kept.keys slot taken
    rwa [(BitVec.add_left_inj 1).mp (key.symm.trans same)]
  taken page member := by
    cases overflow : t.smc.dirtyOverflow with
    | true => exact .inr overflow
    | false =>
      rw [kept.records.takeDirty overflow]
      exact .inl member

/-- After any calls for pages. -/
theorem pages_tracked (calls : List SmcCall) (paged : ∀ call ∈ calls, call.paged = true) :
    (calls.foldl step new).Complete := by
  have start : Kept new := ⟨⟨by simp [new], fun _ => ⟨rfl, Nat.zero_le _, rfl⟩⟩,
    by simp [SmcState.Watches, new], by simp [new],
    fun _ taken => absurd rfl taken⟩
  exact (List.foldlRecOn calls step start fun t kept call member =>
    kept.step (paged call member)).complete

/-- Three pages with one slot between them. -/
def collidingPages : List U64 := [0xe000, 0x1063000, 0x2ad0000]

theorem pages_tracked_colliding : collidingPages.map SmcState.slot = [5345, 5345, 5345] ∧
    ([.rebuildWatch collidingPages, .markDirty 0x1063000, .takeDirty, .markDirty 0x2ad0000, .markDirty 0xe000].foldl
      step new).Complete :=
  ⟨rfl, pages_tracked _ (by decide)⟩

end SmcTrace

/-! ## Invalidation -/

namespace CodeCache

/-- The pages of the span are code pages, and the code of the block lies in them. -/
structure Noted (codePages : List U64) (block : JitCompiledBlock) : Prop where
  looped : ∃ pages, pageLoop block.startPage block.endPage = some pages ∧
    ∀ page ∈ pages, page ∈ codePages
  spanned : ∀ page, pageOf page = page → block.Covers page →
    block.startPage.toNat ≤ page.toNat ∧ page.toNat ≤ block.endPage.toNat

/-- The facts that every operation keeps; the last one if no function is compiled whole. -/
structure Consistent (single : Prop) (s : CodeCache) : Prop where
  records : s.smc.Records s.marked
  blocks : OrderedMap.Ascending s.blockCache
  slices : OrderedMap.Ascending s.sliceBlockCache
  noted : single → ∀ entry ∈ s.blockCache, Noted s.codePages entry.2
  watches : s.smc.Watches s.codePages

/-- What the removal of some addresses leaves of the two caches. -/
structure Leaves (blocks slices : List (U64 × JitCompiledBlock)) (addresses : List U64) (s : CodeCache) :
    Prop where
  blocks : ∀ entry, entry ∈ s.blockCache ↔ entry ∈ blocks ∧ entry.1 ∉ addresses
  slices : ∀ entry, entry ∈ s.sliceBlockCache ↔ entry ∈ slices ∧ entry.1 ∉ addresses

variable {single : Prop} {s : CodeCache}

theorem mem_erase (entry : U64 × JitCompiledBlock) :
    entry ∈ erase address entries ↔ entry ∈ entries ∧ entry.1 ∉ [address] := by
  rw [erase, List.mem_filter, decide_eq_true_iff, mem_singleton]

theorem pageLoops_noted {entries : List (U64 × JitCompiledBlock)}
    (each : entries.mapM (fun entry => pageLoop entry.2.startPage entry.2.endPage) = some lists)
    (member : entry ∈ entries) :
    ∃ own, pageLoop entry.2.startPage entry.2.endPage = some own ∧
      ∀ page ∈ own, page ∈ lists.flatten := by
  induction entries generalizing lists with
  | nil => cases member
  | cons first rest ih =>
    rw [List.mapM_cons] at each
    obtain ⟨own, here, each⟩ := bind_eq_some_iff.mp each
    obtain ⟨others, later, each⟩ := bind_eq_some_iff.mp each
    cases each
    rcases mem_cons.mp member with rfl | inRest
    · exact ⟨own, here, fun page inOwn => List.mem_append_left _ inOwn⟩
    · obtain ⟨its, looped, inside⟩ := ih later inRest
      exact ⟨its, looped, fun page inIts => List.mem_append_right own (inside page inIts)⟩

theorem invalidateBlock_spec (done : s.invalidateBlock address = some s') :
    (∀ single, s.Consistent single → s'.Consistent single) ∧
      Leaves s.blockCache s.sliceBlockCache [address] s' := by
  rw [invalidateBlock] at done
  cases found : s.blockCache.lookup address with
  | none =>
    rw [found] at done
    cases done
    refine ⟨fun single c => ⟨c.records, c.blocks, erase_ascending c.slices _, c.noted, c.watches⟩, fun entry => ?_, mem_erase⟩
    rw [← mem_erase, erase_of_absent found]
  | some =>
    rw [found] at done
    obtain ⟨pages, rebuilt, rfl⟩ := map_eq_some_iff.mp done
    refine ⟨fun single c => ⟨c.records.rebuildWatch, erase_ascending c.blocks _,
      erase_ascending c.slices _, fun isSingle entry member => ?_, SmcState.rebuildWatch_watches _⟩,
      mem_erase, mem_erase⟩
    obtain ⟨lists, each, rfl⟩ := map_eq_some_iff.mp rebuilt
    obtain ⟨own, looped, inside⟩ := pageLoops_noted each member
    exact ⟨⟨own, looped, fun page inOwn => OrderedSet.mem_insertAll.mpr (.inr (inside page inOwn))⟩,
      (c.noted isSingle entry (mem_of_mem_erase member)).spanned⟩

theorem invalidateEach_spec (done : s.invalidateEach addresses = some s') :
    (∀ single, s.Consistent single → s'.Consistent single) ∧
      Leaves s.blockCache s.sliceBlockCache addresses s' := by
  induction addresses generalizing s with
  | nil =>
    cases done
    exact ⟨fun _ => id, fun _ => (and_iff_left not_mem_nil).symm, fun _ => (and_iff_left not_mem_nil).symm⟩
  | cons address rest ih =>
    have split (key : U64) : key ∉ address :: rest ↔ key ∉ [address] ∧ key ∉ rest := by
      rw [mem_cons, mem_singleton, not_or]
    obtain ⟨next, first, later⟩ := bind_eq_some_iff.mp done
    obtain ⟨kept, leaves⟩ := invalidateBlock_spec first
    obtain ⟨keptLater, leavesLater⟩ := ih later
    refine ⟨fun single => keptLater single ∘ kept single, fun entry => ?_, fun entry => ?_⟩
    · rw [leavesLater.blocks, leaves.blocks, split, and_assoc]
    · rw [leavesLater.slices, leaves.slices, split, and_assoc]

theorem mem_meeting (met : meeting dirty entries = some addresses) :
    address ∈ addresses ↔ ∃ entry ∈ entries, entry.1 = address ∧
      pageLoopMeets entry.2.startPage entry.2.endPage dirty = some true := by
  induction entries generalizing addresses with
  | nil =>
    cases met
    simp
  | cons entry rest ih =>
    obtain ⟨meets, here, met⟩ := bind_eq_some_iff.mp met
    obtain ⟨others, later, rfl⟩ := map_eq_some_iff.mp met
    rw [List.exists_mem_cons_iff, here]
    cases meets with
    | true => simp [ih later, eq_comm]
    | false => simp [ih later]

theorem invalidateBlocksOnPages_consistent (done : s.invalidateBlocksOnPages dirty = some s')
    (consistent : s.Consistent single) : s'.Consistent single := by
  rw [invalidateBlocksOnPages] at done
  split at done
  · cases done
    exact consistent
  split at done
  · cases done
    exact consistent
  split at done
  · obtain ⟨addresses, -, done⟩ := bind_eq_some_iff.mp done
    exact (invalidateEach_spec done).1 single { consistent with slices := Pairwise.nil }
  · cases done
    exact consistent

/-! ## The drain -/

/-- No block of either cache covers a byte of the pages. -/
def Clean (s : CodeCache) (pages : List U64) : Prop :=
  ∀ entry, entry ∈ s.blockCache ∨ entry ∈ s.sliceBlockCache → ∀ page ∈ pages, ¬ entry.2.Covers page

/-- When a drain removes every block that covers a marked page. -/
def Drainable (s : CodeCache) : Prop :=
  if s.smc.dirtyOverflow then
    ∀ entry ∈ s.sliceBlockCache, (∀ other ∈ s.blockCache, other.1 ≠ entry.1) →
      ∀ page ∈ s.marked, ¬ entry.2.Covers page
  else
    (∃ page ∈ s.marked, page ∈ s.codePages) ∧
        (∀ entry ∈ s.blockCache, (∃ page ∈ s.marked, entry.2.Covers page) →
          pageLoopMeets entry.2.startPage entry.2.endPage s.marked = some true) ∨
      s.Clean s.marked

theorem overflow_clean_iff
    (leaves : Leaves s.blockCache s.sliceBlockCache (s.blockCache.map Prod.fst) s') :
    s'.Clean s.marked ↔ ∀ entry ∈ s.sliceBlockCache, (∀ other ∈ s.blockCache, other.1 ≠ entry.1) →
      ∀ page ∈ s.marked, ¬ entry.2.Covers page := by
  have absent (key : U64) : key ∉ s.blockCache.map Prod.fst ↔
      ∀ other ∈ s.blockCache, other.1 ≠ key := by
    rw [mem_map]
    exact ⟨fun none other member same => none ⟨other, member, same⟩, fun all ⟨other, member, same⟩ => all other member same⟩
  constructor
  · intro clean entry member alone
    exact clean entry (.inr ((leaves.slices entry).mpr ⟨member, (absent _).mpr alone⟩))
  · intro clear entry member
    rcases member with inBlocks | inSlices
    · obtain ⟨old, gone⟩ := (leaves.blocks entry).mp inBlocks
      exact absurd (List.mem_map_of_mem old) gone
    · obtain ⟨old, alone⟩ := (leaves.slices entry).mp inSlices
      exact clear entry old ((absent _).mp alone)

theorem meeting_clean_iff (ascending : OrderedMap.Ascending s.blockCache)
    (met : meeting s.marked s.blockCache = some addresses)
    (leaves : Leaves s.blockCache [] addresses s') :
    s'.Clean s.marked ↔ ∀ entry ∈ s.blockCache, (∃ page ∈ s.marked, entry.2.Covers page) →
      pageLoopMeets entry.2.startPage entry.2.endPage s.marked = some true := by
  constructor
  · intro clean entry member covering
    obtain ⟨page, marked, covers⟩ := covering
    have gone : entry.1 ∈ addresses := by
      by_contra stays
      exact clean entry (.inl ((leaves.blocks entry).mpr ⟨member, stays⟩)) page marked covers
    obtain ⟨other, inBlocks, same, meets⟩ := (mem_meeting met).mp gone
    rw [← ascending.eq_of_key inBlocks member same]
    exact meets
  · intro hits entry member page marked covers
    rcases member with inBlocks | inSlices
    · obtain ⟨old, stays⟩ := (leaves.blocks entry).mp inBlocks
      exact stays ((mem_meeting met).mpr ⟨entry, old, rfl, hits entry old ⟨page, marked, covers⟩⟩)
    · obtain ⟨none, -⟩ := (leaves.slices entry).mp inSlices
      exact absurd none not_mem_nil

theorem drain_clean_iff (consistent : s.Consistent single)
    (drained : s.drainSmcInvalidations = some s') : s'.Clean s.marked ↔ s.Drainable := by
  rw [drainSmcInvalidations] at drained
  dsimp only at drained
  rw [Drainable]
  cases overflow : s.smc.dirtyOverflow with
  | true =>
    have flag : s.smc.takeDirty.2.1 := overflow
    rw [flag, if_neg fun both => Bool.false_ne_true both.2.symm] at drained
    exact overflow_clean_iff (invalidateEach_spec drained).2
  | false =>
    have flag : s.smc.takeDirty.2.1 = false := overflow
    rw [flag, consistent.records.takeDirty overflow] at drained
    -- where nothing is done, the caches are those of before
    have untouched (same : s'.blockCache = s.blockCache ∧ s'.sliceBlockCache = s.sliceBlockCache) :
        s'.Clean s.marked ↔ s.Clean s.marked := by rw [Clean, Clean, same.1, same.2]
    by_cases none : s.marked = []
    · rw [none] at drained
      have clean : s.Clean s.marked := fun _ _ page member => by rw [none] at member; cases member
      cases drained
      exact ⟨fun _ => .inr clean, fun _ => (untouched ⟨rfl, rfl⟩).mpr clean⟩
    rw [if_neg fun both => none both.1, invalidateBlocksOnPages, if_neg none] at drained
    by_cases bare : s.blockCache = [] ∧ s.sliceBlockCache = []
    · rw [if_pos bare] at drained
      have clean : s.Clean s.marked := fun entry member => by
        rw [bare.1, bare.2, or_self] at member
        cases member
      cases drained
      exact ⟨fun _ => .inr clean, fun _ => (untouched ⟨rfl, rfl⟩).mpr clean⟩
    rw [if_neg bare] at drained
    by_cases overlap : s.marked.any s.codePages.contains
    · rw [if_pos overlap] at drained
      obtain ⟨addresses, met, done⟩ := bind_eq_some_iff.mp drained
      have leaves := (invalidateEach_spec done).2
      rw [meeting_clean_iff consistent.blocks met leaves]
      have found : ∃ page ∈ s.marked, page ∈ s.codePages := by simpa using overlap
      refine ⟨fun hits => .inl ⟨found, hits⟩, fun condition => ?_⟩
      rcases condition with ⟨-, hits⟩ | clean
      · exact hits
      · exact fun entry member ⟨page, marked, covers⟩ => absurd covers (clean entry (.inl member) page marked)
    · rw [if_neg overlap] at drained
      have missed : ¬ ∃ page ∈ s.marked, page ∈ s.codePages := by simpa using overlap
      cases drained
      exact ⟨.inr, fun condition => condition.resolve_left fun both => missed both.1⟩

/-! ## Runs -/

theorem drain_consistent (drained : s.drainSmcInvalidations = some s')
    (consistent : s.Consistent single) : s'.Consistent single := by
  have taken : { s with smc := s.smc.takeDirty.2.2, marked := [] }.Consistent single :=
    { consistent with records := SmcState.records_taken }
  rw [drainSmcInvalidations] at drained
  dsimp only at drained
  split at drained
  · cases drained
    exact taken
  split at drained
  · exact (invalidateEach_spec drained).1 single taken
  · exact invalidateBlocksOnPages_consistent drained taken

theorem evictFrom_consistent (done : s.evictFrom order = some s') (consistent : s.Consistent single) :
    s'.Consistent single := by
  induction order with
  | nil =>
    cases done
    exact { consistent with }
  | cons address rest ih =>
    rw [evictFrom] at done
    split at done
    · cases done
      exact { consistent with }
    split at done
    · exact (invalidateBlock_spec done).1 single { consistent with }
    · exact ih done

/-- Guest code that ends before the address space does, with at most 15 bytes an instruction. -/
structure Source.Plain (source : Source) : Prop where
  fits : source.address.toNat + max (source.count * 15) 1 ≤ 2 ^ 64
  sized : source.size ≤ source.count * 15

theorem Source.Plain.spanned {source : Source} (plain : source.Plain) (tier : CompilationTier)
    (page : U64) (aligned : pageOf page = page) (covers : (source.block tier).Covers page) :
    (source.block tier).startPage.toNat ≤ page.toNat ∧
      page.toNat ≤ (source.block tier).endPage.toNat := by
  obtain ⟨run, member, byte, afterStart, beforeStop, afterPage, beforeNext⟩ := covers
  obtain rfl := mem_singleton.mp member
  have fits := plain.fits
  have sized := plain.sized
  have place := congrArg toNat aligned
  rw [pageOf_toNat] at place
  have span : (source.block tier).guestSpan.toNat = max (source.count * 15) 1 := by
    rw [JitCompiledBlock.guestSpan, toNat_ofNat]
    dsimp only [Source.block]
    omega
  have last : (source.address + (source.block tier).guestSpan - 1).toNat =
      source.address.toNat + max (source.count * 15) 1 - 1 := by
    have one : (1 : U64).toNat = 1 := rfl
    rw [BitVec.toNat_sub, toNat_add]
    omega
  constructor
  · rw [JitCompiledBlock.startPage, pageOf_toNat]
    dsimp only [Source.block] at afterStart beforeStop ⊢
    omega
  · have stop : (source.block tier).endPage.toNat =
        (source.address.toNat + max (source.count * 15) 1 - 1) / 0x1000 * 0x1000 := by
      rw [JitCompiledBlock.endPage, pageOf_toNat]
      exact congrArg (fun n => n / 0x1000 * 0x1000) last
    dsimp only at afterStart beforeStop
    omega

theorem install_consistent (plain : single → source.Plain) (done : s.install source tier = some s')
    (consistent : s.Consistent single) : s'.Consistent single := by
  obtain ⟨pages, looped, done⟩ := bind_eq_some_iff.mp done
  refine evictFrom_consistent done ⟨consistent.records.rebuildWatch,
    insert_ascending consistent.blocks,
    consistent.slices, fun isSingle entry member => ?_, SmcState.rebuildWatch_watches _⟩
  rcases mem_insert member with rfl | old
  · exact ⟨⟨pages, looped, fun page inPages => OrderedSet.mem_insertAll.mpr (.inr inPages)⟩, (plain isSingle).spanned tier⟩
  · obtain ⟨⟨own, loopedOwn, inside⟩, spanned⟩ := consistent.noted isSingle entry old
    exact ⟨⟨own, loopedOwn, fun page inOwn => OrderedSet.mem_insertAll.mpr (.inl (inside page inOwn))⟩, spanned⟩

theorem compile_consistent (plain : single → source.Plain)
    (done : s.getOrCompileAtTier source tier = some s') (consistent : s.Consistent single) :
    s'.Consistent single := by
  have finish {t t' : CodeCache} (done : (if source.compiles then t.install source tier else some t) = some t')
      (consistent : t.Consistent single) : t'.Consistent single := by
    split at done
    · exact install_consistent plain done consistent
    · cases done
      exact consistent
  rw [getOrCompileAtTier] at done
  split at done
  · cases done
    exact consistent
  obtain ⟨drained, first, done⟩ := bind_eq_some_iff.mp done
  have consistent := drain_consistent first consistent
  split at done
  · exact finish done consistent
  split at done
  · obtain ⟨next, invalidated, done⟩ := bind_eq_some_iff.mp done
    exact finish done ((invalidateBlock_spec invalidated).1 single consistent)
  · cases done
    exact { consistent with }

theorem noteWritePage_consistent (aligned : pageOf page = page) (consistent : s.Consistent single) :
    (s.noteWritePage page).Consistent single := by
  rw [noteWritePage]
  split
  · exact ⟨consistent.records.markDirty aligned, consistent.blocks, consistent.slices, consistent.noted,
      consistent.watches.markDirty⟩
  · exact consistent

theorem foldl_noteWritePage_consistent {pages : List U64}
    (aligned : ∀ page ∈ pages, pageOf page = page) (consistent : s.Consistent single) :
    (pages.foldl noteWritePage s).Consistent single :=
  List.foldlRecOn pages _ consistent fun _ consistent page member =>
    noteWritePage_consistent (aligned page member) consistent

theorem noteGuestCodeWrite_consistent (consistent : s.Consistent single) :
    (s.noteGuestCodeWrite address length).Consistent single := by
  rw [noteGuestCodeWrite]
  split
  · exact consistent
  split
  · exact consistent
  exact foldl_noteWritePage_consistent
    (fun page member => mem_pagesBetween pageOf_pageOf member) consistent

/-- No function is compiled whole, and the other blocks end before the address space does. -/
def Operation.Plain : Operation → Prop
  | .compile source _ => source.Plain
  | .compileFunction _ _ => False
  | _ => True

theorem step_consistent (plain : single → operation.Plain) (done : s.step operation = some s')
    (consistent : s.Consistent single) : s'.Consistent single := by
  cases operation with
  | compile => exact compile_consistent plain done consistent
  | compileFunction blocks =>
    cases done
    cases blocks with
    | nil => exact consistent
    | cons entry rest =>
      rw [getOrCompileFunctionTier2]
      split
      · exact consistent
      split
      · exact ⟨consistent.records.rebuildWatch, insert_ascending consistent.blocks, consistent.slices,
          fun isSingle => (plain isSingle).elim, SmcState.rebuildWatch_watches _⟩
      · exact consistent
  | compileSlice =>
    cases done
    rw [getOrCompileSliceBlock]
    split
    · exact consistent
    split
    · split
      · exact { consistent with slices := insert_ascending consistent.slices }
      · refine ⟨consistent.records.rebuildWatch, consistent.blocks, insert_ascending consistent.slices,
          fun isSingle entry member => ?_, SmcState.rebuildWatch_watches _⟩
        obtain ⟨⟨own, looped, inside⟩, spanned⟩ := consistent.noted isSingle entry member
        exact ⟨⟨own, looped, fun page inOwn => OrderedSet.mem_insertAll.mpr (.inl (inside page inOwn))⟩, spanned⟩
    · exact consistent
  | clearSlices =>
    cases done
    exact { consistent with slices := Pairwise.nil }
  | invalidate => exact (invalidateBlock_spec done).1 single consistent
  | invalidateWriting =>
    rw [step, invalidateBlocksWritingTo] at done
    split at done
    · cases done
      exact consistent
    obtain ⟨overlap, -, done⟩ := bind_eq_some_iff.mp done
    split at done
    · dsimp only at done
      split at done
      · cases done
        exact consistent
      · obtain ⟨next, invalidated, done⟩ := bind_eq_some_iff.mp done
        obtain ⟨-, -, rfl⟩ := map_eq_some_iff.mp done
        exact (invalidateEach_spec invalidated).1 single consistent
    · cases done
      exact consistent
  | invalidatePages => exact invalidateBlocksOnPages_consistent done consistent
  | reportFault =>
    rw [step, reportBlockFault] at done
    split at done
    · exact (invalidateBlock_spec done).1 single { consistent with }
    · cases done
      exact { consistent with }
  | setMaxBlocks =>
    cases done
    exact { consistent with }
  | guestWrite =>
    cases done
    exact noteGuestCodeWrite_consistent consistent
  | drain => exact drain_consistent done consistent

theorem run_consistent (plain : single → ∀ operation ∈ operations, operation.Plain)
    (ran : s.run operations = some s') (consistent : s.Consistent single) :
    s'.Consistent single := by
  induction operations generalizing s with
  | nil =>
    cases ran
    exact consistent
  | cons operation rest ih =>
    obtain ⟨next, stepped, ran⟩ := bind_eq_some_iff.mp ran
    refine ih (fun isSingle other member => plain isSingle other (List.mem_cons_of_mem operation member)) ran ?_
    exact step_consistent (fun isSingle => plain isSingle operation mem_cons_self) stepped consistent

theorem new_consistent : new.Consistent single :=
  ⟨⟨fun _ member => absurd member not_mem_nil, fun _ => ⟨rfl, Nat.zero_le _, rfl⟩⟩, Pairwise.nil,
    Pairwise.nil, fun _ _ member => absurd member not_mem_nil, fun _ member =>
      absurd member not_mem_nil⟩

/-- What is left of the condition if every dispatcher block has its pages noted. -/
def SlicesDrainable (s : CodeCache) : Prop :=
  if s.smc.dirtyOverflow then
    ∀ entry ∈ s.sliceBlockCache, (∀ other ∈ s.blockCache, other.1 ≠ entry.1) →
      ∀ page ∈ s.marked, ¬ entry.2.Covers page
  else
    (∃ page ∈ s.marked, page ∈ s.codePages) ∨
      ∀ entry ∈ s.sliceBlockCache, ∀ page ∈ s.marked, ¬ entry.2.Covers page

theorem Noted.meets {codePages : List U64} (noted : Noted codePages block)
    (aligned : pageOf page = page) (member : page ∈ dirty) (covers : block.Covers page) :
    page ∈ codePages ∧ pageLoopMeets block.startPage block.endPage dirty = some true := by
  obtain ⟨pages, looped, inside⟩ := noted.looped
  obtain ⟨above, below⟩ := noted.spanned page aligned covers
  have ordered : ¬ block.endPage < block.startPage := by
    rw [BitVec.lt_def]
    omega
  have between : page ∈ pagesBetween block.startPage block.endPage :=
    mem_pagesBetween_of_le pageOf_pageOf aligned above below
  rw [pageLoop, if_neg ordered] at looped
  rw [pageLoopMeets, if_neg ordered]
  split at looped
  · cases looped
  case isFalse ends =>
    rw [if_neg ends]
    cases looped
    refine ⟨inside page between, congrArg some (List.any_eq_true.mpr ⟨page, between, ?_⟩)⟩
    exact List.contains_iff_mem.mpr member

theorem drainable_iff (consistent : s.Consistent True) : s.Drainable ↔ s.SlicesDrainable := by
  rw [Drainable, SlicesDrainable]
  split
  · exact Iff.rfl
  have meets (entry : U64 × JitCompiledBlock) (inBlocks : entry ∈ s.blockCache) (page : U64)
      (marked : page ∈ s.marked) (covers : entry.2.Covers page) :
      page ∈ s.codePages ∧ pageLoopMeets entry.2.startPage entry.2.endPage s.marked = some true :=
    (consistent.noted trivial entry inBlocks).meets (consistent.records.aligned page marked) marked covers
  constructor
  · rintro (⟨found, -⟩ | clean)
    · exact .inl found
    · exact .inr fun entry member => clean entry (.inr member)
  · rintro (found | clear)
    · exact .inl ⟨found, fun entry member ⟨page, marked, covers⟩ => (meets entry member page marked covers).2⟩
    · by_cases found : ∃ page ∈ s.marked, page ∈ s.codePages
      · exact .inl ⟨found, fun entry member ⟨page, marked, covers⟩ => (meets entry member page marked covers).2⟩
      · refine .inr fun entry member page marked covers => ?_
        rcases member with inBlocks | inSlices
        · exact found ⟨page, marked, (meets entry inBlocks page marked covers).1⟩
        · exact clear entry inSlices page marked covers

/-- A drain leaves the caches clean exactly in the drainable states; if no function is
compiled whole, only the worker blocks decide. -/
theorem drain_smc_invalidations_clean_iff {operations : List Operation}
    (ran : new.run operations = some s) (drained : s.drainSmcInvalidations = some s') :
    (s'.Clean s.marked ↔ s.Drainable) ∧
      ((∀ operation ∈ operations, operation.Plain) → (s.Drainable ↔ s.SlicesDrainable)) :=
  ⟨drain_clean_iff (@run_consistent False _ _ _ False.elim ran new_consistent) drained,
    fun plain => drainable_iff (run_consistent (fun _ => plain) ran new_consistent)⟩

/-! ## A worker block that stays -/

/-- A dispatcher block and a worker block on another page, and a guest write to the page of
the second. -/
def writtenSlice : List Operation :=
  [.compile ⟨0x5000, 1, 1, 7, true⟩ .tier0, .compileSlice ⟨0x1000, 1, 1, 7, true⟩ .disabled,
    .guestWrite 0x1000 1]

theorem written_covers : (Source.block ⟨0x1000, 1, 1, 7, true⟩ .tier0).Covers 0x1000 :=
  ⟨(0x1000, 1), mem_cons_self, 0x1000, by decide⟩

/-- Drained at once, the worker block is gone. -/
theorem drain_smc_invalidations_clean_iff_at_once :
    ∃ s s', new.run writtenSlice = some s ∧ s.drainSmcInvalidations = some s' ∧ s.SlicesDrainable ∧
      s'.Clean s.marked := by
  have runs : (new.run writtenSlice).isSome = true := by decide
  obtain ⟨s, ran⟩ := Option.isSome_iff_exists.mp runs
  have drains : ((new.run writtenSlice).bind drainSmcInvalidations).isSome = true := by decide
  have found : ((new.run writtenSlice).map fun s => (s.smc.dirtyOverflow, s.marked, s.codePages.contains 0x1000)) =
      some (false, [0x1000], true) := by decide
  rw [ran] at drains found
  obtain ⟨s', drained⟩ := Option.isSome_iff_exists.mp drains
  rw [Option.map_some, Option.some.injEq, Prod.mk.injEq, Prod.mk.injEq] at found
  obtain ⟨fits, marked, noted⟩ := found
  have condition : s.SlicesDrainable := by
    rw [SlicesDrainable, fits]
    exact .inl ⟨0x1000, marked ▸ mem_cons_self, List.contains_iff_mem.mp noted⟩
  have plain : ∀ operation ∈ writtenSlice, operation.Plain := by
    intro operation member
    simp only [writtenSlice, mem_cons, not_mem_nil, or_false] at member
    rcases member with rfl | rfl | rfl
    · exact ⟨by decide, by decide⟩
    · trivial
    · trivial
  obtain ⟨clean, slices⟩ := drain_smc_invalidations_clean_iff ran drained
  exact ⟨s, s', ran, drained, condition, clean.mpr ((slices plain).mpr condition)⟩

/-- If the dispatcher block faults before the drain, the page of the worker block is no code
page any more, and the drain does nothing. -/
theorem drain_smc_invalidations_keeps_slice :
    ∃ s s', new.run (writtenSlice ++ [.reportFault 0x5000]) = some s ∧
      s.drainSmcInvalidations = some s' ∧ s.marked = [0x1000] ∧ ¬ s'.Clean s.marked := by
  refine ⟨_, _, rfl, rfl, rfl, fun clean => ?_⟩
  exact clean (0x1000, Source.block ⟨0x1000, 1, 1, 7, true⟩ .tier0)
    (.inr mem_cons_self) 0x1000 mem_cons_self
    written_covers

end CodeCache

end Casa.Jit
