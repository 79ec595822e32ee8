import Casa.Jit.SliceMemory
import Casa.Lib.OrderedMap
import Casa.Lib.ProbeTable

/-! The caches of compiled blocks (jit/code_cache.rs) and the tracking of guest writes to
their pages (jit/patching_chaining.rs): the watched pages, the ring of dirty pages, and
the invalidation of blocks when the ring is drained. Counters, link slots, the profile
and the unwind table are left out. A function that does not return gives none. -/
namespace Casa.Jit
open MachineInt

def smcWatchSlots : Nat := 8192

def smcDirtySlots : Nat := 4096

structure SmcState where
  watched : Nat → U64
  watchedCount : Nat
  watchOverflow : Bool
  dirty : Nat → U64
  dirtyCount : Nat
  dirtyOverflow : Bool

namespace SmcState

def new : SmcState := ⟨fun _ => 0, 0, false, fun _ => 0, 0, false⟩

def slot (page : U64) : Nat :=
  (((page >>> 12) * 0x9E3779B97F4A7C15) >>> (64 - 13)).toNat % smcWatchSlots

/-- The loop over the pages, with the slots and the number placed so far. -/
def watchPages (slots : Nat → U64) (count : Nat) : List U64 → (Nat → U64) × Nat × Bool
  | [] => (slots, count, false)
  | page :: rest =>
    match ProbeTable.place 0 smcWatchSlots (page + 1) slots smcWatchSlots (slot page) with
    | some placed => watchPages placed (count + 1) rest
    | none => (slots, count, true)

def rebuildWatch (state : SmcState) (pages : List U64) : SmcState :=
  let (slots, count, overflow) := watchPages (fun _ => 0) 0 pages
  { state with watched := slots, watchedCount := count, watchOverflow := overflow }

def isWatched (state : SmcState) (page : U64) : Bool :=
  state.watchOverflow || ProbeTable.find 0 smcWatchSlots (page + 1) state.watched smcWatchSlots
    (slot page)

def markDirty (state : SmcState) (page : U64) : SmcState :=
  let state' := { state with dirtyCount := (state.dirtyCount + 1) % 2 ^ 64 }
  if state.dirtyCount < smcDirtySlots then
    { state' with dirty := Function.update state.dirty state.dirtyCount (page + 1) }
  else { state' with dirtyOverflow := true }

def takeDirty (state : SmcState) : List U64 × Bool × SmcState :=
  let count := min state.dirtyCount smcDirtySlots
  let values := (List.range count).map state.dirty
  let pages := (values.filter (· ≠ 0)).map fun value => pageOf (value - 1)
  (pages, state.dirtyOverflow,
    { state with
      dirty := fun index => if index < count then 0 else state.dirty index
      dirtyCount := 0
      dirtyOverflow := false })

end SmcState

inductive CompilationTier where
  | tier0
  | tier1
  | tier2
  deriving DecidableEq

def CompilationTier.rank : CompilationTier → Nat
  | tier0 => 0
  | tier1 => 1
  | tier2 => 2

/-- The code that a block was translated from is not kept by the source: the start and
the number of bytes of each run of guest code. -/
structure JitCompiledBlock where
  guestAddress : U64
  instructionCount : Nat
  sourceHash : U64
  compileTier : CompilationTier
  code : List (U64 × Nat)

def topPage : U64 := pageOf (BitVec.allOnes 64)

def pagesBetween (first last : U64) : List U64 :=
  (List.range ((last - first).toNat / 0x1000 + 1)).map fun index =>
    first + BitVec.ofNat 64 (0x1000 * index)

/-- `while page <= last { ...; page += 0x1000 }`: behind the last page of the address space
the loop begins again. -/
def pageLoop (first last : U64) : Option (List U64) :=
  if last < first then some [] else if last = topPage then none else some (pagesBetween first last)

/-- The same loop, left at a page of the set: none if it is never left. -/
def pageLoopMeets (first last : U64) (pages : List U64) : Option Bool :=
  if last < first then some false
  else if last = topPage then
    if pages.any fun page => pageOf page = page then some true else none
  else some ((pagesBetween first last).any pages.contains)

namespace JitCompiledBlock

def guestSpan (block : JitCompiledBlock) : U64 :=
  BitVec.ofNat 64 (max (min (block.instructionCount * 15) (2 ^ 64 - 1)) 1)

def startPage (block : JitCompiledBlock) : U64 := pageOf block.guestAddress

def endPage (block : JitCompiledBlock) : U64 := pageOf (block.guestAddress + block.guestSpan - 1)

/-- The block was translated from a byte of the page. -/
def Covers (block : JitCompiledBlock) (page : U64) : Prop :=
  ∃ run ∈ block.code, ∃ byte : Nat, run.1.toNat ≤ byte ∧ byte < run.1.toNat + run.2 ∧
    page.toNat ≤ byte ∧ byte < page.toNat + 0x1000

end JitCompiledBlock

/-- The code caches of `JitRuntime`; the marked pages are those marked dirty since the
last drain, whether the ring has them or not. -/
structure CodeCache where
  blockCache : List (U64 × JitCompiledBlock)
  sliceBlockCache : List (U64 × JitCompiledBlock)
  blockAccessOrder : List U64
  maxBlocks : Nat
  faultedBlocks : List U64
  codePages : List U64
  smc : SmcState
  marked : List U64

namespace CodeCache

def new : CodeCache := ⟨[], [], [], 8192, [], [], .new, []⟩

def rebuildCodePages (s : CodeCache) : Option (List U64) :=
  (s.blockCache.mapM fun entry => pageLoop entry.2.startPage entry.2.endPage).map fun pages =>
    OrderedSet.insertAll [] pages.flatten

def invalidateBlock (s : CodeCache) (address : U64) : Option CodeCache :=
  let s := { s with sliceBlockCache := OrderedMap.erase address s.sliceBlockCache }
  match s.blockCache.lookup address with
  | none => some s
  | some _ =>
    let s :=
      { s with
        blockCache := OrderedMap.erase address s.blockCache
        blockAccessOrder := s.blockAccessOrder.filter (· ≠ address) }
    s.rebuildCodePages.map fun pages =>
      { s with codePages := pages, smc := s.smc.rebuildWatch pages }

def invalidateEach (s : CodeCache) (addresses : List U64) : Option CodeCache :=
  addresses.foldlM invalidateBlock s

def clearSliceBlocks (s : CodeCache) : CodeCache := { s with sliceBlockCache := [] }

/-- The addresses of the blocks whose pages meet the set. -/
def meeting (dirty : List U64) : List (U64 × JitCompiledBlock) → Option (List U64)
  | [] => some []
  | entry :: rest =>
    (pageLoopMeets entry.2.startPage entry.2.endPage dirty).bind fun meets =>
      (meeting dirty rest).map fun others => if meets then entry.1 :: others else others

def invalidateBlocksOnPages (s : CodeCache) (dirty : List U64) : Option CodeCache :=
  if dirty = [] then some s
  else if s.blockCache = [] ∧ s.sliceBlockCache = [] then some s
  else if dirty.any s.codePages.contains then
    let s := s.clearSliceBlocks
    (meeting dirty s.blockCache).bind s.invalidateEach
  else some s

def invalidateBlocksWritingTo (s : CodeCache) (address : U64) (length : Nat) : Option CodeCache :=
  if length = 0 ∨ s.blockCache = [] then some s
  else
    let first := pageOf address
    let last := pageOf (address + BitVec.ofNat 64 length - 1)
    (pageLoopMeets first last s.codePages).bind fun overlap =>
      if overlap then
        let stop := saturatingAdd address (BitVec.ofNat 64 length)
        let affected := s.blockCache.filter fun entry =>
          address < saturatingAdd entry.2.guestAddress entry.2.guestSpan && entry.2.guestAddress < stop
        if affected = [] then some s
        else
          (s.invalidateEach (affected.map Prod.fst)).bind fun s =>
            -- the loop that forgets the synced pages
            (pageLoop first last).map fun _ => s
      else some s

def drainSmcInvalidations (s : CodeCache) : Option CodeCache :=
  let (pages, overflow, smc) := s.smc.takeDirty
  let s := { s with smc, marked := [] }
  if pages = [] ∧ overflow = false then some s
  else if overflow then s.invalidateEach (s.blockCache.map Prod.fst)
  else s.invalidateBlocksOnPages pages

/-- The loop of `evict_if_needed`. -/
def evictFrom (s : CodeCache) : List U64 → Option CodeCache
  | [] => some { s with blockAccessOrder := [] }
  | address :: rest =>
    if s.blockCache.length ≤ s.maxBlocks then some { s with blockAccessOrder := address :: rest }
    else if (s.blockCache.lookup address).isSome then { s with blockAccessOrder := rest }.invalidateBlock address
    else s.evictFrom rest

def evictIfNeeded (s : CodeCache) : Option CodeCache := s.evictFrom s.blockAccessOrder

def recordBlockAccess (s : CodeCache) (address : U64) : CodeCache :=
  { s with blockAccessOrder := s.blockAccessOrder.erase address ++ [address] }

/-- Guest code to be compiled: its address, the number of its instructions and of its
bytes, the hash of its IR, and whether the compiler takes it. -/
structure Source where
  address : U64
  count : Nat
  size : Nat
  hash : U64
  compiles : Bool

def Source.block (source : Source) (tier : CompilationTier) : JitCompiledBlock :=
  ⟨source.address, source.count, source.hash, tier, [(source.address, source.size)]⟩

/-- The new block of `get_or_compile_at_tier`. -/
def install (s : CodeCache) (source : Source) (tier : CompilationTier) : Option CodeCache :=
  let stop := source.address + BitVec.ofNat 64 (max (min (source.count * 15) (2 ^ 64 - 1)) 1)
  (pageLoop (pageOf source.address) (pageOf (stop - 1))).bind fun pages =>
    let codePages := OrderedSet.insertAll s.codePages pages
    { s with
      codePages
      smc := s.smc.rebuildWatch codePages
      blockCache := OrderedMap.insert source.address (source.block tier) s.blockCache
      blockAccessOrder := s.blockAccessOrder ++ [source.address] }.evictIfNeeded

def getOrCompileAtTier (s : CodeCache) (source : Source) (tier : CompilationTier) :
    Option CodeCache :=
  if s.faultedBlocks.contains source.address then some s
  else
    s.drainSmcInvalidations.bind fun s =>
      match s.blockCache.lookup source.address with
      | none => if source.compiles then s.install source tier else some s
      | some existing =>
        if (existing.sourceHash ≠ 0 ∧ existing.sourceHash ≠ source.hash) ∨ existing.compileTier.rank < tier.rank then
          (s.invalidateBlock source.address).bind fun s =>
            if source.compiles then s.install source tier else some s
        else some (s.recordBlockAccess source.address)

/-- A whole function; its code is that of all its blocks. -/
def getOrCompileFunctionTier2 (s : CodeCache) (blocks : List Source) (accepted : Bool) :
    CodeCache :=
  match blocks with
  | [] => s
  | entry :: _ =>
    if (s.blockCache.lookup entry.address).any fun block => block.compileTier = .tier2 then s
    else if accepted then
      let codePages := OrderedSet.insertAll s.codePages (blocks.map fun block => pageOf block.address)
      let compiled : JitCompiledBlock :=
        { guestAddress := entry.address
          instructionCount := (blocks.map Source.count).sum
          sourceHash := entry.hash
          compileTier := .tier2
          code := blocks.map fun block => (block.address, block.size) }
      { s with
        codePages
        blockAccessOrder := s.blockAccessOrder.filter (· ≠ entry.address) ++ [entry.address]
        blockCache := OrderedMap.insert entry.address compiled s.blockCache
        smc := s.smc.rebuildWatch codePages }
    else s

/-- What the persistent cache has for a worker block. -/
inductive AotLookup where
  | disabled
  | hit
  | miss
  | rejected
  deriving DecidableEq

def noteSliceCodePages (s : CodeCache) (block : JitCompiledBlock) : CodeCache :=
  let stop := saturatingAdd block.guestAddress block.guestSpan
  let codePages :=
    OrderedSet.insertAll s.codePages (pagesBetween block.startPage (pageOf (stop - 1)))
  { s with codePages, smc := s.smc.rebuildWatch codePages }

def getOrCompileSliceBlock (s : CodeCache) (source : Source) (aot : AotLookup) : CodeCache :=
  if (s.sliceBlockCache.lookup source.address).isSome then s
  else if aot = .hit ∨ source.compiles then
    let block := source.block .tier0
    -- a miss is the one case in which the pages are not noted
    let s := if aot = .miss then s else s.noteSliceCodePages block
    { s with sliceBlockCache := OrderedMap.insert source.address block s.sliceBlockCache }
  else s

def reportBlockFault (s : CodeCache) (address : U64) : Option CodeCache :=
  let s := { s with faultedBlocks := address :: s.faultedBlocks }
  if (s.blockCache.lookup address).isSome then s.invalidateBlock address else some s

/-- One page of `note_guest_code_write`. -/
def noteWritePage (s : CodeCache) (page : U64) : CodeCache :=
  if s.smc.isWatched page then
    { s with smc := s.smc.markDirty page, marked := s.marked ++ [page] } else s

def noteGuestCodeWrite (s : CodeCache) (address : U64) (length : Nat) : CodeCache :=
  if length = 0 then s
  else if s.smc.watchedCount = 0 ∧ s.smc.watchOverflow = false then s
  else
    let stop := saturatingAdd address (BitVec.ofNat 64 length)
    (pagesBetween (pageOf address) (pageOf (stop - 1))).foldl noteWritePage s

inductive Operation where
  | compile (source : Source) (tier : CompilationTier)
  | compileFunction (blocks : List Source) (accepted : Bool)
  | compileSlice (source : Source) (aot : AotLookup)
  | clearSlices
  | invalidate (address : U64)
  | invalidateWriting (address : U64) (length : Nat)
  | invalidatePages (pages : List U64)
  | reportFault (address : U64)
  | setMaxBlocks (limit : Nat)
  | guestWrite (address : U64) (length : Nat)
  | drain

def step (s : CodeCache) : Operation → Option CodeCache
  | .compile source tier => s.getOrCompileAtTier source tier
  | .compileFunction blocks accepted => some (s.getOrCompileFunctionTier2 blocks accepted)
  | .compileSlice source aot => some (s.getOrCompileSliceBlock source aot)
  | .clearSlices => some s.clearSliceBlocks
  | .invalidate address => s.invalidateBlock address
  | .invalidateWriting address length => s.invalidateBlocksWritingTo address length
  | .invalidatePages pages => s.invalidateBlocksOnPages pages
  | .reportFault address => s.reportBlockFault address
  | .setMaxBlocks limit => some { s with maxBlocks := limit }
  | .guestWrite address length => some (s.noteGuestCodeWrite address length)
  | .drain => s.drainSmcInvalidations

def run : CodeCache → List Operation → Option CodeCache
  | s, [] => some s
  | s, operation :: rest => (s.step operation).bind fun next => next.run rest

end CodeCache

end Casa.Jit
