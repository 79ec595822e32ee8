import Casa.Lib.Along
import Casa.Lib.OrderedMap
import Mathlib.Data.BitVec
import Casa.Lib.MachineInt

/-! The inline cache of indirect calls (jit/patching_chaining.rs). The entries and the queue of
their ages are kept apart: an invalidated site leaves its place in the queue behind, and takes it
again when it comes back. The hit rate is left out. -/
namespace Casa.Jit
open Effect OrderedMap

structure InlineCacheEntry where
  callSite : U64
  lastTarget : U64
  hitCount : U32
  missCount : U32

structure InlineCache where
  entries : List (U64 × InlineCacheEntry)
  evictionQueue : List U64
  maxEntries : Nat

namespace InlineCache

def new (maxEntries : Nat) : InlineCache := ⟨[], [], maxEntries⟩

def holds (c : InlineCache) (site : U64) : Bool := (c.entries.lookup site).isSome

/-- The loop of `evict_oldest`. -/
def evictFrom (c : InlineCache) : List U64 → InlineCache
  | [] => { c with evictionQueue := [] }
  | key :: rest =>
    if c.holds key then { c with entries := erase key c.entries, evictionQueue := rest }
    else c.evictFrom rest

def evictOldest (c : InlineCache) : InlineCache := c.evictFrom c.evictionQueue

def lookup (c : InlineCache) (callSite target : U64) : Bool × InlineCache :=
  match c.entries.lookup callSite with
  | some entry =>
    if entry.lastTarget = target then
      (true, { c with entries := modify callSite (fun entry => { entry with hitCount := entry.hitCount + 1 }) c.entries })
    else
      (false, { c with
        entries := modify callSite (fun entry => { entry with lastTarget := target, missCount := entry.missCount + 1 }) c.entries })
  | none =>
    let c := if c.maxEntries ≤ c.entries.length then c.evictOldest else c
    (false, { c with
      evictionQueue := c.evictionQueue ++ [callSite]
      entries := insert callSite ⟨callSite, target, 0, 1⟩ c.entries })

def invalidate (c : InlineCache) (callSite : U64) : InlineCache :=
  { c with entries := erase callSite c.entries }

def invalidateAll (c : InlineCache) : InlineCache := { c with entries := [], evictionQueue := [] }

inductive Call where
  | lookup (callSite target : U64)
  | invalidate (callSite : U64)
  | invalidateAll

/-- The cache, when each site was entered last, and the time. -/
structure Trace where
  cache : InlineCache
  entered : U64 → Nat
  time : Nat

def Trace.new (maxEntries : Nat) : Trace := ⟨.new maxEntries, fun _ => 0, 0⟩

def Trace.step (t : Trace) : Call → Trace
  | .lookup callSite target =>
    let cache := (t.cache.lookup callSite target).2
    if t.cache.holds callSite then { t with cache }
    else ⟨cache, Function.update t.entered callSite t.time, t.time + 1⟩
  | .invalidate callSite => { t with cache := t.cache.invalidate callSite }
  | .invalidateAll => { t with cache := t.cache.invalidateAll }

/-- The cache is within its capacity, and a full one gives up the entry that was entered first. -/
structure Fifo (t : Trace) : Prop where
  bounded : t.cache.entries.length ≤ t.cache.maxEntries
  oldest : t.cache.maxEntries ≤ t.cache.entries.length → ∃ oldest, t.cache.holds oldest = true ∧
    t.cache.evictOldest.entries = erase oldest t.cache.entries ∧
    ∀ site, t.cache.holds site = true → t.entered oldest ≤ t.entered site

/-- A site that is entered has no place in the queue. -/
def Fresh (t : Trace) : Call → Prop
  | .lookup callSite _ => t.cache.holds callSite = false → callSite ∉ t.cache.evictionQueue
  | _ => True

/-- The queue has the sites that the cache holds, in the order of their ages. -/
structure Kept (t : Trace) : Prop where
  sorted : t.cache.evictionQueue.Pairwise fun first second => t.entered first ≤ t.entered second
  past : ∀ site ∈ t.cache.evictionQueue, t.entered site ≤ t.time
  queued : ∀ site, t.cache.holds site = true → site ∈ t.cache.evictionQueue
  bounded : t.cache.entries.length ≤ t.cache.maxEntries
  positive : 0 < t.cache.maxEntries

variable {c : InlineCache} {entries : List (U64 × InlineCacheEntry)}

/-- The loop stops at the first site that the cache holds. -/
theorem evictFrom_eq (some : ∃ site ∈ queue, c.holds site) :
    ∃ oldest rest, c.holds oldest ∧
      c.evictFrom queue = { c with entries := erase oldest c.entries, evictionQueue := rest } ∧
      oldest :: rest <:+ queue ∧ ∀ site ∈ queue, c.holds site → site ∈ oldest :: rest := by
  induction queue with
  | nil => simp at some
  | cons key queue ih =>
    by_cases held : c.holds key
    · exact ⟨key, queue, held, if_pos held, List.suffix_rfl, fun _ member _ => member⟩
    · obtain ⟨oldest, rest, there, evicted, last, others⟩ := ih (by simpa [held] using some)
      refine ⟨oldest, rest, there, (if_neg held).trans evicted, last.trans (List.suffix_cons _ _), ?_⟩
      simpa [held] using others

theorem held_of_erase (held : ((erase key entries).lookup site).isSome) :
    site ≠ key ∧ (entries.lookup site).isSome := by
  rw [lookup_erase] at held
  split at held
  case isTrue => cases held
  case isFalse other => exact ⟨other, held⟩

variable (kept : Kept t)
include kept

theorem Kept.shrink (inside : queue.Sublist t.cache.evictionQueue)
    (queued : ∀ site, (entries.lookup site).isSome → site ∈ queue)
    (short : entries.length ≤ t.cache.entries.length) :
    Kept { t with cache := ⟨entries, queue, t.cache.maxEntries⟩ } where
  sorted := kept.sorted.sublist inside
  past site member := kept.past site (inside.subset member)
  queued := queued
  bounded := short.trans kept.bounded
  positive := kept.positive

theorem Kept.modified (update : InlineCacheEntry → InlineCacheEntry) :
    Kept { t with cache := { t.cache with entries := OrderedMap.modify site update t.cache.entries } } := by
  refine kept.shrink (List.Sublist.refl _) (fun other held => kept.queued other ?_)
    (by simp [OrderedMap.modify])
  rw [holds, Option.isSome_iff_ne_none]
  rw [Option.isSome_iff_ne_none] at held
  exact fun none => held (lookup_modify_eq_none.mpr none)

theorem Kept.evictOldest_eq (full : t.cache.maxEntries ≤ t.cache.entries.length) :
    ∃ oldest rest, t.cache.holds oldest ∧
      t.cache.evictOldest = { t.cache with entries := erase oldest t.cache.entries, evictionQueue := rest } ∧
      oldest :: rest <:+ t.cache.evictionQueue ∧ (∀ site, t.cache.holds site → site ∈ oldest :: rest) ∧
      (erase oldest t.cache.entries).length < t.cache.entries.length := by
  obtain ⟨entry, member⟩ := List.exists_mem_of_length_pos (kept.positive.trans_le full)
  have held : t.cache.holds entry.1 := by
    by_contra absent
    exact lookup_eq_none.mp (Option.not_isSome_iff_eq_none.mp absent) entry member rfl
  obtain ⟨oldest, rest, there, evicted, last, others⟩ :=
    evictFrom_eq ⟨entry.1, kept.queued _ held, held⟩
  obtain ⟨value, found⟩ := Option.isSome_iff_exists.mp there
  exact ⟨oldest, rest, there, evicted, last,
    fun site held => others site (kept.queued site held) held,
    List.length_filter_lt_length_iff_exists.mpr ⟨_, mem_of_lookup found, by simp⟩⟩

theorem Kept.fifo : Fifo t := by
  refine ⟨kept.bounded, fun full => ?_⟩
  obtain ⟨oldest, rest, there, evicted, last, others, -⟩ := kept.evictOldest_eq full
  refine ⟨oldest, there, congrArg InlineCache.entries evicted, fun site held => ?_⟩
  rcases List.mem_cons.mp (others site held) with rfl | later
  · exact Nat.le_refl _
  · exact (List.pairwise_cons.mp (kept.sorted.sublist last.sublist)).1 site later

theorem Kept.enter (room : t.cache.entries.length < t.cache.maxEntries)
    (absent : t.cache.holds site = false) (fresh : site ∉ t.cache.evictionQueue)
    (entry : InlineCacheEntry) :
    Kept ⟨{ t.cache with evictionQueue := t.cache.evictionQueue ++ [site], entries := insert site entry t.cache.entries },
      Function.update t.entered site t.time, t.time + 1⟩ := by
  have old : ∀ other ∈ t.cache.evictionQueue,
      Function.update t.entered site t.time other = t.entered other := by
    intro other member
    exact Function.update_of_ne (fun same : other = site => fresh (same ▸ member)) _ _
  have longer := @total_insert_of_absent _ _ _ site _ entry _ _ (fun _ => 1)
    (Option.not_isSome_iff_eq_none.mp (Bool.eq_false_iff.mp absent))
  rw [← length_eq_total, ← length_eq_total] at longer
  refine ⟨List.pairwise_append.mpr ⟨?_, List.pairwise_singleton _ _, ?_⟩, ?_, fun other held => ?_,
    ?_, kept.positive⟩
  · exact kept.sorted.imp_of_mem fun first second before => by
      simpa [old _ first, old _ second] using before
  · intro other member
    simpa [old other member] using kept.past other member
  · intro other member
    rcases List.mem_append.mp member with inQueue | new
    · exact (old other inQueue).trans_le ((kept.past other inQueue).trans (Nat.le_succ _))
    · simp [List.mem_singleton.mp new]
  · rw [holds, lookup_insert] at held
    split at held
    case isTrue same => simp [same]
    case isFalse => exact List.mem_append_left _ (kept.queued other held)
  · dsimp only
    omega

theorem Kept.step (fresh : Fresh t call) : Kept (t.step call) := by
  cases call with
  | invalidate =>
    exact kept.shrink (List.Sublist.refl _) (fun site held => kept.queued site (held_of_erase held).2)
      (List.length_filter_le _ _)
  | invalidateAll =>
    exact kept.shrink (List.nil_sublist _) (fun _ held => by cases held) (Nat.zero_le _)
  | lookup callSite =>
    cases found : t.cache.entries.lookup callSite with
    | some =>
      simp only [Trace.step, lookup, holds, found, Option.isSome_some, if_true]
      split <;> exact kept.modified _
    | none =>
      have absent : t.cache.holds callSite = false := by simp [holds, found]
      simp only [Trace.step, lookup, found, absent]
      by_cases full : t.cache.maxEntries ≤ t.cache.entries.length
      · obtain ⟨oldest, rest, -, evicted, last, others, shorter⟩ := kept.evictOldest_eq full
        have inside := (List.sublist_cons_self oldest rest).trans last.sublist
        rw [if_pos full, evicted]
        refine (kept.shrink inside (fun site held => ?_) shorter.le).enter (shorter.trans_le kept.bounded) ?_
          (fun member => fresh absent (inside.subset member)) _
        · obtain ⟨other, before⟩ := held_of_erase held
          exact (List.mem_cons.mp (others site before)).resolve_left other
        · exact Bool.eq_false_iff.mpr fun held => Bool.eq_false_iff.mp absent (held_of_erase held).2
      · rw [if_neg full]
        exact kept.enter (Nat.lt_of_not_le full) absent (fresh absent) _

omit kept

/-- While no site comes back that has left its place in the queue. -/
theorem evicts_oldest (positive : 0 < capacity)
    (fresh : Along Trace.step Fresh (.new capacity) calls) :
    ∀ taken, taken <+: calls → Fifo (taken.foldl Trace.step (.new capacity)) := by
  intro taken within
  have start : Kept (.new capacity) := by
    constructor <;> simp [Trace.new, new, holds, positive]
  exact (fresh.invariant start (fun t call kept fresh => kept.step fresh) taken within).fifo

theorem evicts_oldest_of_two : Fifo ([.lookup 1 0, .lookup 2 0].foldl Trace.step (.new 2)) := by
  have fresh : Along Trace.step Fresh (.new 2) [.lookup 1 0, .lookup 2 0] :=
    ⟨fun _ => by decide, fun _ => by decide, trivial⟩
  exact evicts_oldest (by decide) fresh _ List.prefix_rfl

/-- A site that left and came back is thrown out before an older one. -/
theorem returned_site_evicted :
    ¬ Fifo ([.lookup 1 0, .invalidate 1, .lookup 2 0, .lookup 1 0].foldl Trace.step (.new 2)) := by
  intro fifo
  obtain ⟨oldest, there, gone, first⟩ := fifo.oldest (by decide)
  have one : oldest = 1 := by
    by_contra other
    have stays := congrArg (fun entries => (entries.lookup 1).isSome) gone
    rw [lookup_erase, if_neg (Ne.symm other)] at stays
    exact absurd stays (by decide)
  subst one
  exact absurd (first 2 (by decide)) (by decide)

end InlineCache

end Casa.Jit
