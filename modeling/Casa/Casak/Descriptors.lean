import Casa.Casak.Memory
import Mathlib.Data.List.Nodup

/-! The descriptors of the CasaK memory manager. What every operation does to them, and
that they stay whole pages of the user range, apart from each other. -/
namespace Casa.Casak
open Effect OrderedMap Result Option Prod
open MemoryManager (chooseBase freeBaseFrom)

structure VadKept (entry : Nat × Vad) : Prop where
  keyed : entry.2.base = entry.1
  base : entry.1 % pageSize = 0
  size : entry.2.size % pageSize = 0
  nonempty : 0 < entry.2.size
  limit : entry.2.end ≤ userLimit
  ascending : Ascending entry.2.pages
  pages : ∀ page ∈ entry.2.pages, page.1 % pageSize = 0 ∧ entry.1 ≤ page.1 ∧ page.1 < entry.2.end
  mapped : entry.2.mapping.isSome = true → entry.2.pages ≠ []

structure Kept (m : MemoryManager) : Prop where
  ascending : Ascending m.vads
  entries : ∀ entry ∈ m.vads, VadKept entry
  apart : ∀ first ∈ m.vads, ∀ second ∈ m.vads, first.1 < second.1 → first.2.end ≤ second.1
  next : m.nextBase % pageSize = 0 ∧ m.nextBase ≤ userLimit

theorem rangePages_nodup : (rangePages range).Nodup := by
  refine List.Nodup.map (fun a b same => ?_) (List.nodup_range')
  exact Nat.eq_of_mul_eq_mul_right (show 0 < pageSize by decide) same

theorem mem_rangePages (start : a % pageSize = 0) (stop : b % pageSize = 0)
    (member : page ∈ rangePages (a, b)) : page % pageSize = 0 ∧ a ≤ page ∧ page < b := by
  obtain ⟨index, inside, rfl⟩ := List.mem_map.mp member
  have bounds := List.mem_range'_1.mp inside
  simp only [pageSize] at *
  omega

theorem length_rangePages (start : a % pageSize = 0) (stop : b % pageSize = 0) :
    (rangePages (a, b)).length * pageSize = b - a := by
  rw [rangePages, List.length_map, List.length_range']
  simp only [pageSize] at *
  omega

/-! ## What the lookups find -/

section Lookups
variable {m : MemoryManager}

theorem findVad_eq_ok (found : m.findVad address = .ok vad) :
    ∃ key, (key, vad) ∈ m.vads ∧ key ≤ address ∧ address < vad.end := by
  simp only [MemoryManager.findVad, bind_eq_ok, require_eq_ok, refuse_eq_ok, pure_eq,
    ok.injEq] at found
  obtain ⟨entry, last, -, below, rfl⟩ := found
  obtain ⟨member, before⟩ := List.mem_filter.mp (List.mem_of_getLast? last)
  exact ⟨entry.1, member, of_decide_eq_true before, Nat.lt_of_not_le below⟩

theorem Kept.lookup_base (kept : Kept m) (member : (key, vad) ∈ m.vads) :
    vad.base = key ∧ m.vads.lookup key = some vad :=
  ⟨(kept.entries _ member).keyed, kept.ascending.lookup_iff.mpr member⟩

theorem alignUp_eq_some (rounded : alignUp value = some aligned) :
    aligned % pageSize = 0 ∧ value ≤ aligned := by
  simp only [alignUp, checkedAdd, map_eq_some_iff, ite_none_right_eq_some, some.injEq] at rounded
  obtain ⟨sum, ⟨-, rfl⟩, rfl⟩ := rounded
  simp only [pageSize]
  omega

theorem alignUp_whole (whole : value % pageSize = 0) (rounded : alignUp value = some aligned) :
    aligned = value := by
  simp only [alignUp, checkedAdd, map_eq_some_iff, ite_none_right_eq_some, some.injEq] at rounded
  obtain ⟨sum, ⟨-, rfl⟩, rfl⟩ := rounded
  simp only [pageSize] at *
  omega

theorem checkedAdd_eq_some (added : checkedAdd a b = some sum) : sum = a + b ∧ a + b < 2 ^ 64 := by
  simp only [checkedAdd, ite_none_right_eq_some, some.injEq] at added
  exact ⟨added.2.symm, added.1⟩

/-- A validated range is made of whole pages of one descriptor. -/
structure InVad (vad : Vad) (range : Nat × Nat) : Prop where
  start : range.1 % pageSize = 0
  stop : range.2 % pageSize = 0
  inside : range.2 ≤ vad.end

theorem validateRange_eq_ok (valid : m.validateRange base size = .ok range) :
    ∃ vad, m.findVad range.1 = .ok vad ∧ InVad vad range := by
  simp only [MemoryManager.validateRange, bind_eq_ok, require_eq_ok, refuse_eq_ok, pure_eq,
    ok.injEq] at valid
  obtain ⟨-, accepted, aligned, rounded, stop, added, vad, found, -, inside, rfl⟩ := valid
  obtain ⟨alignedMod, -⟩ := alignUp_eq_some rounded
  obtain ⟨rfl, -⟩ := checkedAdd_eq_some added
  simp only [not_or, not_not] at accepted
  have baseMod := accepted.2.2
  refine ⟨vad, found, baseMod, ?_, Nat.le_of_not_lt inside⟩
  simp only [pageSize] at *
  omega

end Lookups

/-! ## What one operation does -/

section Steps
variable {m next : MemoryManager}

theorem Kept.insert (kept : Kept m) (fresh : VadKept (base, vad))
    (apart : ∀ entry ∈ m.vads, entry.2.end ≤ base ∨ vad.end ≤ entry.1)
    (cursor : nextBase % pageSize = 0 ∧ nextBase ≤ userLimit) :
    Kept { m with vads := insert base vad m.vads, nextBase } where
  ascending := insert_ascending kept.ascending
  entries := by
    intro entry member
    rcases mem_insert member with rfl | old
    · exact fresh
    · exact kept.entries entry old
  apart := by
    have ends : vad.end = base + vad.size := by rw [Vad.end, show vad.base = base from fresh.keyed]
    intro first left second right before
    rcases mem_insert left with rfl | oldLeft <;> rcases mem_insert right with rfl | oldRight
    · exact absurd before (Nat.lt_irrefl _)
    · rcases apart second oldRight with early | late
      · have ends : second.2.end = second.1 + second.2.size := by rw [Vad.end, (kept.entries second oldRight).keyed]
        omega
      · exact late
    · rcases apart first oldLeft with early | late
      · exact early
      · dsimp only at before
        omega
    · exact kept.apart first oldLeft second oldRight before
  next := cursor

theorem Kept.modify (kept : Kept m) (found : m.vads.lookup base = some vad)
    (update : Vad → Vad) (updated : VadKept (base, update vad)) (ends : (update vad).end = vad.end)
    (vads : next.vads = OrderedMap.modify base update m.vads)
      (cursor : next.nextBase = m.nextBase) : Kept next := by
  have present := mem_of_lookup found
  -- an entry is an old one, or the updated one under its key
  have entries (entry : Nat × Vad) (member : entry ∈ OrderedMap.modify base update m.vads) :
      VadKept entry ∧ ∃ old ∈ m.vads, old.1 = entry.1 ∧ entry.2.end = old.2.end := by
    obtain ⟨old, inside, sameKey, same | ⟨atKey, changed⟩⟩ := mem_modify member
    · have whole : entry = old := Prod.ext sameKey.symm same
      rw [whole]
      exact ⟨kept.entries old inside, old, inside, rfl, rfl⟩
    · obtain rfl := kept.ascending.eq_of_key inside present atKey
      have whole : entry = (base, update vad) := Prod.ext sameKey.symm changed
      rw [whole]
      exact ⟨updated, _, inside, rfl, ends⟩
  refine ⟨vads ▸ modify_ascending kept.ascending,
    vads ▸ fun entry member => (entries entry member).1, ?_,
    cursor ▸ kept.next⟩
  rw [vads]
  intro first left second right before
  obtain ⟨-, old, inside, key, stop⟩ := entries first left
  obtain ⟨-, old', inside', key', stop'⟩ := entries second right
  rw [stop, ← key']
  exact kept.apart old inside old' inside' (by rw [key, key']; exact before)

theorem Kept.erase (kept : Kept m) (vads : next.vads = erase base m.vads)
    (cursor : next.nextBase = m.nextBase) : Kept next where
  ascending := vads ▸ erase_ascending kept.ascending base
  entries := vads ▸ fun entry member => kept.entries entry (mem_of_mem_erase member)
  apart := vads ▸ fun first left second right =>
    kept.apart first (mem_of_mem_erase left) second (mem_of_mem_erase right)
  next := cursor ▸ kept.next

/-- What a reservation has checked once it is placed. -/
structure Placed (m : MemoryManager) (base size : Nat) : Prop where
  aligned : base % pageSize = 0
  apart : ∀ entry ∈ m.vads, entry.2.end ≤ base ∨ base + size ≤ entry.1

/-- Room for a reservation. -/
def Free (m : MemoryManager) (base size : Nat) : Prop :=
  Placed m base size ∧ base + size ≤ userLimit

/-- A round takes a candidate that is apart from every descriptor, or moves past one that is not. -/
theorem freeBaseFrom_round (kept : Kept m) (fits : candidate + size ≤ userLimit) :
    m.freeBaseFrom size (rounds + 1) candidate = .ok candidate ∧
      (∀ entry ∈ m.vads, entry.2.end ≤ candidate ∨ candidate + size ≤ entry.1) ∨
    ∃ entry ∈ m.vads, entry.1 < candidate + size ∧ candidate < entry.2.end ∧
      m.freeBaseFrom size (rounds + 1) candidate = m.freeBaseFrom size rounds entry.2.end := by
  have word : checkedAdd candidate size = some (candidate + size) :=
    if_pos (fits.trans_lt (by decide))
  rw [freeBaseFrom, word, require, ok_bind, refuse_of_not (Nat.not_lt.mpr fits)]
  cases last : (m.vads.filter fun entry => entry.1 < candidate + size).getLast? with
  | none =>
    refine .inl ⟨rfl, fun entry member => .inr (Nat.le_of_not_lt fun before => ?_)⟩
    have none := List.getLast?_eq_none_iff.mp last
    exact List.filter_eq_nil_iff.mp none entry member (decide_eq_true before)
  | some final =>
    obtain ⟨present, starts⟩ := List.mem_filter.mp (List.mem_of_getLast? last)
    dsimp only
    split
    case isTrue past => exact .inr ⟨final, present, of_decide_eq_true starts, past, rfl⟩
    case isFalse past =>
      refine .inl ⟨rfl, fun entry member => ?_⟩
      by_cases before : entry.1 < candidate + size
      · -- the last of the earlier descriptors ends in time, and so do those before it
        have inFilter : entry ∈ m.vads.filter fun entry => entry.1 < candidate + size :=
          List.mem_filter.mpr ⟨member, decide_eq_true before⟩
        have order : Ascending (m.vads.filter fun entry => entry.1 < candidate + size) := kept.ascending.filter _
        rcases order.le_getLast inFilter last with same | earlier
        · rw [same]
          exact .inl (Nat.le_of_not_lt past)
        · have follows := kept.apart entry member final present earlier
          have ends : final.2.end = final.1 + final.2.size := by rw [Vad.end, (kept.entries final present).keyed]
          exact .inl (by omega)
      · exact .inr (Nat.le_of_not_lt before)

/-- The base that the search finds has room, at the candidate or behind it. -/
theorem freeBaseFrom_eq_ok (kept : Kept m) (aligned : candidate % pageSize = 0)
    (found : m.freeBaseFrom size rounds candidate = .ok base) :
    candidate ≤ base ∧ Free m base size := by
  induction rounds generalizing candidate with
  | zero => cases found
  | succ rounds ih =>
    by_cases fits : candidate + size ≤ userLimit
    · rcases freeBaseFrom_round kept fits with ⟨done, apart⟩ | ⟨entry, present, -, past, same⟩
      · obtain rfl : candidate = base := ok.inj (done.symm.trans found)
        exact ⟨le_rfl, ⟨aligned, apart⟩, fits⟩
      · have entryKept := kept.entries entry present
        have ends : entry.2.end = entry.1 + entry.2.size := by rw [Vad.end, entryKept.keyed]
        have whole : entry.2.end % pageSize = 0 := by
          rw [ends, Nat.add_mod, entryKept.base, entryKept.size]
          rfl
        obtain ⟨behind, free⟩ := ih whole (same ▸ found)
        exact ⟨past.le.trans behind, free⟩
    · rw [freeBaseFrom] at found
      simp only [bind_eq_ok, require_eq_ok, refuse_eq_ok] at found
      obtain ⟨stop, added, -, within, -⟩ := found
      obtain ⟨rfl, -⟩ := checkedAdd_eq_some added
      exact absurd (Nat.le_of_not_lt within) fits

/-- Room from the candidate on is found: every round starts past the one before, so the rounds do not run out. -/
theorem freeBaseFrom_of_free (kept : Kept m) (free : Free m base size) (behind : candidate ≤ base)
    (enough : userLimit < candidate + rounds) :
    ∃ found, m.freeBaseFrom size rounds candidate = .ok found := by
  obtain ⟨placed, below⟩ := free
  induction rounds generalizing candidate with
  | zero => omega
  | succ rounds ih =>
    have fits : candidate + size ≤ userLimit := by omega
    rcases freeBaseFrom_round kept fits with ⟨done, -⟩ | ⟨entry, present, starts, past, same⟩
    · exact ⟨candidate, done⟩
    · rw [same]
      refine ih ?_ (by omega)
      rcases placed.apart entry present with early | late
      · exact early
      · omega

/-- A search that finds nothing answers that there is no memory. -/
theorem freeBaseFrom_error (kept : Kept m) (word : candidate + size < 2 ^ 64)
    (small : userLimit + size < 2 ^ 64)
    (fails : ∀ base, m.freeBaseFrom size rounds candidate ≠ .ok base) :
    m.freeBaseFrom size rounds candidate = .error .noMemory := by
  induction rounds generalizing candidate with
  | zero => rfl
  | succ rounds ih =>
    by_cases fits : candidate + size ≤ userLimit
    · rcases freeBaseFrom_round kept fits with ⟨done, -⟩ | ⟨entry, present, -, -, same⟩
      · exact absurd done (fails candidate)
      · rw [same] at fails ⊢
        have limit := (kept.entries entry present).limit
        exact ih (by omega) fails
    · rw [freeBaseFrom, show checkedAdd candidate size = _ from if_pos word, require, ok_bind,
        refuse_of (Nat.lt_of_not_le fits)]

theorem not_overlaps (clear : ¬ m.overlaps base size) (fits : base + size < 2 ^ 64) :
    ∀ entry ∈ m.vads, entry.2.end ≤ base ∨ base + size ≤ entry.2.base := by
  intro entry member
  rw [Bool.not_eq_true, MemoryManager.overlaps, List.any_eq_false] at clear
  have test := clear entry member
  simp only [Bool.and_eq_true, decide_eq_true_eq, not_and] at test
  by_cases reaches : base < entry.2.end
  · have stop : ¬ entry.2.base < saturatingAdd base size := test reaches
    rw [saturatingAdd] at stop
    exact .inr (by omega)
  · exact .inl (Nat.le_of_not_lt reaches)

theorem Placed.absent (placed : Placed m base size) (kept : Kept m) (nonempty : 0 < size) :
    m.vads.lookup base = none := by
  cases found : m.vads.lookup base with
  | none => rfl
  | some vad =>
    have member := mem_of_lookup found
    have old := kept.entries _ member
    have ends : vad.end = base + vad.size := by rw [Vad.end, show vad.base = base from old.keyed]
    have positive := old.nonempty
    rcases placed.apart _ member with early | late
    · dsimp only at early positive
      omega
    · omega

/-- The base of a reservation, and the cursor that it leaves. -/
theorem chooseBase_eq_ok (kept : Kept m) (fits : base + size < 2 ^ 64)
    (chosen : m.chooseBase request size = .ok (base, next)) :
    Placed m base size ∧ ∃ cursor, next = { m with nextBase := cursor } ∧
      (cursor = m.nextBase ∨ cursor = base + size) := by
  cases request with
  | some =>
    simp only [chooseBase, bind_eq_ok, refuse_eq_ok] at chosen
    obtain ⟨-, accepted, -, clear, rfl, rfl⟩ := chosen
    simp only [not_or, not_not] at accepted
    refine ⟨⟨accepted.2, fun entry member => ?_⟩, m.nextBase, rfl, .inl rfl⟩
    have apart := not_overlaps clear fits entry member
    rwa [(kept.entries entry member).keyed] at apart
  | none =>
    simp only [chooseBase, MemoryManager.findFreeBase, bind_eq_ok, pure_eq, ok.injEq,
      mk.injEq] at chosen
    obtain ⟨candidate, found, rfl, rfl⟩ := chosen
    obtain ⟨-, placed, -⟩ := freeBaseFrom_eq_ok kept kept.next.1 found
    exact ⟨placed, candidate + size, rfl, .inr rfl⟩

/-- A new descriptor without pages, apart from the others. -/
theorem reserve_eq_ok (kept : Kept m) (done : m.reserve request size = .ok (base, next)) :
    ∃ aligned nextBase, alignUp size = some aligned ∧ 0 < aligned ∧ m.vads.lookup base = none ∧
      VadKept (base, ⟨base, aligned, .readwrite, [], [], none⟩) ∧ Kept next ∧
      next = { m with
        vads := insert base ⟨base, aligned, .readwrite, [], [], none⟩ m.vads
        nextBase } := by
  rw [MemoryManager.reserve] at done
  simp only [bind_eq_ok, require_eq_ok, refuse_eq_ok] at done
  obtain ⟨-, asked, aligned, rounded, ⟨chosen, moved⟩, choice, stop, added, -, below, rfl,
    rfl⟩ := done
  obtain ⟨wholeSize, atLeast⟩ := alignUp_eq_some rounded
  obtain ⟨rfl, fits⟩ := checkedAdd_eq_some added
  obtain ⟨placed, cursor, rfl, moved⟩ := chooseBase_eq_ok kept fits choice
  have nonempty : 0 < aligned := by
    simp only [not_or] at asked
    omega
  have baseMod := placed.aligned
  have fresh : VadKept (chosen, ⟨chosen, aligned, .readwrite, [], [], none⟩) :=
    { keyed := rfl
      base := baseMod
      size := wholeSize
      nonempty
      limit := Nat.le_of_not_lt below
      ascending := List.Pairwise.nil
      pages := fun _ member => absurd member List.not_mem_nil
      mapped := fun some => absurd some Bool.false_ne_true }
  have next :
      max cursor (chosen + aligned) % pageSize = 0 ∧ max cursor (chosen + aligned) ≤ userLimit := by
    have next := kept.next
    simp only [pageSize] at *
    omega
  exact ⟨aligned, _, rounded, nonempty, placed.absent kept nonempty, fresh,
    kept.insert fresh placed.apart next, rfl⟩

/-- New pages of a descriptor that lie inside it. -/
theorem VadKept.insertAll {base : Nat} (kept : VadKept (base, vad)) {pages : List Nat}
    (inside : ∀ page ∈ pages, page % pageSize = 0 ∧ base ≤ page ∧ page < vad.end)
    (value protection : Protection) (mapped : mapping.isSome →
      insertAll pages value vad.pages ≠ []) :
    VadKept (base, { vad with
      pages := insertAll pages value vad.pages
      privatePages := bytes
      protection
      mapping }) where
  keyed := kept.keyed
  base := kept.base
  size := kept.size
  nonempty := kept.nonempty
  limit := kept.limit
  ascending := insertAll_ascending kept.ascending pages value
  pages := by
    intro page member
    rcases mem_insertAll member with ⟨fresh, -⟩ | old
    · exact inside page.1 fresh
    · exact kept.pages page old
  mapped := mapped

/-- The descriptor of a validated range, and the pages of the range in it. -/
structure RangeOf (m : MemoryManager) (range : Nat × Nat) (vad : Vad) : Prop where
  there : m.vads.lookup vad.base = some vad
  kept : VadKept (vad.base, vad)
  inside : ∀ page ∈ rangePages range, page % pageSize = 0 ∧ vad.base ≤ page ∧ page < vad.end
  length : (rangePages range).length * pageSize ≤ vad.size

theorem Kept.rangeOf (kept : Kept m) (valid : m.validateRange base size = .ok range)
    (found : m.findVad range.1 = .ok vad) : RangeOf m range vad := by
  obtain ⟨other, foundAgain, inVad⟩ := validateRange_eq_ok valid
  obtain rfl : other = vad := ok.inj (foundAgain.symm.trans found)
  obtain ⟨key, member, start, -⟩ := findVad_eq_ok found
  obtain ⟨rfl, there⟩ := kept.lookup_base member
  refine ⟨there, kept.entries _ member, fun page inRange => ?_, ?_⟩
  · obtain ⟨whole, after, before⟩ := mem_rangePages inVad.start inVad.stop inRange
    exact ⟨whole, Nat.le_trans start after, Nat.lt_of_lt_of_le before inVad.inside⟩
  · have ends : other.end = other.base + other.size := rfl
    have inside := inVad.inside
    rw [length_rangePages inVad.start inVad.stop]
    omega

def Vad.committed (vad : Vad) (pages : List Nat) (protection : Protection) : Vad :=
  { vad with
    pages := OrderedMap.insertAll pages protection vad.pages
    privatePages := OrderedMap.insertAll pages (List.replicate pageSize 0) vad.privatePages
    protection }

theorem commit_eq_ok (kept : Kept m) (done : m.commit base size protection = .ok ((), next)) :
    ∃ range vad, RangeOf m range vad ∧ vad.mapping = none ∧
      (∀ page ∈ rangePages range, vad.pages.lookup page = none) ∧
      saturatingAdd m.committedBytes ((rangePages range).length * pageSize) ≤ m.maxCommit ∧
      VadKept (vad.base, vad.committed (rangePages range) protection) ∧
      next = { m with
        vads := OrderedMap.modify vad.base (fun vad => vad.committed (rangePages range) protection) m.vads
        committedBytes := m.committedBytes + (rangePages range).length * pageSize } := by
  rw [MemoryManager.commit] at done
  simp only [bind_eq_ok, require_eq_ok, refuse_eq_ok, pure_eq, ok.injEq, mk.injEq, true_and] at done
  obtain ⟨-, -, range, valid, vad, found, -, unmapped, -, fresh, charge, cost, -, within, -, -,
    rfl⟩ := done
  have target := kept.rangeOf valid found
  have absent (page : Nat) (inRange : page ∈ rangePages range) : vad.pages.lookup page = none := by
    have empty := List.length_eq_zero_iff.mp (not_not.mp fresh)
    exact not_isSome_iff_eq_none.mp (List.filter_eq_nil_iff.mp empty page inRange)
  obtain ⟨-, rfl⟩ : _ ∧ _ = charge := by
    simpa only [checkedMul, ite_none_right_eq_some, some.injEq] using cost
  have updated : VadKept (vad.base, vad.committed (rangePages range) protection) :=
    target.kept.insertAll target.inside protection protection fun mapped => absurd mapped unmapped
  exact ⟨range, vad, target, not_isSome_iff_eq_none.mp unmapped, absent, Nat.le_of_not_lt within,
    updated, rfl⟩

def Vad.decommitted (vad : Vad) (pages : List Nat) : Vad :=
  { vad with
    pages := OrderedMap.eraseAll pages vad.pages
    privatePages := OrderedMap.eraseAll pages vad.privatePages }

theorem decommit_eq_ok (kept : Kept m) (done : m.decommit base size = .ok ((), next)) :
    ∃ range vad, RangeOf m range vad ∧ vad.mapping = none ∧
      VadKept (vad.base, vad.decommitted (rangePages range)) ∧
      next = { m.forget (rangePages range) with
        vads := OrderedMap.modify vad.base (fun vad => vad.decommitted (rangePages range)) m.vads
        committedBytes := m.committedBytes -
          ((rangePages range).filter fun page => (vad.pages.lookup page).isSome).length * pageSize } := by
  rw [MemoryManager.decommit] at done
  simp only [bind_eq_ok, refuse_eq_ok, pure_eq, ok.injEq, mk.injEq, true_and] at done
  obtain ⟨range, valid, vad, found, -, unmapped, -, -, -, -, rfl⟩ := done
  have target := kept.rangeOf valid found
  have emptied : VadKept (vad.base, vad.decommitted (rangePages range)) :=
    { target.kept with
      ascending := eraseAll_ascending target.kept.ascending
      pages := fun page member => target.kept.pages page (mem_of_mem_eraseAll member)
      mapped := fun mapped => absurd mapped unmapped }
  exact ⟨range, vad, target, not_isSome_iff_eq_none.mp unmapped, emptied, rfl⟩

def Vad.protected (vad : Vad) (pages : List Nat) (protection : Protection) : Vad :=
  { vad with
    protection
    pages := OrderedMap.insertAll pages protection vad.pages }

theorem protect_eq_ok (kept : Kept m) (done : m.protect base size protection = .ok (count, next)) :
    ∃ range vad, RangeOf m range vad ∧ (∀ page ∈ rangePages range, (vad.pages.lookup page).isSome) ∧
      VadKept (vad.base, vad.protected (rangePages range) protection) ∧
      next = { m with
        vads := OrderedMap.modify vad.base (fun vad => vad.protected (rangePages range) protection) m.vads } := by
  rw [MemoryManager.protect] at done
  simp only [bind_eq_ok, refuse_eq_ok, expect_eq_ok] at done
  obtain ⟨-, -, range, valid, vad, found, again, there, -, present, -, rfl⟩ := done
  have target := kept.rangeOf valid found
  obtain rfl : vad = again := some.inj (target.there.symm.trans there)
  have all (page : Nat) (inRange : page ∈ rangePages range) : (vad.pages.lookup page).isSome := by
    simp only [List.any_eq_true, not_exists, not_and] at present
    cases value : vad.pages.lookup page with
    | some _ => rfl
    | none => exact absurd (by rw [value]; rfl) (present page inRange)
  have same := length_insertAll_of_present target.kept.ascending protection all
  have views : vad.mapping.isSome → insertAll (rangePages range) protection vad.pages ≠ [] := by
    intro mapped empty
    rw [empty] at same
    exact target.kept.mapped mapped (List.length_eq_zero_iff.mp same.symm)
  exact ⟨range, vad, target, all,
    target.kept.insertAll target.inside protection protection views, rfl⟩

def Vad.viewed (vad : Vad) (pages : List Nat) (protection : Protection) (mapping : Mapping) : Vad :=
  { vad with
    protection
    pages := OrderedMap.insertAll pages protection vad.pages
    mapping := some mapping }

def viewPages (base aligned : Nat) : List Nat :=
  (List.range (aligned / pageSize)).map fun index => base + index * pageSize

theorem mapSection_eq_ok (kept : Kept m) {id : Nat}
    (done : m.mapSection id request size protection cow = .ok (base, next)) :
    ∃ record aligned between, m.sections.lookup id = some record ∧ aligned ≤ record.size ∧
      m.reserve request aligned = .ok (base, between) ∧
      between.vads.lookup base = some ⟨base, aligned, .readwrite, [], [], none⟩ ∧
      VadKept (base, Vad.viewed ⟨base, aligned, .readwrite, [], [], none⟩ (viewPages base aligned) protection ⟨id, 0, cow⟩) ∧
      next = { between with
        vads := OrderedMap.modify base (fun vad => vad.viewed (viewPages base aligned) protection ⟨id, 0, cow⟩) between.vads
        mappedBytes := between.mappedBytes + aligned } := by
  rw [MemoryManager.mapSection] at done
  simp only [bind_eq_ok, require_eq_ok, refuse_eq_ok] at done
  obtain ⟨-, -, record, stored, -, some, -, -, aligned, rounded, -, small, ⟨chosen, between⟩,
    reserved, fresh, there, rfl,
    rfl⟩ := done
  obtain ⟨again, nextBase, roundedAgain, -, -, freshKept, -, rfl⟩ := reserve_eq_ok kept reserved
  obtain ⟨wholeSize, atLeast⟩ := alignUp_eq_some rounded
  obtain rfl : again = aligned := alignUp_whole wholeSize roundedAgain
  have placed : (insert chosen ⟨chosen, again, .readwrite, [], [], none⟩ m.vads).lookup chosen =
      Option.some ⟨chosen, again, .readwrite, [], [], none⟩ := by rw [lookup_insert, if_pos rfl]
  have inside (page : Nat) (member : page ∈ viewPages chosen again) :
      page % pageSize = 0 ∧ chosen ≤ page ∧ page < chosen + again := by
    obtain ⟨index, below, rfl⟩ := List.mem_map.mp member
    have bound := List.mem_range.mp below
    have wholeBase := freshKept.base
    simp only [pageSize] at *
    omega
  have views :
      insertAll (viewPages chosen again) protection ([] : List (Nat × Protection)) ≠ [] := by
    have distinct : (viewPages chosen again).Nodup := by
      refine List.Nodup.map (fun a b same => ?_) List.nodup_range
      exact Nat.eq_of_mul_eq_mul_right (show 0 < pageSize by decide) (Nat.add_left_cancel same)
    have counted : (insertAll (viewPages chosen again) protection ([] : List (Nat × Protection))).length =
        0 + (viewPages chosen again).length := length_insertAll_of_absent distinct fun _ _ => rfl
    intro empty
    rw [empty] at counted
    simp only [viewPages, List.length_nil, List.length_map, List.length_range, pageSize] at *
    omega
  exact ⟨record, again, _, stored, Nat.le_of_not_lt small, reserved, placed,
    freshKept.insertAll inside protection protection fun _ => views, rfl⟩

theorem release_eq_ok (done : m.release base size = .ok (released, next)) :
    ∃ vad, m.vads.lookup base = some vad ∧ (size = 0 ∨ size = vad.size) ∧
      next = { m.forget (vad.pages.map fst) with
        vads := erase base m.vads
        committedBytes := m.committedBytes - vad.pages.length * pageSize
        mappedBytes := m.mappedBytes - if vad.mapping.isSome then vad.size else 0 } := by
  rw [MemoryManager.release] at done
  simp only [bind_eq_ok, require_eq_ok, refuse_eq_ok] at done
  obtain ⟨vad, found, -, accepted, -, rfl⟩ := done
  refine ⟨vad, found, ?_, rfl⟩
  rw [not_and, not_not] at accepted
  exact or_iff_not_imp_left.mpr accepted

theorem unmapSection_eq_ok (done : m.unmapSection base = .ok (released, next)) :
    m.release base 0 = .ok (released, next) := by
  rw [MemoryManager.unmapSection] at done
  simp only [bind_eq_ok] at done
  obtain ⟨-, -, -, -, released⟩ := done
  exact released

theorem createSection_eq_ok {id : Nat} (done : m.createSection size initial = .ok (id, next)) :
    initial.length ≤ size ∧ next = { m with
      nextSection := m.nextSection + 1
      sections := insert m.nextSection ⟨size, initial ++ List.replicate (size - initial.length) 0⟩ m.sections } := by
  rw [MemoryManager.createSection] at done
  simp only [bind_eq_ok, refuse_eq_ok, not_or] at done
  obtain ⟨-, ⟨-, fits⟩, -, -, -, -, -, rfl⟩ := done
  exact ⟨Nat.le_of_not_lt fits, rfl⟩

theorem deleteSection_eq_ok {id : Nat} (done : m.deleteSection id = .ok ((), next)) :
    (∀ entry ∈ m.vads, ∀ mapping, entry.2.mapping = some mapping → mapping.sectionId ≠ id) ∧
      next = { m with sections := erase id m.sections } := by
  rw [MemoryManager.deleteSection] at done
  simp only [bind_eq_ok, refuse_eq_ok, pure_eq, ok.injEq, mk.injEq, true_and] at done
  obtain ⟨-, unused, -, -, rfl⟩ := done
  refine ⟨fun entry member mapping mapped same => unused ?_, rfl⟩
  refine List.any_eq_true.mpr ⟨entry, member, ?_⟩
  rw [mapped, any_some, same]
  exact beq_self_eq_true id

end Steps

/-! ## Reads and writes -/

/-- A descriptor without the bytes of its pages. -/
def strip (entry : Nat × Vad) : Nat × Vad := (entry.1, { entry.2 with privatePages := [] })

/-- What reads and writes leave alone. -/
def layout (m : MemoryManager) : Nat × Nat × Nat × List (Nat × Vad) :=
  (m.committedBytes, m.maxCommit, m.nextBase, m.vads.map strip)

section Layout
variable {next : MemoryManager}

theorem layout_modify (bytes : Vad → List (Nat × List U8)) :
    layout { m with vads := OrderedMap.modify base (fun vad => { vad with privatePages := bytes vad }) m.vads } =
      layout m := by
  have same : (OrderedMap.modify base (fun vad => { vad with privatePages := bytes vad }) m.vads).map strip =
      m.vads.map strip := by
    rw [OrderedMap.modify, List.map_map]
    refine List.map_congr_left fun entry _ => ?_
    rw [Function.comp_apply]
    split <;> rfl
  rw [layout, same]
  rfl

theorem vadKept_of_strip (same : strip old = strip entry) (kept : VadKept old) : VadKept entry := by
  obtain ⟨key, base, size, protection, pages, bytes, mapping⟩ := old
  obtain ⟨key', base', size', protection', pages', bytes', mapping'⟩ := entry
  simp only [strip, mk.injEq, Vad.mk.injEq, true_and] at same
  obtain ⟨rfl, rfl, rfl, rfl, rfl, rfl⟩ := same
  exact { kept with }

theorem Kept.of_layout (kept : Kept m) (same : layout next = layout m) : Kept next := by
  simp only [layout, mk.injEq] at same
  obtain ⟨-, -, cursor, vads⟩ := same
  have keys (list : List (Nat × Vad)) : Ascending list ↔ Ascending (list.map strip) := by
    rw [Ascending, Ascending, List.pairwise_map]
    rfl
  have old (entry : Nat × Vad) (member : entry ∈ next.vads) :
      ∃ before ∈ m.vads, strip before = strip entry := by
    have stripped := List.mem_map_of_mem (f := strip) member
    rw [vads] at stripped
    exact List.mem_map.mp stripped
  refine ⟨(keys _).mpr (vads ▸ (keys _).mp kept.ascending), fun entry member => ?_, ?_,
    cursor ▸ kept.next⟩
  · obtain ⟨before, inside, same⟩ := old entry member
    exact vadKept_of_strip same (kept.entries before inside)
  · intro first left second right before
    obtain ⟨first', left', same⟩ := old first left
    obtain ⟨second', right', same'⟩ := old second right
    have ends : first'.2.end = first.2.end := congrArg (fun entry => entry.2.end) same
    have key : first'.1 = first.1 := congrArg (fun entry => entry.1) same
    have key' : second'.1 = second.1 := congrArg (fun entry => entry.1) same'
    rw [← ends, ← key']
    exact kept.apart first' left' second' right' (by rw [key, key']; exact before)

end Layout

namespace MemoryManager
open Exec

theorem touch_layout : Relates (Same layout) (touch page) := by
  refine .bind .get fun m => .ite (.pure _) ?_
  refine .bind (.read _) fun kept => ?_
  obtain ⟨resident, order⟩ := kept
  exact .modify fun _ => rfl

theorem writePage_layout : Relates (Same layout) (writePage vadBase page offset data) := by
  refine .bind (.read _) fun vad => ?_
  cases vad.mapping with
  | some =>
    refine .ite ?_ ?_
    · exact .bind (.read _) fun source => .modify fun m => layout_modify _
    · refine .bind (.read _) fun record => .ite (.modify fun m => rfl) (.throw _)
  | none => exact .bind (.read _) fun _ => .modify fun m => layout_modify _

theorem readPages_layout :
    Relates (Same layout) (readPages vadBase stop rounds cursor output) := by
  induction rounds generalizing cursor output with
  | zero => exact .pure _
  | succ rounds ih =>
    refine .ite (.bind (.read _) fun bytes => ?_) (.pure _)
    exact .bind touch_layout fun _ => ih

theorem writePages_layout :
    Relates (Same layout) (writePages vadBase stop data rounds cursor written) := by
  induction rounds generalizing cursor written with
  | zero => exact .pure _
  | succ rounds ih =>
    refine .ite (.bind writePage_layout fun _ => ?_) (.pure _)
    exact .bind touch_layout fun _ => ih

theorem read_layout : Relates (Same layout) (read address length) := by
  refine .ite (.pure _) ?_
  refine .bind (.read _) fun stop => .bind (.read _) fun _ => ?_
  exact .bind (.read _) fun vad => readPages_layout

theorem write_layout : Relates (Same layout) (write address data) := by
  refine .ite (.pure _) ?_
  refine .bind (.read _) fun stop => .bind (.read _) fun _ => ?_
  exact .bind (.read _) fun vad => writePages_layout

end MemoryManager

/-! ## Whole runs -/

/-- What an accepted call establishes holds after any call that found it. -/
theorem settle_carries {P : MemoryManager → Prop} (holds : P m)
    {result : Result Status (α × MemoryManager)}
    (done : ∀ value next, result = .ok (value, next) → P next) : P (settle m result) := by
  cases result with
  | ok pair => exact done pair.1 pair.2 rfl
  | error _ | panic => exact holds

theorem layout_run (same : Exec.Relates (Exec.Same layout) f) :
    layout ((f.run m).state?.getD m) = layout m := by
  cases after : (f.run m).state? with
  | none => rfl
  | some next => exact same m next after

namespace Operation

theorem apply_kept (kept : Kept m) (operation : Operation) : Kept (operation.apply m) := by
  cases operation
  case read => exact kept.of_layout (layout_run MemoryManager.read_layout)
  case write => exact kept.of_layout (layout_run MemoryManager.write_layout)
  all_goals refine settle_carries kept fun value next done => ?_
  case reserve =>
    obtain ⟨_, _, _, _, _, _, after, _⟩ := reserve_eq_ok kept done
    exact after
  case commit base size protection =>
    obtain ⟨range, vad, target, -, -, -, updated, rfl⟩ := commit_eq_ok kept done
    exact kept.modify target.there
      (fun vad => vad.committed (rangePages range) protection) updated rfl rfl rfl
  case decommit =>
    obtain ⟨range, vad, target, -, updated, rfl⟩ := decommit_eq_ok kept done
    exact kept.modify target.there (fun vad => vad.decommitted (rangePages range)) updated rfl rfl rfl
  case protect base size protection =>
    obtain ⟨range, vad, target, -, updated, rfl⟩ := protect_eq_ok kept done
    exact kept.modify target.there (fun vad => vad.protected (rangePages range) protection) updated rfl rfl rfl
  case release =>
    obtain ⟨vad, -, -, rfl⟩ := release_eq_ok done
    exact kept.erase rfl rfl
  case createSection =>
    obtain ⟨-, rfl⟩ := createSection_eq_ok done
    exact kept.of_layout rfl
  case deleteSection id =>
    obtain ⟨-, rfl⟩ := deleteSection_eq_ok done
    exact kept.of_layout rfl
  case mapSection id base size protection cow =>
    obtain ⟨record, aligned, between, -, -, reserved, placed, updated, rfl⟩ :=
      mapSection_eq_ok kept done
    obtain ⟨_, _, _, _, _, _, keptBetween, _⟩ := reserve_eq_ok kept reserved
    exact keptBetween.modify placed (fun vad => vad.viewed (viewPages value aligned) protection ⟨id, 0, cow⟩) updated
      rfl rfl rfl
  case unmapSection =>
    obtain ⟨vad, -, -, rfl⟩ := release_eq_ok (unmapSection_eq_ok done)
    exact kept.erase rfl rfl

theorem new_kept : Kept (MemoryManager.new maxCommit maxSections maxWorkingSet) := by
  refine ⟨List.Pairwise.nil, fun _ none => ?_, fun _ none => ?_, ?_⟩
  · cases none
  · cases none
  · exact (by decide : defaultBase % pageSize = 0 ∧ defaultBase ≤ userLimit)

end Operation

/-! ## Free gaps -/

/-- The descriptors are kept, and memory is refused only where no gap of the rounded size is free. -/
structure Complete (m : MemoryManager) (size : Nat) : Prop where
  kept : Kept m
  refused : m.reserve none size = .error .noMemory → ∀ aligned, alignUp size = some aligned →
    ∀ base, ¬ Free m base aligned

theorem reserve_error {m : MemoryManager} (accepted : ¬ (size = 0 ∨ maxRegionSize < size))
    (rounded : alignUp size = some aligned)
    (failed : m.freeBaseFrom aligned (userLimit + 1) m.nextBase = .error reason) :
    m.reserve none size = .error reason := by
  rw [MemoryManager.reserve, refuse_of_not accepted, rounded, require, ok_bind, chooseBase,
    MemoryManager.findFreeBase, failed]
  rfl

/-- A gap is found at the cursor or behind it. -/
theorem reserve_complete_iff (maxCommit maxSections maxWorkingSet : Nat)
    (operations : List Operation) (size : Nat) :
    let m := Operation.run (.new maxCommit maxSections maxWorkingSet) operations
    Complete m size ↔ ((size = 0 ∨ maxRegionSize < size) ∨ ∀ aligned, alignUp size = some aligned →
      ∀ base, Free m base aligned → ∃ base, m.nextBase ≤ base ∧ Free m base aligned) := by
  intro m
  have kept : Kept m :=
    List.foldlRecOn operations Operation.apply Operation.new_kept fun _ kept operation _ =>
      operation.apply_kept kept
  rw [or_iff_not_imp_left]
  constructor
  · intro complete accepted aligned rounded base free
    by_contra none
    have small : userLimit + aligned < 2 ^ 64 := by
      simp only [alignUp, checkedAdd, map_eq_some_iff, ite_none_right_eq_some, some.injEq] at rounded
      obtain ⟨_, ⟨-, rfl⟩, rfl⟩ := rounded
      simp only [pageSize, userLimit, maxRegionSize] at *
      omega
    have word : m.nextBase + aligned < 2 ^ 64 :=
      lt_of_le_of_lt (Nat.add_le_add_right kept.next.2 aligned) small
    have fails (found : Nat) (done : m.freeBaseFrom aligned (userLimit + 1) m.nextBase = .ok found) : False :=
      none ⟨found, freeBaseFrom_eq_ok kept kept.next.1 done⟩
    exact complete.refused (reserve_error accepted rounded (freeBaseFrom_error kept word small fails)) aligned rounded base free
  · intro room
    refine ⟨kept, fun refused aligned rounded base free => ?_⟩
    by_cases accepted : size = 0 ∨ maxRegionSize < size
    · rw [MemoryManager.reserve, refuse_of accepted] at refused
      cases refused
    obtain ⟨later, behind, free⟩ := room accepted aligned rounded base free
    obtain ⟨found, done⟩ := freeBaseFrom_of_free kept free behind (Nat.le_add_left _ _)
    obtain ⟨-, -, below⟩ := freeBaseFrom_eq_ok kept kept.next.1 done
    have word : checkedAdd found aligned = some (found + aligned) :=
      if_pos (below.trans_lt (by decide))
    rw [MemoryManager.reserve, refuse_of_not accepted, rounded, require, ok_bind, chooseBase,
      MemoryManager.findFreeBase, done, ok_bind, pure_eq] at refused
    simp only [word, require, ok_bind, refuse_of_not (Nat.not_lt.mpr below)] at refused
    cases refused

/-- Behind a reservation at the end of the range nothing is found. -/
theorem reserve_misses_gap :
    ¬ Complete (Operation.run (.new 0 0 0) [.reserve (some (userLimit - 0x1000)) 0x1000]) 0x1000 := by
  intro complete
  have rounded : alignUp 0x1000 = some 0x1000 := by decide
  refine complete.refused (reserve_error (by decide) rounded ?_) _ rounded 0x10000
    ⟨⟨by decide, by decide⟩, by decide⟩
  have cursor : (Operation.run (.new 0 0 0) [.reserve (some (userLimit - 0x1000)) 0x1000]).nextBase = userLimit := by decide
  have word : checkedAdd userLimit 0x1000 = some (userLimit + 0x1000) := by decide
  rw [freeBaseFrom, cursor, word, require, ok_bind, refuse_of (by decide)]

end Casa.Casak
