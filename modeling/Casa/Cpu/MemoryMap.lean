import Casa.Cpu.PageTable

/-! The loader's operations on guest memory (cpu/memory.rs). They walk a range
page by page, creating pages as they go; the walk is described by what it does to
the page of each number, and from that by what it does to each byte. -/
namespace Casa.Cpu
open Effect MachineInt BitVec List Nat
open BitVec (ofNat)

namespace MemoryPage

def fillZero (page : MemoryPage) (start len : Nat) : MemoryPage :=
  { page with bytes := fun i => if start ≤ i ∧ i < start + len then 0 else page.bytes i }

def fillZeroUnmapped (page : MemoryPage) (start len : Nat) : MemoryPage :=
  { page with
    bytes := fun i =>
      if (start ≤ i ∧ i < start + len) ∧ page.isMapped i = false then 0 else page.bytes i }

end MemoryPage

namespace MemoryImage

/-- `while remaining != 0`: one chunk of the range after the other, on a page
that is created when it is absent. -/
def forChunks (update : Nat → Chunk → MemoryPage → MemoryPage) :
    Nat → U64 → Nat → Nat → MemoryImage → MemoryImage
  | 0, _, _, _, m => m
  | fuel + 1, address, done, remaining, m =>
    if remaining = 0 then m
    else
      let chunk := chunkAt address remaining
      forChunks update fuel (address + ofNat 64 chunk.len) (done + chunk.len)
        (remaining - chunk.len) (m.updatePage chunk.pageBase (update done chunk))

def mapBytes (m : MemoryImage) (address : U64) (bytes : List U8) : MemoryImage :=
  forChunks (fun done chunk page =>
      (page.writeBytes chunk.offset ((bytes.drop done).take chunk.len)).markMappedRange
        chunk.offset chunk.len)
    bytes.length address 0 bytes.length m

def mapZeroedIfUnmapped (m : MemoryImage) (address : U64) (len : Nat) : MemoryImage :=
  forChunks (fun _ chunk page =>
      (page.fillZeroUnmapped chunk.offset chunk.len).markMappedRange chunk.offset chunk.len)
    len address 0 len m

/-- Whole pages are committed, whatever part of them the range covers. -/
def commitZeroedPages (m : MemoryImage) (address : U64) (len : Nat) : MemoryImage :=
  forChunks (fun _ _ page => if page.fullyMapped then page else page.markFullyMapped)
    len address 0 len m

/-- The loop of `zero_range` runs on the address, up to a saturated end. -/
def zeroChunks : Nat → U64 → U64 → MemoryImage → MemoryImage
  | 0, _, _, m => m
  | fuel + 1, current, stop, m =>
    if current.ult stop then
      let chunk := chunkAt current (stop - current).toNat
      zeroChunks fuel (current + ofNat 64 chunk.len) stop
        (m.updatePage chunk.pageBase fun page =>
          (page.fillZero chunk.offset chunk.len).markMappedRange chunk.offset chunk.len)
    else m

def zeroRange (m : MemoryImage) (address : U64) (len : Nat) : MemoryImage :=
  if len = 0 then m
  else
    let stop := saturatingAdd address (ofNat 64 len)
    zeroChunks (stop - address).toNat address stop m

/-- The unchecked stores of the loader map what they write. -/
def writeFixed (m : MemoryImage) (address : U64) (bytes : List U8) : MemoryImage :=
  let pageBase := address &&& memoryPageMask
  let pageOffset := (address - pageBase).toNat
  if pageOffset + bytes.length ≤ memoryPageSize then
    m.updatePage pageBase fun page =>
      (page.writeBytes pageOffset bytes).markMappedRange pageOffset bytes.length
  else m.mapBytes address bytes

def unmapPages : Nat → U64 → U64 → MemoryImage → MemoryImage
  | 0, _, _, m => m
  | fuel + 1, pageBase, endPage, m =>
    let m := m.removePage pageBase
    if pageBase = endPage then m
    else
      match checkedAdd pageBase (ofNat 64 memoryPageSize) with
      | none => m
      | some next => unmapPages fuel next endPage m

/-- Whole pages are removed, at most those up to the top of the address space. -/
def unmapRange (m : MemoryImage) (address : U64) (len : Nat) : MemoryImage :=
  if len = 0 then m
  else
    let startPage := address &&& memoryPageMask
    let stop := address + ofNat 64 len
    let endPage := if stop = 0 then memoryPageMask else (stop - 1) &&& memoryPageMask
    unmapPages ((2 ^ 64 - startPage.toNat) / memoryPageSize) startPage endPage m

/-- The sizes of the direct window that the store tries to reserve: 256 GiB and,
when the host refuses, 128 GiB. -/
inductive FlatWindow where
  | preferred
  | minimum

def FlatWindow.chunks : FlatWindow → Nat
  | .preferred => 2 ^ 17
  | .minimum => 2 ^ 16

def empty (window : FlatWindow) : MemoryImage where
  pages := []
  highPageLookup _ := none
  pageDirectory := ⟨window.chunks, fun _ => pageDirectoryMissing, []⟩
  vm := none

theorem empty_sound : (empty window).Sound where
  directory := by
    have closed : ∀ chunk t, PageDirectory.entryIndex ((empty window).pageDirectory.top chunk) ≠ some t :=
      fun chunk t found => nomatch PageDirectory.entryIndex_missing.symm.trans found
    refine ⟨?_, fun chunk _ t found => absurd found (closed chunk t),
      fun c _ d _ t found => absurd found (closed c t), fun t bound => nomatch bound⟩
    cases window
    · exact le_rfl
    · exact Nat.pow_le_pow_right (by decide) (by decide)
  aligned _ member := nomatch member
  tracked _ _ found := nomatch found
  pages _ member := nomatch member

/-! ## Page numbers -/

def pageAt (number : Nat) : U64 := ofNat 64 (4096 * number)

theorem pageAt_toNat (inside : number < 2 ^ 52) : (pageAt number).toNat = 4096 * number := by
  rw [pageAt, toNat_ofNat]
  omega

theorem pageAt_aligned (number : Nat) : pageAt number &&& memoryPageMask = pageAt number := by
  apply eq_of_toNat_eq
  rw [pageBase_toNat, pageAt, toNat_ofNat]
  omega

theorem pageAt_injective (left : a < 2 ^ 52) (right : b < 2 ^ 52) (same : pageAt a = pageAt b) :
    a = b := by
  have values := congrArg BitVec.toNat same
  rw [pageAt_toNat left, pageAt_toNat right] at values
  omega

theorem and_mask_eq_pageAt : address &&& memoryPageMask = pageAt (address.toNat / 4096) := by
  apply eq_of_toNat_eq
  rw [pageBase_toNat, pageAt_toNat (by omega)]
  omega

/-- The page numbers that `len` bytes from `start` on touch. -/
def Touches (start len number : Nat) : Prop :=
  0 < len ∧ start < 4096 * (number + 1) ∧ 4096 * number < start + len

instance (start len number : Nat) : Decidable (Touches start len number) :=
  inferInstanceAs (Decidable (_ ∧ _ ∧ _))

/-- The part of `len` bytes from `start` on that lies in one page. -/
def piece (start len number : Nat) : Chunk where
  pageBase := pageAt number
  offset := max start (4096 * number) - 4096 * number
  len := min (start + len) (4096 * (number + 1)) - max start (4096 * number)

theorem chunkAt_len (address : U64) (remaining : Nat) :
    (chunkAt address remaining).len = min (4096 - address.toNat % 4096) remaining := by
  simp only [chunkAt, pageOffset_toNat, memoryPageSize]

theorem chunkAt_inside (address : U64) (remaining : Nat) :
    (chunkAt address remaining).offset + (chunkAt address remaining).len ≤ memoryPageSize := by
  simp only [chunkAt, pageOffset_toNat, memoryPageSize]
  omega

theorem chunkAt_eq_piece (address : U64) (remaining : Nat) :
    chunkAt address remaining = piece address.toNat remaining (address.toNat / 4096) := by
  simp only [chunkAt, pageOffset_toNat]
  simp only [and_mask_eq_pageAt, memoryPageSize]
  congr 1 <;> omega

/-! ## Room for new pages -/

/-- How many of the pages from number `first` up to `last` are absent. -/
def absentBetween (m : MemoryImage) (first last : Nat) : Nat :=
  (List.range' first (last - first)).countP fun number => (m.page (pageAt number)).isNone

/-- The position that each new page of the walk takes fits the directory. -/
def HasRoom (m : MemoryImage) (start len : Nat) : Prop :=
  ∀ number, Touches start len number → m.page (pageAt number) = none →
    m.pageDirectory.covers (pageAt number) = true →
      m.pages.length + m.absentBetween (start / 4096) number < 2 ^ 32 - 1

/-- An image with far fewer pages than positions has room for any short range. -/
theorem hasRoom_of_few {m : MemoryImage} (few : m.pages.length + len / 4096 + 1 < 2 ^ 32 - 1) :
    m.HasRoom start len := by
  rintro number ⟨-, -, below⟩ - -
  have absent : m.absentBetween (start / 4096) number ≤ number - start / 4096 := by
    have counted := countP_le_length (p := fun number => (m.page (pageAt number)).isNone)
      (l := range' (start / 4096) (number - start / 4096))
    rwa [length_range'] at counted
  omega

section Step
variable {m : MemoryImage}

theorem updatePage_chunks (m : MemoryImage) :
    (m.updatePage base f).pageDirectory.chunks = m.pageDirectory.chunks := by
  cases found : m.pageLookupIndex base with
  | some => rw [updatePage_of_present found]; rfl
  | none =>
    rw [updatePage_of_absent (page_eq_none_iff.mpr found)]
    exact recordPageIndex_chunks _

/-- After the first chunk the walk is at the start of the next page, or at its end. -/
theorem step_address (straight : address.toNat + remaining ≤ 2 ^ 64) :
    (chunkAt address remaining).len = remaining ∨
      (chunkAt address remaining).len < remaining ∧
      (address + ofNat 64 (chunkAt address remaining).len).toNat = 4096 * (address.toNat / 4096 + 1) ∧
      address.toNat + (chunkAt address remaining).len = 4096 * (address.toNat / 4096 + 1) := by
  have len := chunkAt_len address remaining
  by_cases last : (chunkAt address remaining).len = remaining
  · exact .inl last
  · refine .inr ⟨by omega, ?_, by omega⟩
    rw [toNat_add, toNat_ofNat]
    omega

theorem absentBetween_succ (before : first < last) :
    m.absentBetween first last =
      (if m.page (pageAt first) = none then 1 else 0) + m.absentBetween (first + 1) last := by
  have split : last - first = last - (first + 1) + 1 := by omega
  rw [absentBetween, split, range'_succ, countP_cons, absentBetween, add_comm]
  cases m.page (pageAt first) <;> simp

theorem absentBetween_updatePage (sound : m.pageDirectory.Sound) {page : Nat}
    (before : page < first) (inside : last ≤ 2 ^ 52) :
    (m.updatePage (pageAt page) f).absentBetween first last = m.absentBetween first last := by
  apply countP_congr
  intro i member
  obtain ⟨above, below⟩ := mem_range'_1.mp member
  have distinct : pageAt i ≠ pageAt page := fun same => by
    have := pageAt_injective (by omega) (by omega) same
    omega
  rw [page_updatePage_ne sound (pageAt_aligned _) (pageAt_aligned _) distinct]

/-- Room for a walk is room for its first page and for the rest of the walk. -/
theorem hasRoom_step (sound : m.pageDirectory.Sound) (straight : address.toNat + remaining ≤ 2 ^ 64)
    (left : remaining ≠ 0) :
    m.HasRoom address.toNat remaining ↔
      m.HasRoomFor (pageAt (address.toNat / 4096)) ∧
      (m.updatePage (pageAt (address.toNat / 4096)) f).HasRoom
        (address + ofNat 64 (chunkAt address remaining).len).toNat
        (remaining - (chunkAt address remaining).len) := by
  have first : Touches address.toNat remaining (address.toNat / 4096) :=
    ⟨by omega, by omega, by omega⟩
  have none : m.absentBetween (address.toNat / 4096) (address.toNat / 4096) = 0 := by
    rw [absentBetween, Nat.sub_self]
    rfl
  -- what the rest asks of a later page is what the whole walk asks of it
  have later : ∀ number, address.toNat / 4096 < number → number < 2 ^ 52 →
      (m.updatePage (pageAt (address.toNat / 4096)) f).page (pageAt number) = m.page (pageAt number) ∧
      (m.updatePage (pageAt (address.toNat / 4096)) f).pages.length +
          (m.updatePage (pageAt (address.toNat / 4096)) f).absentBetween (address.toNat / 4096 + 1) number =
        m.pages.length + m.absentBetween (address.toNat / 4096) number := by
    intro number after inside
    have distinct : pageAt number ≠ pageAt (address.toNat / 4096) := fun same => by
      have := pageAt_injective inside (by omega) same
      omega
    refine ⟨page_updatePage_ne sound (pageAt_aligned _) (pageAt_aligned _) distinct, ?_⟩
    rw [updatePage_length, absentBetween_updatePage sound (lt_succ_self _) inside.le,
      absentBetween_succ after, add_assoc]
  have covers : ∀ base, (m.updatePage (pageAt (address.toNat / 4096)) f).pageDirectory.covers base =
      m.pageDirectory.covers base := fun base =>
    congrArg Option.isSome (PageDirectory.chunkOf_congr (updatePage_chunks _))
  rcases step_address straight with whole | ⟨partly, next, sum⟩
  · -- the range ends in its first page
    rw [whole, Nat.sub_self]
    constructor
    · intro room
      refine ⟨fun absent covered => ?_, fun number touched => absurd touched.1 (lt_irrefl 0)⟩
      have place := room _ first absent covered
      rwa [none] at place
    · rintro ⟨room, -⟩ number touched absent covered
      have len := chunkAt_len address remaining
      obtain rfl : number = address.toNat / 4096 := by
        obtain ⟨-, above, below⟩ := touched
        omega
      rw [none]
      exact room absent covered
  · rw [next]
    have page : 4096 * (address.toNat / 4096 + 1) / 4096 = address.toNat / 4096 + 1 := by omega
    constructor
    · intro room
      refine ⟨fun absent covered => ?_, fun number touched absent covered => ?_⟩
      · have place := room _ first absent covered
        rwa [none] at place
      · obtain ⟨positive, above, below⟩ := touched
        obtain ⟨same, count⟩ := later number (by omega) (by omega)
        rw [page, count]
        exact room number ⟨by omega, by omega, by omega⟩ (same ▸ absent) (covers _ ▸ covered)
    · rintro ⟨here, rest⟩ number ⟨positive, above, below⟩ absent covered
      by_cases current : number = address.toNat / 4096
      · subst current
        rw [none]
        exact here absent covered
      · obtain ⟨same, count⟩ := later number (by omega) (by omega)
        have place := rest number ⟨by omega, by omega, by omega⟩ (same.trans absent)
          ((covers _).trans covered)
        rwa [page, count] at place

end Step

/-! ## The walk, page by page -/

theorem forChunks_step (left : remaining ≠ 0) :
    forChunks update (fuel + 1) address k remaining m =
      forChunks update fuel (address + ofNat 64 (chunkAt address remaining).len)
        (k + (chunkAt address remaining).len) (remaining - (chunkAt address remaining).len)
        (m.updatePage (pageAt (address.toNat / 4096)) (update k (chunkAt address remaining))) := by
  rw [forChunks, if_neg left]
  simp [chunkAt, and_mask_eq_pageAt]

theorem forChunks_finished (m : MemoryImage) : forChunks update fuel address k 0 m = m := by
  cases fuel with
  | zero => rfl
  | succ fuel => rw [forChunks, if_pos rfl]

/-- A range inside one page takes one step. -/
theorem forChunks_single (left : remaining ≠ 0) (enough : remaining ≤ fuel)
    (whole : (chunkAt address remaining).len = remaining) :
    forChunks update fuel address k remaining m =
      m.updatePage (address &&& memoryPageMask) (update k (chunkAt address remaining)) := by
  cases fuel with
  | zero => omega
  | succ fuel =>
    rw [forChunks_step left, whole, Nat.sub_self, forChunks_finished, ← and_mask_eq_pageAt]

/-- Pages that the range does not touch stay as they are, even when another is lost. -/
theorem forChunks_untouched (sound : m.pageDirectory.Sound)
    (straight : address.toNat + remaining ≤ 2 ^ 64) (inside : number < 2 ^ 52)
    (untouched : ¬ Touches address.toNat remaining number) :
    (forChunks update fuel address k remaining m).page (pageAt number) =
      m.page (pageAt number) := by
  induction fuel generalizing m address k remaining with
  | zero => rfl
  | succ fuel ih =>
    by_cases left : remaining = 0
    · rw [left, forChunks_finished]
    · have distinct : pageAt number ≠ pageAt (address.toNat / 4096) := fun same => by
        have here := pageAt_injective inside (by omega) same
        exact untouched ⟨by omega, by omega, by omega⟩
      rw [forChunks_step left]
      rcases step_address straight with whole | ⟨partly, next, sum⟩
      · rw [whole, Nat.sub_self, forChunks_finished]
        exact page_updatePage_ne sound (pageAt_aligned _) (pageAt_aligned _) distinct
      · rw [ih (updatePage_directory sound) (by omega)]
        · exact page_updatePage_ne sound (pageAt_aligned _) (pageAt_aligned _) distinct
        · rintro ⟨positive, above, below⟩
          exact untouched ⟨by omega, by omega, by omega⟩

/-- With room for its new pages the walk updates the touched pages, each with its
own piece of the range, and no others. -/
theorem forChunks_pages (sound : m.Sound) (enough : remaining ≤ fuel)
    (straight : address.toNat + remaining ≤ 2 ^ 64) (room : m.HasRoom address.toNat remaining)
    (keeps : ∀ done chunk page, chunk.offset + chunk.len ≤ memoryPageSize → page.Sound →
      (update done chunk page).Sound) :
    (forChunks update fuel address k remaining m).Sound ∧
    ∀ number < 2 ^ 52, (forChunks update fuel address k remaining m).page (pageAt number) =
      if Touches address.toNat remaining number then
        some (update (k + (max address.toNat (4096 * number) - address.toNat))
          (piece address.toNat remaining number) ((m.page (pageAt number)).getD .new))
      else m.page (pageAt number) := by
  induction fuel generalizing m address k remaining with
  | zero =>
    obtain rfl : remaining = 0 := by omega
    refine ⟨sound, fun number _ => ?_⟩
    rfl
  | succ fuel ih =>
    by_cases left : remaining = 0
    · rw [left, forChunks_finished]
      refine ⟨sound, fun number _ => ?_⟩
      rw [if_neg fun touched => absurd touched.1 (lt_irrefl 0)]
    · have first := chunkAt_eq_piece address remaining
      have within := chunkAt_inside address remaining
      obtain ⟨here, rest⟩ := (hasRoom_step sound.directory straight left
        (f := update k (chunkAt address remaining))).mp room
      have stepSound := updatePage_sound (f := update k (chunkAt address remaining)) sound
        (pageAt_aligned _) here fun page => keeps k _ page within
      have updated := page_updatePage_self (f := update k (chunkAt address remaining))
        sound.directory (pageAt_aligned _) here
      have others : ∀ number, number < 2 ^ 52 → number ≠ address.toNat / 4096 →
          (m.updatePage (pageAt (address.toNat / 4096)) (update k (chunkAt address remaining))).page
            (pageAt number) = m.page (pageAt number) := by
        intro number inside other
        refine page_updatePage_ne sound.directory (pageAt_aligned _) (pageAt_aligned _) fun same => ?_
        exact other (pageAt_injective inside (by omega) same)
      have atFirst : Touches address.toNat remaining (address.toNat / 4096) :=
        ⟨by omega, by omega, by omega⟩
      have startsAt : max address.toNat (4096 * (address.toNat / 4096)) - address.toNat = 0 := by omega
      rw [forChunks_step left]
      rcases step_address straight with whole | ⟨partly, next, sum⟩
      · -- the range ends in its first page
        rw [whole, Nat.sub_self, forChunks_finished]
        refine ⟨stepSound, fun number inside => ?_⟩
        by_cases current : number = address.toNat / 4096
        · subst current
          rw [if_pos atFirst, updated, startsAt, first]
          rfl
        · rw [others number inside current, if_neg]
          rintro ⟨-, above, below⟩
          have len := chunkAt_len address remaining
          omega
      · obtain ⟨finalSound, pages⟩ := ih stepSound (by omega) (by omega) rest
          (k := k + (chunkAt address remaining).len)
        refine ⟨finalSound, fun number inside => ?_⟩
        rw [pages number inside, next]
        by_cases current : number = address.toNat / 4096
        · subst current
          rw [if_neg fun touched => by have := touched.2.1; omega, if_pos atFirst, updated, startsAt, first]
          rfl
        · rw [others number inside current]
          by_cases touched : Touches address.toNat remaining number
          · obtain ⟨-, above, below⟩ := touched
            rw [if_pos ⟨by omega, by omega, by omega⟩, if_pos ⟨by omega, above, below⟩]
            have samePiece : piece (4096 * (address.toNat / 4096 + 1))
                (remaining - (chunkAt address remaining).len) number = piece address.toNat remaining number := by
              simp only [piece]
              congr 1 <;> omega
            have samePosition : k + (chunkAt address remaining).len +
                (max (4096 * (address.toNat / 4096 + 1)) (4096 * number) - 4096 * (address.toNat / 4096 + 1)) =
                k + (max address.toNat (4096 * number) - address.toNat) := by omega
            rw [samePiece, samePosition]
          · rw [if_neg touched, if_neg]
            rintro ⟨-, above, below⟩
            exact touched ⟨by omega, by omega, by omega⟩

/-- Without room some page of the range is missing after the walk. -/
theorem forChunks_loses (sound : m.Sound) (enough : remaining ≤ fuel)
    (straight : address.toNat + remaining ≤ 2 ^ 64) (crowded : ¬ m.HasRoom address.toNat remaining)
    (keeps : ∀ done chunk page, chunk.offset + chunk.len ≤ memoryPageSize → page.Sound →
      (update done chunk page).Sound) :
    ∃ number < 2 ^ 52, Touches address.toNat remaining number ∧
      (forChunks update fuel address k remaining m).page (pageAt number) = none := by
  induction fuel generalizing m address k remaining with
  | zero =>
    obtain rfl : remaining = 0 := by omega
    exact absurd (fun number touched => absurd touched.1 (lt_irrefl 0)) crowded
  | succ fuel ih =>
    by_cases left : remaining = 0
    · rw [left] at crowded
      exact absurd (fun number touched => absurd touched.1 (lt_irrefl 0)) crowded
    · have within := chunkAt_inside address remaining
      have atFirst : Touches address.toNat remaining (address.toNat / 4096) :=
        ⟨by omega, by omega, by omega⟩
      rw [hasRoom_step sound.directory straight left (f := update k (chunkAt address remaining))] at crowded
      rw [forChunks_step left]
      by_cases here : m.HasRoomFor (pageAt (address.toNat / 4096))
      · have rest : ¬ (m.updatePage (pageAt (address.toNat / 4096))
            (update k (chunkAt address remaining))).HasRoom
              (address + ofNat 64 (chunkAt address remaining).len).toNat
              (remaining - (chunkAt address remaining).len) := fun room => crowded ⟨here, room⟩
        rcases step_address straight with whole | ⟨partly, next, sum⟩
        · rw [whole, Nat.sub_self] at rest
          exact absurd (fun number touched => absurd touched.1 (lt_irrefl 0)) rest
        · have stepSound := updatePage_sound (f := update k (chunkAt address remaining)) sound
            (pageAt_aligned _) here fun page => keeps k _ page within
          obtain ⟨number, inside, ⟨-, above, below⟩, lost⟩ :=
            ih stepSound (by omega) (by omega) rest (k := k + (chunkAt address remaining).len)
          exact ⟨number, inside, ⟨by omega, by omega, by omega⟩, lost⟩
      · -- the first page is the one that does not fit
        obtain ⟨absent, covered, full⟩ : m.page (pageAt (address.toNat / 4096)) = none ∧
            m.pageDirectory.covers (pageAt (address.toNat / 4096)) ∧
            2 ^ 32 - 1 ≤ m.pages.length := by
          rw [HasRoomFor] at here
          simpa only [Classical.not_imp, not_lt] using here
        have lost := page_updatePage_lost (f := update k (chunkAt address remaining)) sound
          (pageAt_aligned _) absent covered full
        refine ⟨address.toNat / 4096, by omega, atFirst, ?_⟩
        rcases step_address straight with whole | ⟨partly, next, sum⟩
        · rw [whole, Nat.sub_self, forChunks_finished, lost]
        · rw [forChunks_untouched (updatePage_directory sound.directory) (by omega) (by omega), lost]
          rintro ⟨-, above, below⟩
          omega

/-! ## The walk, byte by byte -/

/-- Guest memory as a partial map: the mapped bytes with their values. -/
def cell (m : MemoryImage) (address : U64) : Option U8 :=
  (m.page (address &&& memoryPageMask)).bind fun page =>
    page.cell (address - (address &&& memoryPageMask)).toNat

theorem cell_eq (m : MemoryImage) :
    m.cell address =
      (m.page (pageAt (address.toNat / 4096))).bind (·.cell (address.toNat % 4096)) := by
  rw [cell, pageOffset_toNat, and_mask_eq_pageAt]

/-- A page update that gives the bytes of its chunk a value and leaves the others
alone. Positions count from the start of a range of `total` bytes. -/
structure ByteUpdate (update : Nat → Chunk → MemoryPage → MemoryPage) (total : Nat)
    (value : Nat → Option U8 → U8) : Prop where
  sound : ∀ done chunk page, chunk.offset + chunk.len ≤ memoryPageSize → page.Sound →
    (update done chunk page).Sound
  cell : ∀ done chunk page offset, chunk.offset + chunk.len ≤ memoryPageSize →
    done + chunk.len ≤ total →
    page.Sound → offset < memoryPageSize → (update done chunk page).cell offset =
      if chunk.offset ≤ offset ∧ offset < chunk.offset + chunk.len then
        some (value (done + (offset - chunk.offset)) (page.cell offset))
      else page.cell offset

section Bytes
variable {m : MemoryImage}

/-- A page that is created has no mapped byte yet. -/
theorem cell_getD_new (m : MemoryImage) :
    ((m.page (pageAt number)).getD .new).cell offset =
      (m.page (pageAt number)).bind (·.cell offset) := by
  cases m.page (pageAt number) with
  | none => exact MemoryPage.cell_new
  | some => rfl

theorem Sound.getD_new (sound : m.Sound) : ((m.page (pageAt number)).getD .new).Sound := by
  cases found : m.page (pageAt number) with
  | none => exact MemoryPage.new_sound
  | some => exact sound.page_sound found

theorem forChunks_cell (bytes : ByteUpdate update len value) (sound : m.Sound)
    (straight : address.toNat + len ≤ 2 ^ 64) (room : m.HasRoom address.toNat len) (other : U64) :
    (forChunks update len address 0 len m).cell other =
      if address.toNat ≤ other.toNat ∧ other.toNat < address.toNat + len then
        some (value (other.toNat - address.toNat) (m.cell other))
      else m.cell other := by
  have pages := (forChunks_pages (k := 0) sound le_rfl straight room bytes.sound).2
    (other.toNat / 4096) (by omega)
  rw [cell_eq, pages, cell_eq]
  by_cases touched : Touches address.toNat len (other.toNat / 4096)
  · obtain ⟨positive, above, below⟩ := touched
    rw [if_pos ⟨positive, above, below⟩, Option.bind_some]
    have inside : other.toNat % 4096 < memoryPageSize := mod_lt _ (by decide)
    rw [bytes.cell _ _ _ _ (by simp only [piece, memoryPageSize]; omega)
      (by simp only [piece]; omega) sound.getD_new inside, cell_getD_new]
    by_cases within : address.toNat ≤ other.toNat ∧ other.toNat < address.toNat + len
    · rw [if_pos within, if_pos (by simp only [piece]; omega)]
      congr 2
      simp only [piece]
      omega
    · rw [if_neg within, if_neg (by simp only [piece]; omega)]
  · rw [if_neg touched, if_neg]
    rintro ⟨above, below⟩
    exact touched ⟨by omega, by omega, by omega⟩

/-- The stored bytes of one chunk: the range is marked after the store. -/
theorem byteUpdate_of_store {bytes : Nat → Chunk → MemoryPage → Nat → U8}
    (kept : ∀ done chunk page i, ¬ (chunk.offset ≤ i ∧ i < chunk.offset + chunk.len) →
      bytes done chunk page i = page.bytes i)
    (stored : ∀ done chunk page i, done + chunk.len ≤ total → page.Sound → i < memoryPageSize →
      chunk.offset ≤ i ∧ i < chunk.offset + chunk.len →
        bytes done chunk page i = value (done + (i - chunk.offset)) (page.cell i)) :
    ByteUpdate (fun done chunk page =>
      { page with bytes := bytes done chunk page }.markMappedRange chunk.offset chunk.len) total value where
  sound done chunk page fits sound := MemoryPage.storeRange_sound sound fits (kept done chunk page)
  cell done chunk page offset fits ends sound inside := by
    rw [MemoryPage.cell_storeRange sound fits (kept done chunk page) inside]
    split
    case isTrue covered => rw [stored done chunk page offset ends sound inside covered]
    case isFalse => rfl

theorem mapBytes_update (bytes : List U8) :
    ByteUpdate (fun done chunk page =>
      (page.writeBytes chunk.offset ((bytes.drop done).take chunk.len)).markMappedRange
        chunk.offset chunk.len) bytes.length fun i _ => bytes.getD i 0 := by
  refine byteUpdate_of_store
    (fun done chunk page i outside => ?_) fun done chunk page i ends _ _ covered => ?_
  · refine if_neg fun within => outside ⟨within.1, ?_⟩
    have := length_take_le chunk.len (bytes.drop done)
    omega
  · have length : ((bytes.drop done).take chunk.len).length = chunk.len := by
      rw [length_take, length_drop]
      omega
    rw [length, if_pos covered, getD_eq_getElem?_getD, getElem?_take_of_lt (by omega),
      getElem?_drop, getD_eq_getElem?_getD]

theorem mapZeroedIfUnmapped_update (total : Nat) :
    ByteUpdate (fun _ chunk page =>
      (page.fillZeroUnmapped chunk.offset chunk.len).markMappedRange chunk.offset chunk.len)
      total fun _ old => old.getD 0 := by
  refine byteUpdate_of_store
    (fun done chunk page i outside => ?_) fun done chunk page i _ _ _ covered => ?_
  · exact if_neg fun within => outside within.1
  · rw [MemoryPage.cell]
    cases page.isMapped i with
    | true => exact if_neg fun within => Bool.noConfusion within.2
    | false => exact if_pos ⟨covered, rfl⟩

theorem zeroRange_update (total : Nat) :
    ByteUpdate (fun _ chunk page =>
      (page.fillZero chunk.offset chunk.len).markMappedRange chunk.offset chunk.len)
      total fun _ _ => 0 := by
  refine byteUpdate_of_store
    (fun done chunk page i outside => ?_) fun done chunk page i _ _ _ covered => ?_
  · exact if_neg outside
  · exact if_pos covered

end Bytes

/-! ## The operations as maps of bytes -/

section Operations
variable {m : MemoryImage}

theorem mapBytes_spec (sound : m.Sound) (straight : address.toNat + bytes.length ≤ 2 ^ 64)
    (room : m.HasRoom address.toNat bytes.length) :
    (m.mapBytes address bytes).Sound ∧ ∀ other, (m.mapBytes address bytes).cell other =
      if address.toNat ≤ other.toNat ∧ other.toNat < address.toNat + bytes.length then
        some (bytes.getD (other.toNat - address.toNat) 0)
      else m.cell other :=
  ⟨(forChunks_pages sound le_rfl straight room (mapBytes_update bytes).sound).1,
    forChunks_cell (mapBytes_update bytes) sound straight room⟩

theorem mapZeroedIfUnmapped_spec (sound : m.Sound) (straight : address.toNat + len ≤ 2 ^ 64)
    (room : m.HasRoom address.toNat len) :
    (m.mapZeroedIfUnmapped address len).Sound ∧
      ∀ other, (m.mapZeroedIfUnmapped address len).cell other =
      if address.toNat ≤ other.toNat ∧ other.toNat < address.toNat + len then
        some ((m.cell other).getD 0)
      else m.cell other :=
  ⟨(forChunks_pages sound le_rfl straight room (mapZeroedIfUnmapped_update len).sound).1,
    forChunks_cell (mapZeroedIfUnmapped_update len) sound straight room⟩

theorem commitZeroedPages_spec (sound : m.Sound) (straight : address.toNat + len ≤ 2 ^ 64)
    (room : m.HasRoom address.toNat len) :
    (m.commitZeroedPages address len).Sound ∧
      ∀ other, (m.commitZeroedPages address len).cell other =
      if Touches address.toNat len (other.toNat / 4096) then some ((m.cell other).getD 0)
      else m.cell other := by
  have committed : ∀ page : MemoryPage, page.Sound →
      (if page.fullyMapped then page else page.markFullyMapped).Sound ∧
      ∀ offset < memoryPageSize, (if page.fullyMapped then page else page.markFullyMapped).cell offset =
        some ((page.cell offset).getD 0) := by
    intro page sound
    split
    case isTrue full =>
      refine ⟨sound, fun offset inside => ?_⟩
      rw [MemoryPage.cell, sound.full full offset inside]
      rfl
    case isFalse =>
      exact ⟨page.markFullyMapped_sound, fun offset inside => MemoryPage.cell_markFullyMapped sound inside⟩
  obtain ⟨finalSound, pages⟩ := forChunks_pages (k := 0) sound le_rfl straight room
    fun _ _ page _ old => (committed page old).1
  refine ⟨finalSound, fun other => ?_⟩
  rw [cell_eq, commitZeroedPages, pages _ (by omega), cell_eq]
  split
  case isTrue =>
    have inside : other.toNat % 4096 < memoryPageSize := mod_lt _ (by decide)
    rw [Option.bind_some, (committed _ sound.getD_new).2 _ inside, cell_getD_new]
  case isFalse => rfl

/-- A store inside one page is the walk over that page. -/
theorem writeFixed_eq_mapBytes (nonempty : bytes.length ≠ 0) :
    m.writeFixed address bytes = m.mapBytes address bytes := by
  rw [writeFixed]
  split
  case isFalse => rfl
  case isTrue fits =>
    have whole : (chunkAt address bytes.length).len = bytes.length := by
      simp only [chunkAt]
      omega
    rw [mapBytes, forChunks_single nonempty le_rfl whole, whole, drop_zero, take_length]
    rfl

/-- The last page that a range covers, also when the range ends with the address space. -/
theorem endPage_eq (straight : address.toNat + len ≤ 2 ^ 64) (nonempty : len ≠ 0) :
    (if address + ofNat 64 len = 0 then memoryPageMask
      else (address + ofNat 64 len - 1) &&& memoryPageMask) =
      pageAt ((address.toNat + len - 1) / 4096) := by
  have stop : (address + ofNat 64 len).toNat = (address.toNat + len) % 2 ^ 64 := by
    rw [toNat_add, toNat_ofNat]
    omega
  split
  case isTrue zero =>
    have top : address.toNat + len = 2 ^ 64 := by
      have := congrArg BitVec.toNat zero
      rw [show (0 : U64).toNat = 0 from rfl] at this
      omega
    rw [top]
    rfl
  case isFalse positive =>
    have below : address.toNat + len ≠ 2 ^ 64 := by
      intro top
      refine positive (eq_of_toNat_eq ?_)
      rw [stop, top]
      rfl
    have one : (1 : U64) ≤ address + ofNat 64 len := by
      rw [le_def, show (1 : U64).toNat = 1 from rfl]
      omega
    rw [and_mask_eq_pageAt, toNat_sub_of_le one, stop, show (1 : U64).toNat = 1 from rfl,
      mod_eq_of_lt (by omega)]

/-- The walk removes the pages up to the end page, or up to the top of the address
space when it never meets that page. -/
theorem unmapPages_spec (first : Nat) (sound : m.Sound) (ordered : first ≤ last)
    (inside : last < 2 ^ 52) (enough : last - first < fuel)
    (ends : pageAt last = endPage ∨ last + 1 = 2 ^ 52)
    (before : ∀ number, first ≤ number → number < last → pageAt number ≠ endPage) :
    (unmapPages fuel (pageAt first) endPage m).Sound ∧
    ∀ number < 2 ^ 52, (unmapPages fuel (pageAt first) endPage m).page (pageAt number) =
      if first ≤ number ∧ number ≤ last then none else m.page (pageAt number) := by
  induction fuel generalizing m first with
  | zero => omega
  | succ fuel ih =>
    have removed := removePage_sound sound (pageAt_aligned first)
    have pages : ∀ number < 2 ^ 52, (m.removePage (pageAt first)).page (pageAt number) =
        if number = first then none else m.page (pageAt number) := by
      intro number bound
      rw [page_removePage sound (pageAt_aligned first)]
      exact if_congr ⟨pageAt_injective bound (by omega), congrArg pageAt⟩ rfl rfl
    rw [unmapPages]
    by_cases finished : first = last
    · have stopped : (if pageAt first = endPage then m.removePage (pageAt first)
          else match checkedAdd (pageAt first) (ofNat 64 memoryPageSize) with
            | none => m.removePage (pageAt first)
            | some next => unmapPages fuel next endPage (m.removePage (pageAt first))) =
          m.removePage (pageAt first) := by
        split
        case isTrue => rfl
        case isFalse missed =>
          have top := ends.resolve_left fun same => missed (finished ▸ same)
          have overflows : checkedAdd (pageAt first) (ofNat 64 memoryPageSize) = none := by
            rw [checkedAdd, if_pos ((add_lt_self_iff _ _).mpr ?_)]
            rw [pageAt_toNat (by omega), memoryPageSize, toNat_ofNat]
            omega
          rw [overflows]
      rw [stopped]
      exact ⟨removed, fun number bound => (pages number bound).trans (if_congr (by omega) rfl rfl)⟩
    · have distinct : pageAt first ≠ endPage := before first le_rfl (by omega)
      have next : checkedAdd (pageAt first) (ofNat 64 memoryPageSize) = some (pageAt (first + 1)) := by
        have small : (pageAt first).toNat + (ofNat 64 memoryPageSize).toNat < 2 ^ 64 := by
          rw [pageAt_toNat (by omega), memoryPageSize, toNat_ofNat]
          omega
        have sum : 4096 * first + memoryPageSize = 4096 * (first + 1) := by rw [memoryPageSize]; omega
        rw [checkedAdd_of_fits small, pageAt, pageAt, ← BitVec.ofNat_add, sum]
      rw [if_neg distinct, next]
      obtain ⟨finalSound, rest⟩ := ih (first + 1) removed (by omega) (by omega)
        fun number after => before number (by omega)
      refine ⟨finalSound, fun number bound => ?_⟩
      rw [rest number bound, pages number bound]
      by_cases same : number = first
      · rw [if_pos same, if_neg (by omega), if_pos (by omega)]
      · rw [if_neg same]
        exact if_congr (by omega) rfl rfl

/-- The walk of `unmap_range`, given the last page that it removes. -/
theorem unmapRange_cell (sound : m.Sound) (nonempty : len ≠ 0)
    (stop : (if address + ofNat 64 len = 0 then memoryPageMask
      else (address + ofNat 64 len - 1) &&& memoryPageMask) = endPage)
    (ordered : address.toNat / 4096 ≤ last) (inside : last < 2 ^ 52)
    (ends : pageAt last = endPage ∨ last + 1 = 2 ^ 52)
    (before : ∀ number, address.toNat / 4096 ≤ number → number < last → pageAt number ≠ endPage) :
    (m.unmapRange address len).Sound ∧ ∀ other, (m.unmapRange address len).cell other =
      if address.toNat / 4096 ≤ other.toNat / 4096 ∧ other.toNat / 4096 ≤ last then none else m.cell other := by
  have rounds : last - address.toNat / 4096 < (2 ^ 64 - (address &&& memoryPageMask).toNat) / memoryPageSize := by
    rw [pageBase_toNat, memoryPageSize]
    omega
  obtain ⟨finalSound, pages⟩ :=
    unmapPages_spec (address.toNat / 4096) sound ordered inside rounds ends before
  have walked : m.unmapRange address len = unmapPages
      ((2 ^ 64 - (address &&& memoryPageMask).toNat) / memoryPageSize) (pageAt (address.toNat / 4096)) endPage m := by
    rw [unmapRange, if_neg nonempty]
    dsimp only
    rw [stop, ← and_mask_eq_pageAt]
  rw [walked]
  refine ⟨finalSound, fun other => ?_⟩
  rw [cell_eq, pages _ (by omega), cell_eq]
  split
  · rfl
  · rfl

theorem unmapRange_spec (sound : m.Sound) (straight : address.toNat + len ≤ 2 ^ 64) :
    (m.unmapRange address len).Sound ∧ ∀ other, (m.unmapRange address len).cell other =
      if Touches address.toNat len (other.toNat / 4096) then none else m.cell other := by
  by_cases empty : len = 0
  · rw [unmapRange, if_pos empty]
    refine ⟨sound, fun other => ?_⟩
    rw [if_neg fun touched => by have := touched.1; omega]
  · have distinct (number : Nat) (after : address.toNat / 4096 ≤ number)
        (before : number < (address.toNat + len - 1) / 4096) :
        pageAt number ≠ pageAt ((address.toNat + len - 1) / 4096) := fun same => by
      have := pageAt_injective (by omega) (by omega) same
      omega
    obtain ⟨finalSound, cells⟩ :=
      unmapRange_cell sound empty (endPage_eq straight empty) (by omega) (by omega)
      (.inl rfl) distinct
    refine ⟨finalSound, fun other => (cells other).trans (if_congr ?_ rfl rfl)⟩
    rw [Touches]
    omega

/-- A range of whole pages that wraps loses its part below the top of the address space. -/
theorem unmapRange_wrapping_spec (sound : m.Sound) (wraps : 2 ^ 64 < address.toNat + len)
    (short : len ≤ 2 ^ 64 - 4096) :
    (m.unmapRange address len).Sound ∧ ∀ other, (m.unmapRange address len).cell other =
      if address.toNat / 4096 ≤ other.toNat / 4096 then none else m.cell other := by
  have stop : (address + ofNat 64 len).toNat = address.toNat + len - 2 ^ 64 := by
    rw [toNat_add, toNat_ofNat]
    omega
  have positive : address + ofNat 64 len ≠ 0 := fun zero => by
    rw [zero, show (0 : U64).toNat = 0 from rfl] at stop
    omega
  have one : (1 : U64) ≤ address + ofNat 64 len := by
    rw [le_def, show (1 : U64).toNat = 1 from rfl]
    omega
  -- the end page lies below the start, so the walk never meets it
  have distinct (number : Nat) (after : address.toNat / 4096 ≤ number) (before : number < 2 ^ 52 - 1) :
      pageAt number ≠ (address + ofNat 64 len - 1) &&& memoryPageMask := fun same => by
    rw [and_mask_eq_pageAt, toNat_sub_of_le one] at same
    have := pageAt_injective (by omega) (by omega) same
    omega
  obtain ⟨finalSound, cells⟩ :=
    unmapRange_cell sound (by omega) (if_neg positive) (by omega) (by omega)
    (.inr rfl) distinct
  exact ⟨finalSound, fun other => (cells other).trans (if_congr (by omega) rfl rfl)⟩

/-- Removing as many whole pages as a size in words counts, wrapping or not. -/
theorem unmapRange_pages_spec (sound : m.Sound) (whole : len % 4096 = 0) (nonempty : len ≠ 0)
    (usize : len < 2 ^ 64) :
    (m.unmapRange address len).Sound ∧ ∀ other, (m.unmapRange address len).cell other =
      if address.toNat / 4096 ≤ other.toNat / 4096 ∧ 4096 * (other.toNat / 4096) < address.toNat + len then none
      else m.cell other := by
  by_cases straight : address.toNat + len ≤ 2 ^ 64
  · obtain ⟨finalSound, cells⟩ := unmapRange_spec sound straight
    refine ⟨finalSound, fun other => (cells other).trans (if_congr ?_ rfl rfl)⟩
    rw [Touches]
    omega
  · have wraps : 2 ^ 64 < address.toNat + len := Nat.lt_of_not_le straight
    obtain ⟨finalSound, cells⟩ := unmapRange_wrapping_spec sound wraps (by omega)
    exact ⟨finalSound, fun other => (cells other).trans (if_congr (by omega) rfl rfl)⟩

end Operations

end MemoryImage

end Casa.Cpu
