import Casa.Cpu.MemoryContents
import Casa.Cpu.PageBits
import Casa.Lib.DenseMap
import Mathlib.Data.Fintype.Card

/-! Creating and removing pages (cpu/memory.rs): the two-level directory as a map
from page slots to positions, the image's page table on top of it, and the
invariant that every page is found where it lies. -/
namespace Casa.Cpu
open Effect MachineInt MemoryPage PageDirectory Option BitVec
open BitVec (ofNat)

namespace PageDirectory

/-! ## The directory as a map of slots -/

def entryAt (directory : PageDirectory) (slot : Nat × Nat) : Option Nat := do
  let tableIndex ← entryIndex (directory.top slot.1)
  let table ← directory.tables[tableIndex]?
  entryIndex (table slot.2)

theorem get_eq (directory : PageDirectory) :
    directory.get pageBase = (directory.chunkOf pageBase).bind directory.entryAt := by
  rw [get]
  cases directory.chunkOf pageBase <;> rfl

/-- Allocates the second-level table of a chunk that has none. -/
def openChunk (directory : PageDirectory) (chunk : Nat) : PageDirectory :=
  if directory.top chunk = pageDirectoryMissing then
    { directory with
      top := fun c => if c = chunk then ofNat 32 directory.tables.length else directory.top c
      tables := directory.tables ++ [fun _ => pageDirectoryMissing] }
  else directory

def setEntry (directory : PageDirectory) (slot : Nat × Nat) (value : U32) : PageDirectory :=
  { directory with
    tables := directory.tables.modify (directory.top slot.1).toNat fun table i =>
      if i = slot.2 then value else table i }

/-- Positions are stored as 32-bit words. The slot is that of an in-window page. -/
def insert (directory : PageDirectory) (slot : Nat × Nat) (index : Nat) : PageDirectory :=
  (directory.openChunk slot.1).setEntry slot (ofNat 32 index)

def remove (directory : PageDirectory) (pageBase : U64) : PageDirectory :=
  match directory.chunkOf pageBase with
  | none => directory
  | some slot => directory.setEntry slot pageDirectoryMissing

/-- Opened chunks have a table each, no two the same, and no table is left over.
The direct window has at most `2 ^ 38` bytes. -/
structure Sound (directory : PageDirectory) : Prop where
  window : directory.chunks ≤ 2 ^ 17
  opened : ∀ chunk < directory.chunks, ∀ t, entryIndex (directory.top chunk) = some t →
    t < directory.tables.length
  separate : ∀ c < directory.chunks, ∀ d < directory.chunks, ∀ t,
    entryIndex (directory.top c) = some t → entryIndex (directory.top d) = some t → c = d
  owned : ∀ t < directory.tables.length, ∃ chunk < directory.chunks,
    entryIndex (directory.top chunk) = some t

section Entries
variable {directory : PageDirectory}

theorem entryIndex_ofNat (small : index < 2 ^ 32 - 1) :
    entryIndex (ofNat 32 index) = some index := by
  have value : (ofNat 32 index).toNat = index := by
    rw [toNat_ofNat]
    omega
  have present : ofNat 32 index ≠ pageDirectoryMissing := by
    intro missing
    have := congrArg BitVec.toNat missing
    rw [pageDirectoryMissing, toNat_allOnes] at this
    omega
  rw [entryIndex, if_neg present, value]

theorem entryIndex_missing : entryIndex pageDirectoryMissing = none := if_pos rfl

theorem entryIndex_eq_some (found : entryIndex entry = some t) :
    entry ≠ pageDirectoryMissing ∧ entry.toNat = t := by
  rw [entryIndex] at found
  split at found
  · cases found
  case isFalse present => exact ⟨present, some.inj found⟩

theorem entryIndex_eq_none (absent : entryIndex entry = none) : entry = pageDirectoryMissing := by
  rw [entryIndex] at absent
  split at absent
  · assumption
  · cases absent

theorem chunkOf_bound (inside : directory.chunkOf pageBase = some slot) :
    slot.1 < directory.chunks ∧ pageBase.toNat / 4096 = slot.1 * 512 + slot.2 := by
  simp only [chunkOf] at inside
  split at inside
  · cases inside
  case isFalse covered =>
    obtain rfl := some.inj inside
    constructor
    · omega
    · omega

/-- Different pages have different slots. -/
theorem chunkOf_injective (first : directory.chunkOf a = some slot)
    (second : directory.chunkOf b = some slot) (left : a &&& memoryPageMask = a)
    (right : b &&& memoryPageMask = b) : a = b := by
  have ha := (chunkOf_bound first).2
  have hb := (chunkOf_bound second).2
  have baseA := pageBase_toNat a
  have baseB := pageBase_toNat b
  rw [left] at baseA
  rw [right] at baseB
  apply eq_of_toNat_eq
  omega

variable (sound : directory.Sound)
include sound

theorem Sound.tables_le : directory.tables.length ≤ directory.chunks := by
  choose owner bound entry using sound.owned
  have injective : Function.Injective fun t : Fin directory.tables.length =>
      (⟨owner t t.2, bound t t.2⟩ : Fin directory.chunks) := by
    intro s t same
    have owners : owner s s.2 = owner t t.2 := congrArg Fin.val same
    have tables := entry s s.2
    rw [owners, entry t t.2] at tables
    exact Fin.ext (some.inj tables).symm
  simpa using Fintype.card_le_of_injective _ injective

omit sound in
theorem openChunk_chunks (directory : PageDirectory) (chunk : Nat) :
    (directory.openChunk chunk).chunks = directory.chunks := by
  rw [openChunk]
  split <;> rfl

/-- The table number a new table gets is within a word and not the marker. -/
theorem Sound.next_table :
    entryIndex (ofNat 32 directory.tables.length) = some directory.tables.length := by
  have bound := sound.tables_le
  have window := sound.window
  exact entryIndex_ofNat (by omega)

theorem openChunk_sound (inside : chunk < directory.chunks) :
    (directory.openChunk chunk).Sound := by
  rw [openChunk]
  split
  case isFalse => exact sound
  case isTrue missing =>
    have fresh := sound.next_table
    have closed : entryIndex (directory.top chunk) = none := by
      rw [missing, entryIndex_missing]
    refine ⟨sound.window, ?_, ?_, ?_⟩
    · intro c bound t entry
      dsimp only at entry
      rw [List.length_append, List.length_singleton]
      split at entry
      · rw [fresh] at entry
        have := some.inj entry
        omega
      · exact (sound.opened c bound t entry).trans (Nat.lt_succ_self _)
    · intro c boundC d boundD t left right
      dsimp only at left right
      split at left <;> split at right
      case isTrue.isTrue sameC sameD => rw [sameC, sameD]
      case isTrue.isFalse =>
        rw [fresh] at left
        have := sound.opened d boundD t right
        have := some.inj left
        omega
      case isFalse.isTrue =>
        rw [fresh] at right
        have := sound.opened c boundC t left
        have := some.inj right
        omega
      case isFalse.isFalse => exact sound.separate c boundC d boundD t left right
    · intro t bound
      rw [List.length_append, List.length_singleton] at bound
      by_cases last : t = directory.tables.length
      · exact ⟨chunk, inside, by dsimp only; rw [if_pos rfl, fresh, last]⟩
      · obtain ⟨c, boundC, entry⟩ := sound.owned t (by omega)
        have other : c ≠ chunk := by
          rintro rfl
          rw [closed] at entry
          cases entry
        exact ⟨c, boundC, by dsimp only; rw [if_neg other, entry]⟩

/-- A new table records nothing, so no slot changes. -/
theorem entryAt_openChunk (inside : slot.1 < directory.chunks) :
    (directory.openChunk chunk).entryAt slot = directory.entryAt slot := by
  rw [openChunk]
  split
  case isFalse => rfl
  case isTrue missing =>
    simp only [entryAt]
    split
    case isTrue same =>
      rw [sound.next_table, same, missing]
      simp [entryIndex_missing]
    case isFalse other =>
      cases entry : entryIndex (directory.top slot.1) with
      | none => rfl
      | some t =>
        have bound := sound.opened slot.1 inside t entry
        simp [List.getElem?_append_left bound]

theorem openChunk_opened (chunk : Nat) :
    ∃ t, entryIndex ((directory.openChunk chunk).top chunk) = some t := by
  rw [openChunk]
  split
  case isTrue => exact ⟨_, by dsimp only; rw [if_pos rfl, sound.next_table]⟩
  case isFalse present => exact ⟨_, if_neg present⟩

theorem setEntry_sound (slot : Nat × Nat) : (directory.setEntry slot value).Sound := by
  have tables : (directory.setEntry slot value).tables.length = directory.tables.length :=
    List.length_modify _ _ _
  refine ⟨sound.window, ?_, sound.separate, ?_⟩
  · rw [tables]
    exact sound.opened
  · rw [tables]
    exact sound.owned

/-- Writing one slot of an opened chunk changes that slot alone. -/
theorem entryAt_setEntry (inside : slot.1 < directory.chunks)
    (opened : entryIndex (directory.top slot.1) = some t) (value : U32)
    (bound : other.1 < directory.chunks) :
    (directory.setEntry slot value).entryAt other =
      if other = slot then entryIndex value else directory.entryAt other := by
  have table := (entryIndex_eq_some opened).2
  have present := sound.opened slot.1 inside t opened
  simp only [entryAt, setEntry, table]
  by_cases sameChunk : other.1 = slot.1
  · rw [sameChunk, opened]
    simp only [bind_eq_bind, bind_some, List.getElem?_modify, if_true,
      List.getElem?_eq_getElem present, map_eq_map, map_some]
    by_cases sameEntry : other.2 = slot.2
    · rw [if_pos sameEntry, if_pos (Prod.ext sameChunk sameEntry)]
    · rw [if_neg sameEntry, if_neg fun same => sameEntry (congrArg Prod.snd same)]
  · rw [if_neg fun same => sameChunk (congrArg Prod.fst same)]
    cases entry : entryIndex (directory.top other.1) with
    | none => rfl
    | some s =>
      have distinct : t ≠ s := by
        rintro rfl
        exact sameChunk (sound.separate _ bound _ inside t entry opened)
      simp [List.getElem?_modify, if_neg distinct]

theorem insert_sound (inside : slot.1 < directory.chunks) (index : Nat) :
    (directory.insert slot index).Sound :=
  setEntry_sound (openChunk_sound sound inside) _

theorem entryAt_insert (inside : slot.1 < directory.chunks) (index : Nat)
    (bound : other.1 < directory.chunks) :
    (directory.insert slot index).entryAt other =
      if other = slot then entryIndex (ofNat 32 index) else directory.entryAt other := by
  obtain ⟨t, opened⟩ := openChunk_opened sound slot.1
  have chunks := openChunk_chunks directory slot.1
  rw [insert,
    entryAt_setEntry (openChunk_sound sound inside) (chunks ▸ inside) opened _ (chunks ▸ bound),
    entryAt_openChunk sound bound]

theorem remove_sound (pageBase : U64) : (directory.remove pageBase).Sound := by
  rw [remove]
  split
  · exact sound
  · exact setEntry_sound sound _

theorem entryAt_remove (covered : directory.chunkOf pageBase = some slot)
    (bound : other.1 < directory.chunks) :
    (directory.remove pageBase).entryAt other = if other = slot then none
      else directory.entryAt other := by
  have inside := (chunkOf_bound covered).1
  rw [remove, covered]
  dsimp only
  cases opened : entryIndex (directory.top slot.1) with
  | some t => rw [entryAt_setEntry sound inside opened _ bound, entryIndex_missing]
  | none =>
    -- a chunk without a table has nothing to remove, and the marker names no table
    have missing := entryIndex_eq_none opened
    have beyond : directory.tables.length ≤ (directory.top slot.1).toNat := by
      have bound := sound.tables_le
      have window := sound.window
      rw [missing, pageDirectoryMissing, toNat_allOnes]
      omega
    have unchanged : directory.setEntry slot pageDirectoryMissing = directory := by
      rw [setEntry, List.modify_eq_self beyond]
    rw [unchanged]
    split
    case isTrue same => rw [same, entryAt, opened]; rfl
    case isFalse => rfl

end Entries

theorem chunkOf_congr {d e : PageDirectory} (same : d.chunks = e.chunks) :
    d.chunkOf pageBase = e.chunkOf pageBase := by
  simp [chunkOf, same]

theorem insert_chunks (directory : PageDirectory) :
    (directory.insert slot index).chunks = directory.chunks :=
  openChunk_chunks directory slot.1

theorem remove_chunks (directory : PageDirectory) :
    (directory.remove pageBase).chunks = directory.chunks := by
  rw [remove]
  split <;> rfl

end PageDirectory

namespace MemoryImage

/-! ## Pages of an image -/

def recordPageIndex (m : MemoryImage) (pageBase : U64) (index : Nat) : MemoryImage :=
  match m.pageDirectory.chunkOf pageBase with
  | some slot => { m with pageDirectory := m.pageDirectory.insert slot index }
  | none =>
    { m with highPageLookup := fun base => if base = pageBase then some index else m.highPageLookup base }

def forgetPageIndex (m : MemoryImage) (pageBase : U64) : MemoryImage :=
  if m.pageDirectory.covers pageBase then { m with pageDirectory := m.pageDirectory.remove pageBase }
  else { m with
    highPageLookup := fun base => if base = pageBase then none else m.highPageLookup base }

def insertPage (m : MemoryImage) (pageBase : U64) : MemoryImage :=
  { m with pages := m.pages ++ [(pageBase, MemoryPage.new)] }.recordPageIndex pageBase m.pages.length

/-- The image with the page present, and the page's position in it. -/
def pageMutOrInsert (m : MemoryImage) (pageBase : U64) : MemoryImage × Nat :=
  match m.pageLookupIndex pageBase with
  | some index => (m, index)
  | none => (m.insertPage pageBase, m.pages.length)

/-- `page_mut_or_insert` and an update through the reference it returns. -/
def updatePage (m : MemoryImage) (pageBase : U64) (f : MemoryPage → MemoryPage) : MemoryImage :=
  let (m, index) := m.pageMutOrInsert pageBase
  m.modifyPage index f

/-- Takes a page out of the table: the last page moves into its place. -/
def removePage (m : MemoryImage) (pageBase : U64) : MemoryImage :=
  match m.pageLookupIndex pageBase with
  | none => m
  | some index =>
    let removed := { m with pages := DenseMap.swapRemove m.pages index }.forgetPageIndex pageBase
    match removed.pages[index]? with
    | some (movedBase, _) => removed.recordPageIndex movedBase index
    | none => removed

/-- Every page is where the lookup tables say, at a page boundary, and sound. -/
structure Sound (m : MemoryImage) : Prop where
  directory : m.pageDirectory.Sound
  aligned : ∀ entry ∈ m.pages, entry.1 &&& memoryPageMask = entry.1
  tracked : DenseMap.Tracks m.pages m.recordedIndex
  pages : ∀ entry ∈ m.pages, entry.2.Sound

@[reducible] def PageAligned (base : U64) : Prop := base &&& memoryPageMask = base

section Recorded
variable {m : MemoryImage}

theorem recordedIndex_eq (m : MemoryImage) :
    m.recordedIndex base = match m.pageDirectory.chunkOf base with
    | some slot => m.pageDirectory.entryAt slot
    | none => m.highPageLookup base := by
  rw [recordedIndex, covers, get_eq]
  cases m.pageDirectory.chunkOf base <;> rfl

/-- The position the tables give back for one they were asked to record. -/
def storedIndex (m : MemoryImage) (base : U64) (index : Nat) : Option Nat :=
  if m.pageDirectory.covers base then PageDirectory.entryIndex (ofNat 32 index) else some index

theorem recordPageIndex_sound (sound : m.pageDirectory.Sound) (index : Nat) :
    (m.recordPageIndex base index).pageDirectory.Sound := by
  rw [recordPageIndex]
  split
  case h_1 slot covered =>
    exact insert_sound sound (chunkOf_bound covered).1 index
  case h_2 => exact sound

theorem recordPageIndex_pages (m : MemoryImage) :
    (m.recordPageIndex base index).pages = m.pages := by
  rw [recordPageIndex]
  split <;> rfl

theorem recordPageIndex_chunks (m : MemoryImage) :
    (m.recordPageIndex base index).pageDirectory.chunks = m.pageDirectory.chunks := by
  rw [recordPageIndex]
  split
  · exact insert_chunks _
  · rfl

/-- A change of one entry of the directory is seen at its page only. -/
theorem recordedIndex_of_slot (here : m.pageDirectory.chunkOf base = some slot)
    (alignedBase : PageAligned base) (alignedOther : PageAligned other)
    (chunks : directory.chunks = m.pageDirectory.chunks)
    (entries : ∀ place : Nat × Nat, place.1 < m.pageDirectory.chunks →
      directory.entryAt place = if place = slot then value else m.pageDirectory.entryAt place) :
    { m with pageDirectory := directory }.recordedIndex other =
      if other = base then value else m.recordedIndex other := by
  rw [recordedIndex_eq, recordedIndex_eq, chunkOf_congr chunks]
  cases there : m.pageDirectory.chunkOf other with
  | none =>
    have distinct : other ≠ base := by
      rintro rfl
      rw [here] at there
      cases there
    rw [if_neg distinct]
  | some place =>
    dsimp only
    rw [entries place (chunkOf_bound there).1]
    by_cases same : other = base
    · subst same
      rw [if_pos rfl, if_pos (some.inj (there.symm.trans here))]
    · rw [if_neg same, if_neg]
      rintro rfl
      exact same (chunkOf_injective there here alignedOther alignedBase)

/-- Above the window the lookup keeps one position for each page. -/
theorem recordedIndex_of_high (here : m.pageDirectory.chunkOf base = none) :
    { m with highPageLookup := fun page => if page = base then value else m.highPageLookup page }.recordedIndex
      other = if other = base then value else m.recordedIndex other := by
  rw [recordedIndex_eq, recordedIndex_eq]
  cases there : m.pageDirectory.chunkOf other with
  | none => rfl
  | some =>
    have distinct : other ≠ base := by
      rintro rfl
      rw [here] at there
      cases there
    rw [if_neg distinct]

theorem recordedIndex_recordPageIndex (sound : m.pageDirectory.Sound)
    (alignedBase : PageAligned base) (alignedOther : PageAligned other) (index : Nat) :
    (m.recordPageIndex base index).recordedIndex other =
      if other = base then m.storedIndex base index else m.recordedIndex other := by
  rw [recordPageIndex, storedIndex, covers]
  cases here : m.pageDirectory.chunkOf base with
  | none => exact recordedIndex_of_high here
  | some =>
    exact recordedIndex_of_slot here alignedBase alignedOther (insert_chunks _)
      fun place bound => entryAt_insert sound (chunkOf_bound here).1 index bound

theorem forgetPageIndex_sound (sound : m.pageDirectory.Sound) :
    (m.forgetPageIndex base).pageDirectory.Sound := by
  rw [forgetPageIndex]
  split
  · exact remove_sound sound base
  · exact sound

theorem forgetPageIndex_pages (m : MemoryImage) : (m.forgetPageIndex base).pages = m.pages := by
  rw [forgetPageIndex]
  split <;> rfl

theorem forgetPageIndex_chunks (m : MemoryImage) :
    (m.forgetPageIndex base).pageDirectory.chunks = m.pageDirectory.chunks := by
  rw [forgetPageIndex]
  split
  · exact remove_chunks _
  · rfl

theorem recordedIndex_forgetPageIndex (sound : m.pageDirectory.Sound)
    (alignedBase : PageAligned base) (alignedOther : PageAligned other) :
    (m.forgetPageIndex base).recordedIndex other = if other = base then none
      else m.recordedIndex other := by
  rw [forgetPageIndex, covers]
  cases here : m.pageDirectory.chunkOf base with
  | none => exact recordedIndex_of_high here
  | some =>
    exact recordedIndex_of_slot here alignedBase alignedOther (remove_chunks _)
      fun place bound => entryAt_remove sound here bound

end Recorded

/-! ## Looking pages up -/

section Lookup
variable {m : MemoryImage}

theorem page_eq_some_iff {page : MemoryPage} : m.page base = some page ↔
    ∃ index, m.recordedIndex base = some index ∧ m.pages[index]? = some (base, page) := by
  rw [MemoryImage.page, bind_eq_some_iff]
  constructor
  · rintro ⟨index, looked, found⟩
    obtain ⟨recorded, -⟩ := filter_eq_some_iff.mp looked
    obtain ⟨⟨base', page'⟩, entry, rfl⟩ := map_eq_some_iff.mp found
    have here := pageLookupIndex_base looked
    rw [entry] at here
    obtain rfl : base' = base := some.inj here
    exact ⟨index, recorded, entry⟩
  · rintro ⟨index, recorded, found⟩
    refine ⟨index, filter_eq_some_iff.mpr ⟨recorded, ?_⟩, by rw [found]; rfl⟩
    simp [found]

theorem Sound.page_iff (sound : m.Sound) {page : MemoryPage} :
    m.page base = some page ↔ (base, page) ∈ m.pages := by
  rw [page_eq_some_iff, sound.tracked.mem_iff]

theorem Sound.page_sound (sound : m.Sound) {page : MemoryPage} (found : m.page base = some page) :
    page.Sound :=
  sound.pages _ (sound.page_iff.mp found)

theorem page_eq_none_iff : m.page base = none ↔ m.pageLookupIndex base = none := by
  rw [MemoryImage.page]
  cases looked : m.pageLookupIndex base with
  | none => simp
  | some =>
    obtain ⟨entry, found, -⟩ := map_eq_some_iff.mp (pageLookupIndex_base looked)
    simp [found]

/-- The lookup reads a position and checks the base there. -/
theorem page_congr {t : MemoryImage} (recorded : t.recordedIndex base = m.recordedIndex base)
    (entries : ∀ (index : Nat) (page : MemoryPage),
      t.pages[index]? = some (base, page) ↔ m.pages[index]? = some (base, page)) :
    t.page base = m.page base := by
  apply ext
  intro page
  simp [page_eq_some_iff, recorded, entries]

end Lookup

/-! ## Updating a page -/

section Update
variable {m : MemoryImage}

/-- Whether the tables can hold the position of the next page. -/
def HasRoomFor (m : MemoryImage) (base : U64) : Prop :=
  m.page base = none → m.pageDirectory.covers base = true → m.pages.length < 2 ^ 32 - 1

theorem storedIndex_of_room (room : m.pageDirectory.covers base → m.pages.length < 2 ^ 32 - 1) :
    m.storedIndex base m.pages.length = some m.pages.length := by
  rw [storedIndex]
  split
  case isTrue covered => exact entryIndex_ofNat (room covered)
  case isFalse => rfl

theorem insertPage_pages (m : MemoryImage) :
    (m.insertPage base).pages = m.pages ++ [(base, .new)] :=
  recordPageIndex_pages _

section
variable (sound : m.pageDirectory.Sound)
include sound

theorem insertPage_directory : (m.insertPage base).pageDirectory.Sound :=
  recordPageIndex_sound (m := { m with pages := m.pages ++ [(base, new)] }) sound _

theorem recordedIndex_insertPage
    (alignedBase : PageAligned base) (alignedOther : PageAligned other) :
    (m.insertPage base).recordedIndex other =
      if other = base then m.storedIndex base m.pages.length else m.recordedIndex other :=
  recordedIndex_recordPageIndex (m := { m with pages := m.pages ++ [(base, new)] }) sound
    alignedBase alignedOther _

theorem page_insertPage_ne (alignedBase : PageAligned base) (alignedOther : PageAligned other)
    (distinct : other ≠ base) : (m.insertPage base).page other = m.page other := by
  refine page_congr ?_ fun index page => ?_
  · rw [recordedIndex_insertPage sound alignedBase alignedOther, if_neg distinct]
  · rw [insertPage_pages, List.getElem?_append]
    split
    · rfl
    case isFalse beyond =>
      rw [List.getElem?_eq_none (Nat.le_of_not_lt beyond), List.getElem?_singleton]
      split
      · simp [distinct.symm]
      · rfl

theorem page_insertPage_self (alignedBase : PageAligned base)
    (room : m.pageDirectory.covers base → m.pages.length < 2 ^ 32 - 1) :
    (m.insertPage base).page base = some .new := by
  refine page_eq_some_iff.mpr ⟨m.pages.length, ?_, ?_⟩
  · rw [recordedIndex_insertPage sound alignedBase alignedBase, if_pos rfl,
      storedIndex_of_room room]
  · rw [insertPage_pages, List.getElem?_concat_length]

omit sound in
/-- A page that was absent takes the last position of the table. -/
theorem updatePage_of_absent (absent : m.page base = none) :
    m.updatePage base f = (m.insertPage base).modifyPage m.pages.length f := by
  rw [updatePage, pageMutOrInsert, page_eq_none_iff.mp absent]

omit sound in
theorem updatePage_of_present (found : m.pageLookupIndex base = some index) :
    m.updatePage base f = m.modifyPage index f := by
  rw [updatePage, pageMutOrInsert, found]

omit sound in
/-- A lookup of another page does not see the update, whatever became of the updated one. -/
theorem modifyPage_page_ne (here : m.pages[index]? = some (base, entry)) (distinct : other ≠ base) :
    (m.modifyPage index f).page other = m.page other := by
  refine page_congr rfl fun j page => ?_
  rw [modifyPage, List.getElem?_modify]
  by_cases same : index = j
  · subst same
    simp [here, distinct.symm]
  · cases m.pages[j]? <;> simp [same]

theorem page_updatePage_ne (alignedBase : PageAligned base) (alignedOther : PageAligned other)
    (distinct : other ≠ base) : (m.updatePage base f).page other = m.page other := by
  cases found : m.pageLookupIndex base with
  | some => rw [updatePage_of_present found, modifyPage_page found, if_neg distinct]
  | none =>
    have last : (m.insertPage base).pages[m.pages.length]? = some (base, new) := by
      rw [insertPage_pages, List.getElem?_concat_length]
    rw [updatePage_of_absent (page_eq_none_iff.mpr found), modifyPage_page_ne last distinct,
      page_insertPage_ne sound alignedBase alignedOther distinct]

theorem page_updatePage_self (alignedBase : PageAligned base) (room : m.HasRoomFor base) :
    (m.updatePage base f).page base = some (f ((m.page base).getD .new)) := by
  cases found : m.pageLookupIndex base with
  | some =>
    rw [updatePage_of_present found, modifyPage_page found, if_pos rfl]
    cases looked : m.page base with
    | some => rfl
    | none =>
      rw [page_eq_none_iff.mp looked] at found
      cases found
  | none =>
    have absent := page_eq_none_iff.mpr found
    have here := page_insertPage_self sound alignedBase (room absent)
    have looked : (m.insertPage base).pageLookupIndex base = some m.pages.length := by
      refine filter_eq_some_iff.mpr ⟨?_, ?_⟩
      · rw [recordedIndex_insertPage sound alignedBase alignedBase, if_pos rfl, storedIndex_of_room (room absent)]
      · rw [insertPage_pages, List.getElem?_concat_length]
        exact beq_self_eq_true _
    rw [updatePage_of_absent absent, modifyPage_page looked, if_pos rfl, here, absent]
    rfl

theorem updatePage_directory : (m.updatePage base f).pageDirectory.Sound := by
  cases found : m.pageLookupIndex base with
  | some =>
    rw [updatePage_of_present found]
    exact sound
  | none =>
    rw [updatePage_of_absent (page_eq_none_iff.mpr found)]
    exact insertPage_directory sound

end

theorem updatePage_length (m : MemoryImage) :
    (m.updatePage base f).pages.length = m.pages.length + if m.page base = none then 1 else 0 := by
  cases found : m.pageLookupIndex base with
  | some index =>
    have present : m.page base ≠ none := by
      rw [Ne, page_eq_none_iff, found]
      exact some_ne_none index
    rw [updatePage_of_present found, if_neg present]
    exact List.length_modify _ _ _
  | none =>
    have absent := page_eq_none_iff.mpr found
    rw [updatePage_of_absent absent, if_pos absent, modifyPage, List.length_modify,
      insertPage_pages, List.length_append, List.length_singleton]

/-- A page whose position does not fit the directory cannot be found again. -/
theorem page_updatePage_lost (sound : m.Sound) (alignedBase : PageAligned base)
    (absent : m.page base = none) (covered : m.pageDirectory.covers base)
    (crowded : 2 ^ 32 - 1 ≤ m.pages.length) : (m.updatePage base f).page base = none := by
  rw [updatePage_of_absent absent]
  refine eq_none_iff_forall_ne_some.mpr fun page found => ?_
  obtain ⟨index, recorded, entry⟩ := page_eq_some_iff.mp found
  have stored : m.storedIndex base m.pages.length = some index := by
    rw [← recorded]
    exact ((recordedIndex_insertPage sound.directory alignedBase alignedBase).trans (if_pos rfl)).symm
  rw [storedIndex, if_pos covered] at stored
  obtain ⟨present, value⟩ := entryIndex_eq_some stored
  have notLast : m.pages.length ≠ 2 ^ 32 - 1 := by
    intro last
    rw [last] at present
    exact present (by decide)
  -- the truncated position is that of an older page
  have older : index < m.pages.length := by omega
  rw [modifyPage, insertPage_pages, List.getElem?_modify, List.getElem?_append_left older] at entry
  obtain ⟨⟨base', page'⟩, here, same⟩ := map_eq_some_iff.mp entry
  have base_eq : base' = base := by
    have first := congrArg Prod.fst same
    split at first <;> exact first
  rw [base_eq] at here
  rw [sound.page_iff.mpr (List.mem_of_getElem? here)] at absent
  cases absent

/-- An image that finds its pages where a sound one does is sound if each of them is. -/
theorem Sound.of_entries {t : MemoryImage} (sound : m.Sound) (directory : t.pageDirectory.Sound)
    (recorded : t.recordedIndex = m.recordedIndex)
    (entries : ∀ (j : Nat) (entry : U64 × MemoryPage), t.pages[j]? = some entry →
      ∃ page, m.pages[j]? = some (entry.1, page) ∧ entry.2.Sound) : t.Sound := by
  refine ⟨directory, fun entry member => ?_, fun j entry found => ?_, fun entry member => ?_⟩
  · obtain ⟨j, found⟩ := List.mem_iff_getElem?.mp member
    obtain ⟨page, here, -⟩ := entries j entry found
    exact sound.aligned (entry.1, page) (List.mem_of_getElem? here)
  · obtain ⟨page, here, -⟩ := entries j entry found
    rw [recorded]
    exact sound.tracked j (entry.1, page) here
  · obtain ⟨j, found⟩ := List.mem_iff_getElem?.mp member
    obtain ⟨page, -, whole⟩ := entries j entry found
    exact whole

theorem modifyPage_sound (sound : m.Sound) (keeps : ∀ page, page.Sound → (f page).Sound)
    (index : Nat) : (m.modifyPage index f).Sound := by
  refine sound.of_entries sound.directory rfl fun j entry found => ?_
  rw [modifyPage, List.getElem?_modify] at found
  obtain ⟨⟨base, page⟩, here, rfl⟩ := map_eq_some_iff.mp found
  have whole := sound.pages _ (List.mem_of_getElem? here)
  refine ⟨page, ?_, ?_⟩
  · rw [here]
    split <;> rfl
  · split
    · exact keeps page whole
    · exact whole

theorem insertPage_sound (sound : m.Sound) (alignedBase : PageAligned base)
    (absent : m.page base = none)
    (room : m.pageDirectory.covers base → m.pages.length < 2 ^ 32 - 1) :
    (m.insertPage base).Sound := by
  have members : ∀ entry ∈ (m.insertPage base).pages, entry ∈ m.pages ∨ entry = (base, .new) := by
    intro entry member
    rw [insertPage_pages] at member
    exact (List.mem_append.mp member).imp_right List.mem_singleton.mp
  refine ⟨insertPage_directory sound.directory, ?_, ?_, ?_⟩
  · intro entry member
    rcases members entry member with old | rfl
    · exact sound.aligned entry old
    · exact alignedBase
  · rw [insertPage_pages]
    refine sound.tracked.push (fun entry member => ?_) ?_
    · have distinct : entry.1 ≠ base := by
        rintro rfl
        rw [sound.page_iff.mpr member] at absent
        cases absent
      rw [recordedIndex_insertPage sound.directory alignedBase (sound.aligned entry member), if_neg distinct]
    · rw [recordedIndex_insertPage sound.directory alignedBase alignedBase, if_pos rfl, storedIndex_of_room room]
  · intro entry member
    rcases members entry member with old | rfl
    · exact sound.pages entry old
    · exact new_sound

theorem updatePage_sound (sound : m.Sound) (alignedBase : PageAligned base)
    (room : m.HasRoomFor base) (keeps : ∀ page, page.Sound → (f page).Sound) :
    (m.updatePage base f).Sound := by
  cases found : m.pageLookupIndex base with
  | some index =>
    rw [updatePage_of_present found]
    exact modifyPage_sound sound keeps index
  | none =>
    have absent := page_eq_none_iff.mpr found
    rw [updatePage_of_absent absent]
    exact modifyPage_sound (insertPage_sound sound alignedBase absent (room absent)) keeps _

end Update

/-! ## Removing a page -/

section Remove
variable {m : MemoryImage}

/-- A position smaller than a recorded one can be recorded. -/
theorem storedIndex_of_recorded (recorded : m.recordedIndex base = some larger)
    (smaller : index ≤ larger) : m.storedIndex base index = some index := by
  rw [storedIndex]
  split
  case isFalse => rfl
  case isTrue covered =>
    obtain ⟨slot, here⟩ := isSome_iff_exists.mp covered
    rw [recordedIndex_eq, here] at recorded
    simp only [entryAt, bind_eq_bind, bind_eq_some_iff] at recorded
    obtain ⟨t, -, table, -, entry⟩ := recorded
    obtain ⟨present, value⟩ := entryIndex_eq_some entry
    have bound : larger < 2 ^ 32 - 1 := by
      have notMarker : (table slot.2).toNat ≠ 2 ^ 32 - 1 := fun top =>
        present (eq_of_toNat_eq (top.trans toNat_allOnes.symm))
      omega
    exact entryIndex_ofNat (by omega)

/-- The table without the page at `index`, before the moved page is recorded. -/
def withoutPage (m : MemoryImage) (base : U64) (index : Nat) : MemoryImage :=
  { m with pages := DenseMap.swapRemove m.pages index }.forgetPageIndex base

theorem withoutPage_pages (m : MemoryImage) :
    (m.withoutPage base index).pages = DenseMap.swapRemove m.pages index :=
  forgetPageIndex_pages _

theorem recordedIndex_withoutPage (sound : m.pageDirectory.Sound) (alignedBase : PageAligned base)
    (alignedOther : PageAligned other) :
    (m.withoutPage base index).recordedIndex other = if other = base then none
      else m.recordedIndex other :=
  recordedIndex_forgetPageIndex (m := { m with pages := DenseMap.swapRemove m.pages index }) sound
    alignedBase alignedOther

theorem removePage_of_present (found : m.pageLookupIndex base = some index) :
    m.removePage base = match (m.withoutPage base index).pages[index]? with
      | some (movedBase, _) => (m.withoutPage base index).recordPageIndex movedBase index
      | none => m.withoutPage base index := by
  rw [removePage, found]
  rfl

theorem removePage_pages (found : m.pageLookupIndex base = some index) :
    (m.removePage base).pages = DenseMap.swapRemove m.pages index := by
  rw [removePage_of_present found]
  split
  · rw [recordPageIndex_pages, withoutPage_pages]
  · rw [withoutPage_pages]

theorem mem_removePage (sound : m.Sound) :
    entry ∈ (m.removePage base).pages ↔ entry ∈ m.pages ∧ entry.1 ≠ base := by
  cases found : m.pageLookupIndex base with
  | none =>
    have absent := page_eq_none_iff.mpr found
    have unchanged : m.removePage base = m := by rw [removePage, found]
    rw [unchanged, iff_self_and]
    rintro member rfl
    rw [sound.page_iff.mpr member] at absent
    cases absent
  | some =>
    obtain ⟨⟨base', page⟩, here, rfl⟩ := map_eq_some_iff.mp (pageLookupIndex_base found)
    rw [removePage_pages found, DenseMap.mem_swapRemove here, List.mem_iff_getElem?]
    constructor
    · rintro ⟨j, distinct, at_j⟩
      exact ⟨⟨j, at_j⟩, fun same => distinct (sound.tracked.position at_j here same)⟩
    · rintro ⟨⟨j, at_j⟩, distinct⟩
      refine ⟨j, ?_, at_j⟩
      rintro rfl
      rw [here] at at_j
      exact distinct (congrArg Prod.fst (some.inj at_j)).symm

theorem removePage_directory (sound : m.pageDirectory.Sound) :
    (m.removePage base).pageDirectory.Sound := by
  cases found : m.pageLookupIndex base with
  | none =>
    rw [removePage, found]
    exact sound
  | some index =>
    have removed : (m.withoutPage base index).pageDirectory.Sound :=
      forgetPageIndex_sound (m := { m with pages := DenseMap.swapRemove m.pages index }) sound
    rw [removePage_of_present found]
    split
    · exact recordPageIndex_sound removed index
    · exact removed

/-- Every remaining page is found where it lies, the moved one at its new position. -/
theorem removePage_tracked (sound : m.Sound) (alignedBase : PageAligned base) :
    DenseMap.Tracks (m.removePage base).pages (m.removePage base).recordedIndex := by
  cases found : m.pageLookupIndex base with
  | none =>
    rw [removePage, found]
    exact sound.tracked
  | some index =>
    obtain ⟨⟨base', page⟩, here, rfl⟩ := map_eq_some_iff.mp (pageLookupIndex_base found)
    have bound := (List.getElem?_eq_some_iff.mp here).1
    obtain ⟨last, final⟩ : ∃ last, m.pages.getLast? = some last := by
      rw [List.getLast?_eq_getElem?]
      exact ⟨_, List.getElem?_eq_getElem (by omega)⟩
    have atEnd : m.pages[m.pages.length - 1]? = some last := by
      rw [← final, List.getLast?_eq_getElem?]
    have alignedLast := sound.aligned last (List.mem_of_getElem? atEnd)
    have removed : (m.withoutPage base' index).pageDirectory.Sound :=
      forgetPageIndex_sound (m := { m with pages := DenseMap.swapRemove m.pages index }) sound.directory
    have moved : (m.withoutPage base' index).pages[index]? =
        if index + 1 < m.pages.length then some last else none := by
      rw [withoutPage_pages, DenseMap.getElem?_swapRemove final, if_pos rfl]
    rw [removePage_pages found]
    refine sound.tracked.swapRemove here final (fun inside => ?_) fun entry member notBase notLast => ?_
    · have stored : (m.withoutPage base' index).storedIndex last.1 index = some index := by
        have covers : (m.withoutPage base' index).pageDirectory.covers last.1 = m.pageDirectory.covers last.1 :=
          congrArg isSome (chunkOf_congr (forgetPageIndex_chunks _))
        rw [storedIndex, covers]
        exact storedIndex_of_recorded (sound.tracked _ last atEnd) (by omega)
      rw [if_pos inside] at moved
      rw [removePage_of_present found, moved]
      rw [recordedIndex_recordPageIndex removed alignedLast alignedLast, if_pos rfl, stored]
    · have alignedEntry := sound.aligned entry member
      have kept : (m.withoutPage base' index).recordedIndex entry.1 = m.recordedIndex entry.1 := by
        rw [recordedIndex_withoutPage sound.directory alignedBase alignedEntry, if_neg notBase]
      rw [removePage_of_present found, moved]
      split
      case h_1 movedBase movedPage same =>
        split at same
        case isTrue =>
          obtain rfl := some.inj same
          rw [recordedIndex_recordPageIndex removed alignedLast alignedEntry, if_neg notLast, kept]
        case isFalse => cases same
      case h_2 => exact kept

theorem removePage_sound (sound : m.Sound) (alignedBase : PageAligned base) :
    (m.removePage base).Sound where
  directory := removePage_directory sound.directory
  aligned entry member := sound.aligned entry ((mem_removePage sound).mp member).1
  tracked := removePage_tracked sound alignedBase
  pages entry member := sound.pages entry ((mem_removePage sound).mp member).1

theorem page_removePage (sound : m.Sound) (alignedBase : PageAligned base) :
    (m.removePage base).page other = if other = base then none else m.page other := by
  apply ext
  intro page
  rw [(removePage_sound sound alignedBase).page_iff, mem_removePage sound, ← sound.page_iff]
  by_cases same : other = base
  · simp [same]
  · simp [same]

end Remove

end MemoryImage

end Casa.Cpu
