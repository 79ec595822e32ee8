import Casa.Cpu.Memory
import Casa.Lib.MaskRanks

/-! The mapped bitmap of a guest page, read byte by byte: what the word masks
select, that the range test and the search for the first gap agree, and that
marking a range adds exactly its bytes. -/
namespace Casa.Cpu
open Effect MachineInt BitVec List

namespace MemoryPage

/-! ## Word masks -/

theorem getLsbD_bitMask (nonempty : startBit < endBit) (inside : endBit ≤ 64) :
    (bitMask startBit endBit).getLsbD i = decide (startBit ≤ i ∧ i < endBit) := by
  rw [bitMask]
  split
  case isTrue whole =>
    obtain rfl : startBit = 0 := by omega
    obtain rfl : endBit = 64 := by omega
    rw [getLsbD_allOnes, decide_eq_decide]
    omega
  case isFalse partly =>
    have low := @getLsbD_ones 64 (endBit - startBit) (by omega)
    have masked : (shl 1 (endBit - startBit) - 1 : U64) = (1#64 <<< (endBit - startBit)) - 1#64 := by
      rw [shl_of_lt (by omega)]
      rfl
    rw [masked, shl_of_lt (by omega), getLsbD_shiftLeft, low]
    by_cases high : i < 64
    · by_cases above : startBit ≤ i
      · simp only [high, above, decide_true, Bool.true_and, Nat.not_lt.mpr above, decide_false,
          Bool.not_false, true_and, decide_eq_decide]
        omega
      · simp [above]
    · have outside : ¬ (startBit ≤ i ∧ i < endBit) := by omega
      simp [high, outside]

/-- A word mask selects the bytes of the range that lie in the word. -/
theorem getLsbD_wordMask (nonempty : start < stop) (above : start / 64 ≤ index)
    (below : index ≤ (stop - 1) / 64) (inside : i < 64) :
    (wordMask start stop index).getLsbD i =
      decide (start ≤ index * 64 + i ∧ index * 64 + i < stop) := by
  rw [wordMask, getLsbD_bitMask, decide_eq_decide]
  · split <;> split <;> omega
  · split <;> split <;> omega
  · split <;> omega

theorem mem_wordRange :
    index ∈ wordRange start stop ↔ start / 64 ≤ index ∧ index ≤ (stop - 1) / 64 := by
  simp only [wordRange, mem_map, mem_range]
  constructor
  · rintro ⟨k, bound, rfl⟩
    omega
  · rintro ⟨above, below⟩
    exact ⟨index - start / 64, by omega, by omega⟩

theorem wordRange_pairwise (start stop : Nat) : (wordRange start stop).Pairwise (· < ·) := by
  rw [wordRange, pairwise_map]
  exact pairwise_lt_range.imp fun less => Nat.add_lt_add_left less _

/-! ## Mapped bytes -/

theorem isMapped_eq (page : MemoryPage) :
    page.isMapped offset = (page.mapped (offset / 64)).getLsbD (offset % 64) := by
  have inside : offset % 64 < 64 := Nat.mod_lt _ (by decide)
  rw [isMapped, shl_of_lt inside]
  exact and_one_shiftLeft inside

/-- What `range_is_mapped` asks of each byte. -/
def holds (page : MemoryPage) (offset : Nat) : Bool := page.fullyMapped || page.isMapped offset

section Range
variable {page : MemoryPage}

/-- The bits of one word of the range that are not mapped. -/
theorem missingBits_iff (page : MemoryPage) (member : index ∈ wordRange start (start + len))
    (nonempty : len ≠ 0) (inside : i < 64) :
    (~~~page.mapped index &&& wordMask start (start + len) index).getLsbD i ↔
      start ≤ index * 64 + i ∧ index * 64 + i < start + len ∧ page.isMapped (index * 64 + i) = false := by
  obtain ⟨above, below⟩ := mem_wordRange.mp member
  have word : (index * 64 + i) / 64 = index := by omega
  have bit : (index * 64 + i) % 64 = i := by omega
  rw [getLsbD_and, getLsbD_not, getLsbD_wordMask (by omega) above below inside, isMapped_eq, word,
    bit]
  simp only [Bool.and_eq_true, Bool.not_eq_true', decide_eq_true_eq]
  tauto

theorem mem_wordRange_of_inside (above : start ≤ offset) (below : offset < start + len) :
    offset / 64 ∈ wordRange start (start + len) :=
  mem_wordRange.mpr ⟨by omega, by omega⟩

theorem and_eq_mask_iff : (word &&& mask == mask) ↔ ~~~word &&& mask = 0#64 := by
  have bits : ∀ i < 64, ((word &&& mask).getLsbD i = mask.getLsbD i ↔
      (~~~word &&& mask).getLsbD i = (0#64).getLsbD i) := by
    intro i inside
    rw [getLsbD_and, getLsbD_and, getLsbD_not, getLsbD_zero, decide_eq_true inside]
    cases word.getLsbD i <;> cases mask.getLsbD i <;> decide
  rw [beq_iff_eq]
  constructor
  · intro same
    exact eq_of_getLsbD_eq fun i inside => (bits i inside).mp (by rw [same])
  · intro clear
    exact eq_of_getLsbD_eq fun i inside => (bits i inside).mpr (by rw [clear])

/-- A word of the range has no gap exactly when its bytes of the range are mapped. -/
theorem word_complete_iff (member : index ∈ wordRange start (start + len)) (nonempty : len ≠ 0) :
    ~~~page.mapped index &&& wordMask start (start + len) index = 0#64 ↔
      ∀ offset, start ≤ offset → offset < start + len → offset / 64 = index → page.isMapped offset := by
  constructor
  · rintro complete offset above below rfl
    by_contra gap
    have bit := (missingBits_iff page (i := offset % 64) member nonempty (by omega)).mpr
      ⟨by omega, by omega, by rw [Nat.div_add_mod']; simpa using gap⟩
    rw [complete, getLsbD_zero] at bit
    cases bit
  · intro mapped
    apply eq_of_getLsbD_eq
    intro i inside
    rw [getLsbD_zero, ← Bool.not_eq_true, missingBits_iff page member nonempty inside]
    rintro ⟨above, below, gap⟩
    rw [mapped _ above below (by omega)] at gap
    cases gap

theorem rangeIsMapped_iff : page.rangeIsMapped start len ↔
    ∀ offset, start ≤ offset → offset < start + len → page.holds offset := by
  rw [rangeIsMapped]
  split
  case isTrue empty =>
    refine iff_of_true rfl fun offset above below => ?_
    omega
  case isFalse nonempty =>
    split
    case isTrue full => simp [holds, full]
    case isFalse notFull =>
      have bits : ∀ offset, page.holds offset = page.isMapped offset := by
        intro offset
        simp [holds, notFull]
      rw [all_eq_true]
      constructor
      · intro all offset above below
        have member := mem_wordRange_of_inside above below
        rw [bits]
        exact (word_complete_iff member nonempty).mp (and_eq_mask_iff.mp (all _ member)) offset above
          below rfl
      · intro mapped index member
        refine and_eq_mask_iff.mpr ((word_complete_iff member nonempty).mpr ?_)
        intro offset above below _
        rw [← bits]
        exact mapped offset above below

/-- The search finds the first gap of the range. -/
theorem firstUnmappedOffset_eq_some (found : page.firstUnmappedOffset start len = some offset) :
    start ≤ offset ∧ offset < start + len ∧ page.isMapped offset = false ∧
      ∀ earlier, start ≤ earlier → earlier < offset → page.isMapped earlier := by
  rw [firstUnmappedOffset] at found
  split at found
  · cases found
  case isFalse nonempty =>
    obtain ⟨before, index, after, words, here, none⟩ := findSome?_eq_some_iff.mp found
    have member : index ∈ wordRange start (start + len) := by
      rw [words]
      exact mem_append_right _ mem_cons_self
    dsimp only at here
    split at here
    case isFalse => cases here
    case isTrue gap =>
      obtain rfl := Option.some.inj here
      have nonzero : ~~~page.mapped index &&& wordMask start (start + len) index ≠ 0#64 := by
        simpa using gap
      have bit := getLsbD_trailingZeros nonzero
      have inside := lt_of_getLsbD bit
      obtain ⟨above, below, unmapped⟩ := (missingBits_iff page member nonempty inside).mp bit
      refine ⟨above, below, unmapped, fun earlier first less => ?_⟩
      by_cases sameWord : earlier / 64 = index
      · -- a lower bit of the word that holds the gap
        by_contra hole
        have lower : earlier % 64 < trailingZeros
            (~~~page.mapped index &&& wordMask start (start + len) index) := by omega
        have missing := (missingBits_iff page (i := earlier % 64) member nonempty
          (by omega)).mpr ⟨by omega, by omega, by
            rw [show index * 64 + earlier % 64 = earlier by omega]
            simpa using hole⟩
        rw [getLsbD_of_lt_trailingZeros lower] at missing
        cases missing
      · -- an earlier word, which the search found complete
        have sorted := wordRange_pairwise start (start + len)
        have present := mem_wordRange_of_inside first (less.trans below)
        have prior : earlier / 64 ∈ before := by
          rw [words] at present sorted
          rcases mem_append.mp present with inBefore | inRest
          · exact inBefore
          · rcases mem_cons.mp inRest with same | later
            · exact absurd same sameWord
            · have order := rel_of_pairwise_cons (pairwise_append.mp sorted).2.1 later
              omega
        have complete := none _ prior
        dsimp only at complete
        split at complete
        · cases complete
        case isFalse whole =>
          exact (word_complete_iff present nonempty).mp (by simpa using whole) earlier first
            (less.trans below) rfl

theorem firstUnmappedOffset_eq_none (none : page.firstUnmappedOffset start len = none) :
    ∀ offset, start ≤ offset → offset < start + len → page.isMapped offset := by
  intro offset above below
  rw [firstUnmappedOffset, if_neg (by omega)] at none
  have member := mem_wordRange_of_inside above below
  have word := findSome?_eq_none_iff.mp none _ member
  dsimp only at word
  split at word
  · cases word
  case isFalse whole =>
    exact (word_complete_iff member (by omega)).mp (by simpa using whole) offset above below rfl

/-- The two tests agree: a range refused by the first has a first gap. -/
theorem firstUnmappedOffset_of_not_mapped (refused : ¬ page.rangeIsMapped start len) :
    page.fullyMapped = false ∧ ∃ offset, page.firstUnmappedOffset start len = some offset := by
  have gap : ¬ ∀ offset, start ≤ offset → offset < start + len → page.holds offset := by
    rw [← rangeIsMapped_iff]
    exact refused
  constructor
  · by_contra full
    exact gap fun offset _ _ => by simp [holds, Bool.of_not_eq_false full]
  · cases found : page.firstUnmappedOffset start len with
    | some offset => exact ⟨offset, rfl⟩
    | none =>
      refine absurd (fun offset above below => ?_) gap
      rw [holds, firstUnmappedOffset_eq_none found offset above below, Bool.or_true]

end Range

/-! ## Pages as the loader builds them -/

/-- A page just materialised: zeroed bytes, none of them mapped. -/
def new : MemoryPage := ⟨fun _ => 0, fun _ => 0, false⟩

def markFullyMapped (page : MemoryPage) : MemoryPage :=
  { page with mapped := fun _ => BitVec.allOnes 64, fullyMapped := true }

def markMappedRange (page : MemoryPage) (start len : Nat) : MemoryPage :=
  if len = 0 then page
  else if page.fullyMapped then page
  else if start = 0 ∧ len = memoryPageSize then page.markFullyMapped
  else
    let stop := start + len
    let mapped index :=
      if start / 64 ≤ index ∧ index ≤ (stop - 1) / 64 then page.mapped index ||| wordMask start stop index
      else page.mapped index
    { page with mapped, fullyMapped := (List.range 64).all fun index => mapped index == BitVec.allOnes 64 }

/-- A set flag is backed by the bitmap, and bytes that are not mapped read zero. -/
structure Sound (page : MemoryPage) : Prop where
  full : page.fullyMapped = true → ∀ offset < memoryPageSize, page.isMapped offset = true
  clean : ∀ offset < memoryPageSize, page.isMapped offset = false → page.bytes offset = 0

/-- What a page contributes to guest memory: its mapped bytes. -/
def cell (page : MemoryPage) (offset : Nat) : Option U8 :=
  if page.isMapped offset then some (page.bytes offset) else none

theorem isMapped_new : new.isMapped offset = false := by
  rw [isMapped_eq]
  exact getLsbD_zero

theorem new_sound : new.Sound where
  full full := nomatch full
  clean _ _ _ := rfl

theorem cell_new : new.cell offset = none := by
  rw [cell, isMapped_new]
  rfl

theorem isMapped_markFullyMapped (page : MemoryPage) : page.markFullyMapped.isMapped offset := by
  rw [isMapped_eq, markFullyMapped, getLsbD_allOnes]
  exact decide_eq_true (Nat.mod_lt _ (by decide))

section Mark
variable {page : MemoryPage}

theorem markFullyMapped_sound (page : MemoryPage) : page.markFullyMapped.Sound where
  full _ offset _ := isMapped_markFullyMapped page
  clean offset _ unmapped := by
    rw [isMapped_markFullyMapped] at unmapped
    cases unmapped

/-- Committing a page maps its missing bytes, which are zero. -/
theorem cell_markFullyMapped (sound : page.Sound) (inside : offset < memoryPageSize) :
    page.markFullyMapped.cell offset = some ((page.cell offset).getD 0) := by
  rw [cell, isMapped_markFullyMapped, if_pos rfl, cell]
  split
  · rfl
  case isFalse unmapped =>
    exact congrArg some (sound.clean offset inside (Bool.of_not_eq_true unmapped))

section Backed
variable (page : MemoryPage)
  (backed : page.fullyMapped = true → ∀ offset < memoryPageSize, page.isMapped offset = true)
include backed

theorem holds_eq (inside : offset < memoryPageSize) : page.holds offset = page.isMapped offset := by
  rw [holds]
  cases full : page.fullyMapped with
  | false => rfl
  | true => rw [backed full offset inside]; rfl

/-- Marking a range adds its bytes to the mapped ones. -/
theorem isMapped_markMappedRange (fits : start + len ≤ memoryPageSize)
    (inside : offset < memoryPageSize) :
    (page.markMappedRange start len).isMapped offset =
      (page.isMapped offset || decide (start ≤ offset ∧ offset < start + len)) := by
  rw [markMappedRange]
  split
  case isTrue empty =>
    have outside : ¬ (start ≤ offset ∧ offset < start + len) := by omega
    rw [decide_eq_false outside, Bool.or_false]
  split
  case isTrue full =>
    rw [backed full offset inside, Bool.true_or]
  split
  case isTrue whole =>
    have covered : start ≤ offset ∧ offset < start + len := by omega
    rw [isMapped_markFullyMapped, decide_eq_true covered, Bool.or_true]
  case isFalse nonempty _ _ =>
    simp only [isMapped_eq]
    split
    case isTrue touched =>
      rw [getLsbD_or, getLsbD_wordMask (by omega) touched.1 touched.2 (by omega), Nat.div_add_mod']
    case isFalse untouched =>
      have outside : ¬ (start ≤ offset ∧ offset < start + len) := by omega
      rw [decide_eq_false outside, Bool.or_false]

theorem markMappedRange_backed (full : (page.markMappedRange start len).fullyMapped) :
    ∀ offset < memoryPageSize, (page.markMappedRange start len).isMapped offset := by
  intro offset inside
  rw [markMappedRange] at full ⊢
  split
  case isTrue empty =>
    rw [if_pos empty] at full
    exact backed full offset inside
  case isFalse nonempty =>
    rw [if_neg nonempty] at full
    split
    case isTrue already => exact backed already offset inside
    case isFalse notFull =>
      rw [if_neg notFull] at full
      split
      case isTrue => exact isMapped_markFullyMapped page
      case isFalse partly =>
        rw [if_neg partly] at full
        have word := all_eq_true.mp full (offset / 64)
          (mem_range.mpr (by rw [memoryPageSize] at inside; omega))
        rw [isMapped_eq]
        dsimp only at word ⊢
        rw [eq_of_beq word, getLsbD_allOnes]
        exact decide_eq_true (Nat.mod_lt _ (by decide))

end Backed

theorem markMappedRange_bytes (page : MemoryPage) :
    (page.markMappedRange start len).bytes = page.bytes := by
  rw [markMappedRange]
  split
  · rfl
  split
  · rfl
  split <;> rfl

section Store
variable {bytes : Nat → U8} (sound : page.Sound) (fits : start + len ≤ memoryPageSize)
  (kept : ∀ i, ¬ (start ≤ i ∧ i < start + len) → bytes i = page.bytes i)
include sound fits kept

/-- Storing over a range and marking it keeps the page sound. -/
theorem storeRange_sound : ({ page with bytes }.markMappedRange start len).Sound where
  full full := markMappedRange_backed { page with bytes } sound.full full
  clean offset inside unmapped := by
    rw [isMapped_markMappedRange { page with bytes } sound.full fits inside] at unmapped
    obtain ⟨before, outside⟩ := Bool.or_eq_false_iff.mp unmapped
    rw [markMappedRange_bytes]
    exact (kept offset (of_decide_eq_false outside)).trans (sound.clean offset inside before)

/-- Storing over a range and marking it maps exactly the bytes of the range. -/
theorem cell_storeRange (inside : offset < memoryPageSize) :
    ({ page with bytes }.markMappedRange start len).cell offset =
      if start ≤ offset ∧ offset < start + len then some (bytes offset) else page.cell offset := by
  rw [cell, isMapped_markMappedRange { page with bytes } sound.full fits inside,
    markMappedRange_bytes]
  by_cases covered : start ≤ offset ∧ offset < start + len
  · rw [decide_eq_true covered, Bool.or_true, if_pos rfl, if_pos covered]
  · rw [decide_eq_false covered, Bool.or_false, if_neg covered, cell, ← kept offset covered]
    rfl

end Store

end Mark

/-! ## The marker -/

/-- What happens to a page. A page is unmapped as a whole, and the next one at its
base is new. -/
inductive PageOperation where
  | markMappedRange (start len : Nat)
  | markFullyMapped
  | unmap

namespace PageOperation

def apply (page : MemoryPage) : PageOperation → MemoryPage
  | .markMappedRange start len => page.markMappedRange start len
  | .markFullyMapped => page.markFullyMapped
  | .unmap => new

end PageOperation

section Marked
variable {page : MemoryPage}

/-- The marker says that every bit is set. -/
def Marked (page : MemoryPage) : Prop :=
  page.fullyMapped = true ↔ ∀ offset < memoryPageSize, page.isMapped offset = true

theorem new_marked : new.Marked :=
  iff_of_false nofun fun all => nomatch (all 0 (by decide)).symm.trans isMapped_new

theorem markMappedRange_marked (marked : page.Marked) :
    (page.markMappedRange start len).Marked := by
  refine ⟨page.markMappedRange_backed marked.mp, fun all => ?_⟩
  rw [markMappedRange] at all ⊢
  split
  case isTrue empty =>
    rw [if_pos empty] at all
    exact marked.mpr all
  split
  · assumption
  split
  · rfl
  case isFalse nonempty notFull partly =>
    rw [if_neg nonempty, if_neg notFull, if_neg partly] at all
    refine all_eq_true.mpr fun index member => beq_of_eq (eq_of_getLsbD_eq fun i bound => ?_)
    have bit := all (index * 64 + i) (by rw [mem_range] at member; rw [memoryPageSize]; omega)
    rw [isMapped_eq, show (index * 64 + i) / 64 = index by omega,
      show (index * 64 + i) % 64 = i by omega] at bit
    rw [getLsbD_allOnes, decide_eq_true bound]
    exact bit

theorem apply_marked (marked : page.Marked) (operation : PageOperation) :
    (operation.apply page).Marked := by
  cases operation with
  | markMappedRange => exact markMappedRange_marked marked
  | markFullyMapped => exact iff_of_true rfl fun offset _ => isMapped_markFullyMapped page
  | unmap => exact new_marked

end Marked

end MemoryPage

end Casa.Cpu
