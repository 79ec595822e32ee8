import Casa.Cpu.MemoryMap

/-! Zeroing a range of guest memory. The end of the range is a saturated sum, so
the loop never reaches the last byte of the address space; every other range is
zeroed byte for byte. -/
namespace Casa.Cpu
open Effect MachineInt BitVec
open BitVec (allOnes ofNat)

namespace MemoryImage

/-- The bytes of the range, and no others, are mapped and zero afterwards. -/
def ZeroesExactly (m : MemoryImage) (address : U64) (len : Nat) : Prop :=
  ∀ other : U64, (m.zeroRange address len).cell other =
    if address.toNat ≤ other.toNat ∧ other.toNat < address.toNat + len then some 0 else m.cell other

/-- Sixteen bytes up to the end of the address space: the last one stays unmapped. -/
theorem zeroRange_misses_last_byte : ¬ (empty .preferred).ZeroesExactly 0xfffffffffffffff0 16 := by
  intro exact
  have last := exact (allOnes 64)
  revert last
  decide +kernel

/-- How many bytes the loop covers: up to the saturated end. -/
def zeroedLen (address : U64) (len : Nat) : Nat :=
  if address.toNat + len < 2 ^ 64 then len else 2 ^ 64 - 1 - address.toNat

section Walk
variable {m : MemoryImage} {address : U64}

/-- The loop on addresses is the walk over the bytes that are left. -/
theorem zeroChunks_eq (ordered : current.toNat ≤ stop.toNat) :
    zeroChunks fuel current stop m =
      forChunks (fun _ chunk page =>
          (page.fillZero chunk.offset chunk.len).markMappedRange chunk.offset chunk.len)
        fuel current k (stop.toNat - current.toNat) m := by
  induction fuel generalizing m current k with
  | zero => rfl
  | succ fuel ih =>
    have distance : (stop - current).toNat = stop.toNat - current.toNat :=
      toNat_sub_of_le (le_def.mpr ordered)
    rw [zeroChunks]
    by_cases before : current.toNat < stop.toNat
    · have left : stop.toNat - current.toNat ≠ 0 := by omega
      have bounded := chunkAt_len_le current (stop.toNat - current.toNat)
      have next : (current + ofNat 64 (chunkAt current (stop.toNat - current.toNat)).len).toNat =
          current.toNat + (chunkAt current (stop.toNat - current.toNat)).len := by
        rw [toNat_add, toNat_ofNat]
        omega
      have remaining : stop.toNat - current.toNat - (chunkAt current (stop.toNat - current.toNat)).len =
          stop.toNat - (current.toNat + (chunkAt current (stop.toNat - current.toNat)).len) := by omega
      rw [if_pos (ult_iff_toNat_lt.mpr before), distance, forChunks, if_neg left]
      dsimp only
      rw [remaining, ← next]
      exact ih (by omega)
    · have finished : stop.toNat - current.toNat = 0 := by omega
      rw [if_neg fun less => before (ult_iff_toNat_lt.mp less), finished, forChunks_finished]

theorem zeroRange_eq (fits : address.toNat + len ≤ 2 ^ 64) (usize : len < 2 ^ 64) :
    m.zeroRange address len =
      forChunks (fun _ chunk page =>
          (page.fillZero chunk.offset chunk.len).markMappedRange chunk.offset chunk.len)
        (zeroedLen address len) address 0 (zeroedLen address len) m := by
  have value : (ofNat 64 len).toNat = len := by
    rw [toNat_ofNat, Nat.mod_eq_of_lt usize]
  rw [zeroRange, zeroedLen]
  split
  case isTrue none =>
    rw [none, if_pos (by omega), forChunks_finished]
  case isFalse some =>
    have stop : (saturatingAdd address (ofNat 64 len)).toNat =
        address.toNat + if address.toNat + len < 2 ^ 64 then len else 2 ^ 64 - 1 - address.toNat := by
      rw [saturatingAdd, value]
      split
      case isTrue below => rw [toNat_add, value, Nat.mod_eq_of_lt below]
      case isFalse => rw [toNat_allOnes]; omega
    have ordered : address.toNat ≤ (saturatingAdd address (ofNat 64 len)).toNat := by
      rw [stop]
      exact Nat.le_add_right _ _
    rw [zeroChunks_eq (k := 0) ordered, toNat_sub_of_le (le_def.mpr ordered), stop,
      Nat.add_sub_cancel_left]

theorem zeroedLen_le (fits : address.toNat + len ≤ 2 ^ 64) : zeroedLen address len ≤ len := by
  rw [zeroedLen]
  split <;> omega

section Room
variable (sound : m.Sound) (fits : address.toNat + len ≤ 2 ^ 64) (usize : len < 2 ^ 64)
  (room : m.HasRoom address.toNat (zeroedLen address len))
include sound fits usize room

theorem zeroRange_sound : (m.zeroRange address len).Sound := by
  have covered := zeroedLen_le fits
  rw [zeroRange_eq fits usize]
  exact (forChunks_pages sound le_rfl (by omega) room (zeroRange_update 0).sound).1

/-- With room for the pages it creates, the loop zeroes the range up to the
saturated end. -/
theorem zeroRange_cell : (m.zeroRange address len).cell other =
    if address.toNat ≤ other.toNat ∧ other.toNat < address.toNat + zeroedLen address len then some 0
    else m.cell other := by
  have covered := zeroedLen_le fits
  rw [zeroRange_eq fits usize]
  exact forChunks_cell (zeroRange_update _) sound (by omega) room other

/-- Zeroing is exact with room for the new pages, unless the range runs up to the
end of the address space and its last byte is not mapped and zero already. -/
theorem zeroesExactly_of_room
    (lastByte : address.toNat + len = 2 ^ 64 → m.cell (allOnes 64) = some 0) :
    m.ZeroesExactly address len := by
  intro other
  have covered := zeroedLen_le fits
  rw [zeroRange_cell sound fits usize room]
  by_cases reached : other.toNat < address.toNat + zeroedLen address len
  · by_cases above : address.toNat ≤ other.toNat
    · rw [if_pos ⟨above, reached⟩, if_pos (by omega)]
    · rw [if_neg (by omega), if_neg (by omega)]
  · rw [if_neg fun inside => reached inside.2]
    split
    case isTrue inside =>
      -- only the last byte of the address space is left out
      have full : address.toNat + len = 2 ^ 64 := by
        by_contra short
        rw [zeroedLen, if_pos (by omega)] at reached
        exact reached inside.2
      have atTop : other = allOnes 64 := by
        apply eq_of_toNat_eq
        rw [zeroedLen, if_neg (by omega)] at reached
        rw [toNat_allOnes]
        omega
      rw [atTop]
      exact lastByte full
    case isFalse => rfl

end Room

/-- Zeroing is exact if and only if every page it creates in the direct window
gets a position that the directory can hold, and a range that runs up to the end
of the address space finds the last byte there mapped and zero already. -/
theorem zeroRange_exact_iff (sound : m.Sound) (fits : address.toNat + len ≤ 2 ^ 64)
    (usize : len < 2 ^ 64) :
    m.ZeroesExactly address len ↔
      m.HasRoom address.toNat (zeroedLen address len) ∧
      (address.toNat + len = 2 ^ 64 → m.cell (allOnes 64) = some 0) := by
  have covered := zeroedLen_le fits
  have top : (allOnes 64).toNat = 2 ^ 64 - 1 := BitVec.toNat_allOnes
  constructor
  · intro exact
    have room : m.HasRoom address.toNat (zeroedLen address len) := by
      by_contra crowded
      rw [ZeroesExactly, zeroRange_eq fits usize] at exact
      obtain ⟨number, inside, ⟨positive, above, below⟩, lost⟩ :=
        forChunks_loses sound le_rfl (by omega) crowded (zeroRange_update 0).sound (k := 0)
      -- the first byte of the range in the lost page
      have first : (ofNat 64 (max address.toNat (4096 * number))).toNat =
          max address.toNat (4096 * number) := by
        rw [BitVec.toNat_ofNat]
        omega
      have byte := exact (ofNat 64 (max address.toNat (4096 * number)))
      have page : max address.toNat (4096 * number) / 4096 = number := by omega
      rw [cell_eq, first, page, lost, if_pos (by omega)] at byte
      cases byte
    refine ⟨room, fun full => ?_⟩
    have last := exact (allOnes 64)
    have short : ¬ (2 ^ 64 - 1 < address.toNat + zeroedLen address len) := by
      rw [zeroedLen, if_neg (by omega)]
      omega
    rw [zeroRange_cell sound fits usize room, if_neg fun inside => short inside.2,
      if_pos (by omega)] at last
    exact last
  · rintro ⟨room, lastByte⟩
    exact zeroesExactly_of_room sound fits usize room lastByte

theorem zeroRange_exact_iff_straddling :
    (empty .preferred).ZeroesExactly 0x1ff0 32 ↔
      (empty .preferred).HasRoom 0x1ff0 (zeroedLen 0x1ff0 32) ∧
      (0x1ff0 + 32 = 2 ^ 64 → (empty .preferred).cell (allOnes 64) = some 0) :=
  zeroRange_exact_iff empty_sound (by decide) (by decide)

end Walk

end MemoryImage

end Casa.Cpu
