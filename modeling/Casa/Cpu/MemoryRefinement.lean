import Casa.Cpu.CheckedWrite
import Casa.Cpu.Operand
import Casa.Cpu.ZeroRange

/-! Guest memory refines a partial map from addresses to bytes. The map is the
specification; every operation of the image is a step of it, and every read of
the image, by whatever path, is a read of the map. -/
namespace Casa.Cpu
open Effect MachineInt BitVec Option List
open BitVec (ofNat allOnes)

/-! ## The partial map -/

abbrev GuestMap := U64 → Option U8

def Within (address : U64) (len : Nat) (other : U64) : Prop :=
  address.toNat ≤ other.toNat ∧ other.toNat < address.toNat + len

instance (address : U64) (len : Nat) (other : U64) : Decidable (Within address len other) :=
  inferInstanceAs (Decidable (_ ∧ _))

namespace GuestMap

def store (map : GuestMap) (address : U64) (bytes : List U8) : GuestMap := fun other =>
  if Within address bytes.length other then some (bytes.getD (other.toNat - address.toNat) 0)
    else map other

def firstGap (map : GuestMap) (address : U64) (len : Nat) : Option Nat :=
  (List.range len).find? fun i => (map (address + ofNat 64 i)).isNone

/-- A read succeeds when every byte of the range is mapped. -/
def read (map : GuestMap) (address : U64) (len : Nat) : Result AppError (List U8) :=
  match map.firstGap address len with
  | some i => .error (MemoryImage.unmappedMemoryError (address + ofNat 64 i))
  | none => .ok ((List.range len).map fun i => (map (address + ofNat 64 i)).getD 0)

def readLittleEndian (n : Nat) (map : GuestMap) (address : U64) :
    Result AppError (BitVec (8 * n)) := do
  let bytes ← map.read address n
  pure (fromLeBytes (8 * n) bytes)

theorem readLittleEndian_one (map : GuestMap) :
    readLittleEndian 1 map address = match map address with
      | none => .error (MemoryImage.unmappedMemoryError address)
      | some byte => .ok byte := by
  have here : address + ofNat 64 0 = address := by simp
  rw [readLittleEndian, read, firstGap, range_one, find?_singleton, map_singleton, here]
  cases map address with
  | none => simp
  | some => simp [fromLeBytes]

/-- The read that reports a fault of its own kind. -/
def readChecked (map : GuestMap) (address : U64) (len : Nat) : Result GuestMemoryFault (List U8) :=
  match map.firstGap address len with
  | some i => .error ⟨address + ofNat 64 i, false, len⟩
  | none => .ok ((List.range len).map fun i => (map (address + ofNat 64 i)).getD 0)

end GuestMap

/-- The operations that change an image: those of the loader and the allocator,
which map what they touch, and the checked write of the guest, which does not. -/
inductive MemoryOperation where
  | mapBytes (address : U64) (bytes : List U8)
  | mapZeroedIfUnmapped (address : U64) (len : Nat)
  | commitZeroedPages (address : U64) (len : Nat)
  | zeroRange (address : U64) (len : Nat)
  | write (width : OperandWidth) (address value : U64)
  | guestWriteChecked (address : U64) (buf : List U8)
  | unmapRange (address : U64) (len : Nat)

namespace MemoryOperation

/-- The image after an operation. A checked write that faults leaves it alone. -/
def apply (m : MemoryImage) : MemoryOperation → MemoryImage
  | .mapBytes address bytes => m.mapBytes address bytes
  | .mapZeroedIfUnmapped address len => m.mapZeroedIfUnmapped address len
  | .commitZeroedPages address len => m.commitZeroedPages address len
  | .zeroRange address len => m.zeroRange address len
  | .write width address value => m.writeFixed address (toLeBytes width.bytes value)
  | .guestWriteChecked address buf =>
    (((MemoryImage.guestWriteChecked address buf).run m).state?).getD m
  | .unmapRange address len => m.unmapRange address len

/-- The same operation on the map. Commits and unmaps work on whole pages. -/
def specify (map : GuestMap) : MemoryOperation → GuestMap
  | .mapBytes address bytes => map.store address bytes
  | .mapZeroedIfUnmapped address len => fun other =>
    if Within address len other then some ((map other).getD 0) else map other
  | .commitZeroedPages address len => fun other =>
    if MemoryImage.Touches address.toNat len (other.toNat / 4096) then some ((map other).getD 0)
    else map other
  | .zeroRange address len => fun other => if Within address len other then some 0 else map other
  | .write width address value => map.store address (toLeBytes width.bytes value)
  | .guestWriteChecked address buf =>
    if map.firstGap address buf.length = none then map.store address buf else map
  | .unmapRange address len => fun other =>
    if MemoryImage.Touches address.toNat len (other.toNat / 4096) then none else map other

def range : MemoryOperation → U64 × Nat
  | .mapBytes address bytes => (address, bytes.length)
  | .mapZeroedIfUnmapped address len => (address, len)
  | .commitZeroedPages address len => (address, len)
  | .zeroRange address len => (address, len)
  | .write width address _ => (address, width.bytes)
  | .guestWriteChecked address buf => (address, buf.length)
  | .unmapRange address len => (address, len)

/-- The range does not wrap around the address space, and its length is a `usize`. -/
def Straight (operation : MemoryOperation) : Prop :=
  operation.range.1.toNat + operation.range.2 ≤ 2 ^ 64 ∧ operation.range.2 < 2 ^ 64

instance (operation : MemoryOperation) : Decidable operation.Straight :=
  inferInstanceAs (Decidable (_ ∧ _))

/-- What an operation needs from the image to act as on the map: positions in
the directory for the pages it creates, and for a `zeroRange` up to the end of
the address space a last byte that is mapped and zero already. -/
def Fits (m : MemoryImage) : MemoryOperation → Prop
  | .mapBytes address bytes => m.HasRoom address.toNat bytes.length
  | .mapZeroedIfUnmapped address len => m.HasRoom address.toNat len
  | .commitZeroedPages address len => m.HasRoom address.toNat len
  | .zeroRange address len => m.HasRoom address.toNat (MemoryImage.zeroedLen address len) ∧
      (address.toNat + len = 2 ^ 64 → m.cell (allOnes 64) = some 0)
  | .write width address _ => m.HasRoom address.toNat width.bytes
  | .guestWriteChecked _ _ => True
  | .unmapRange _ _ => True

def run (m : MemoryImage) (operations : List MemoryOperation) : MemoryImage :=
  operations.foldl apply m

def specifyRun (map : GuestMap) (operations : List MemoryOperation) : GuestMap :=
  operations.foldl specify map

def FitsRun (m : MemoryImage) : List MemoryOperation → Prop
  | [] => True
  | operation :: rest => operation.Fits m ∧ FitsRun (operation.apply m) rest

end MemoryOperation

namespace MemoryImage

/-! ## The canonical layer is left alone -/

theorem recordPageIndex_vm (m : MemoryImage) : (m.recordPageIndex base index).vm = m.vm := by
  rw [recordPageIndex]
  split <;> rfl

theorem updatePage_vm (m : MemoryImage) : (m.updatePage base f).vm = m.vm := by
  cases found : m.pageLookupIndex base with
  | some => rw [updatePage_of_present found]; rfl
  | none =>
    rw [updatePage_of_absent (page_eq_none_iff.mpr found)]
    exact recordPageIndex_vm _

theorem forChunks_vm (m : MemoryImage) :
    (forChunks update fuel address k remaining m).vm = m.vm := by
  induction fuel generalizing address k remaining m with
  | zero => rfl
  | succ fuel ih =>
    by_cases left : remaining = 0
    · rw [left, forChunks_finished]
    · rw [forChunks_step left, ih, updatePage_vm]

theorem removePage_vm (m : MemoryImage) : (m.removePage base).vm = m.vm := by
  have forgotten : ∀ index, (m.withoutPage base index).vm = m.vm := by
    intro index
    rw [withoutPage, forgetPageIndex]
    split <;> rfl
  cases found : m.pageLookupIndex base with
  | none => rw [removePage, found]
  | some index =>
    rw [removePage_of_present found]
    split
    · rw [recordPageIndex_vm, forgotten]
    · exact forgotten index

theorem unmapPages_vm (m : MemoryImage) : (unmapPages fuel pageBase endPage m).vm = m.vm := by
  induction fuel generalizing pageBase m with
  | zero => rfl
  | succ fuel ih =>
    rw [unmapPages]
    split
    · exact removePage_vm m
    · split
      · exact removePage_vm m
      · rw [ih, removePage_vm]

/-! ## Bytes of a sound image -/

section Cells
variable {m : MemoryImage}

theorem Sound.byteMapped_eq (sound : m.Sound) : m.byteMapped address = (m.cell address).isSome := by
  have inside : (address - (address &&& memoryPageMask)).toNat < memoryPageSize := by
    rw [pageOffset_toNat]
    exact Nat.mod_lt _ (by decide)
  rw [byteMapped, cell]
  cases found : m.page (address &&& memoryPageMask) with
  | none => rfl
  | some page =>
    dsimp only
    rw [page.holds_eq (sound.page_sound found).full inside, bind_some, MemoryPage.cell]
    split
    case isTrue mapped => rw [mapped]; rfl
    case isFalse unmapped => rw [Bool.of_not_eq_true unmapped]; rfl

theorem byteAt_of_cell (mapped : m.cell address = some value) : m.byteAt address = some value := by
  rw [cell] at mapped
  rw [byteAt]
  cases found : m.page (address &&& memoryPageMask) with
  | none =>
    rw [found] at mapped
    cases mapped
  | some =>
    rw [found, bind_some, MemoryPage.cell] at mapped
    split at mapped
    · exact mapped
    · cases mapped

theorem Sound.firstGap_eq (sound : m.Sound) :
    m.firstGap address len = GuestMap.firstGap m.cell address len := by
  rw [firstGap]
  congr 1
  funext i
  rw [sound.byteMapped_eq]
  cases m.cell (address + ofNat 64 i) <;> rfl

theorem values_of_no_gap (full : GuestMap.firstGap m.cell address len = none) :
    ((range len).map fun i => (m.byteAt (address + ofNat 64 i)).getD 0) =
      (range len).map fun i => (m.cell (address + ofNat 64 i)).getD 0 := by
  refine map_congr_left fun i member => ?_
  have mapped := find?_eq_none.mp full i member
  cases value : m.cell (address + ofNat 64 i) with
  | none => rw [value] at mapped; exact absurd rfl mapped
  | some => rw [byteAt_of_cell value]

end Cells

/-! ## Reads -/

section Reads
variable {m : MemoryImage}

theorem readInto_cell (sound : m.Sound) (standalone : m.vm = none) (address : U64) (len : Nat) :
    m.readInto address len = GuestMap.read m.cell address len := by
  rw [readInto, readChunks_eq standalone le_rfl, GuestMap.read, sound.firstGap_eq]
  cases gap : GuestMap.firstGap m.cell address len with
  | some i => rfl
  | none => exact congrArg Result.ok (values_of_no_gap gap)

theorem readLittleEndian_cell (sound : m.Sound) (standalone : m.vm = none) (address : U64) :
    m.readLittleEndian n address = GuestMap.readLittleEndian n m.cell address := by
  have allowed : m.checkCanonicalAccess address false false = .ok () := by
    rw [checkCanonicalAccess, standalone]
  rw [readLittleEndian, allowed, Result.ok_bind, readSpan_eq standalone,
    readInto_cell sound standalone, GuestMap.readLittleEndian]

theorem readU8_cell (standalone : m.vm = none) (address : U64) :
    m.readU8 address = GuestMap.readLittleEndian 1 m.cell address := by
  have allowed : m.checkCanonicalAccess address false false = .ok () := by
    rw [checkCanonicalAccess, standalone]
  rw [readU8, allowed, GuestMap.readLittleEndian_one, cell]
  dsimp only
  cases m.page (address &&& memoryPageMask) with
  | none => rfl
  | some =>
    dsimp only
    rw [bind_some, MemoryPage.cell]
    split <;> rfl

theorem guestReadChecked_cell (sound : m.Sound) (standalone : m.vm = none) (address : U64)
    (len : Nat) : m.guestReadChecked address len = GuestMap.readChecked m.cell address len := by
  have allowed : m.checkReadAccess address len = .ok () := by
    rw [checkReadAccess, standalone]
  rw [guestReadChecked, allowed, firstUnmappedInRange, scanUnmapped_eq le_rfl,
    readInto_cell sound standalone, GuestMap.readChecked, GuestMap.read, sound.firstGap_eq]
  cases GuestMap.firstGap m.cell address len <;> rfl

end Reads

/-! ## Checked writes -/

section GuestWrite
variable {m t : MemoryImage}

theorem byteAt_eq (m : MemoryImage) : m.byteAt address =
      (m.page (pageAt (address.toNat / 4096))).map (·.bytes (address.toNat % 4096)) := by
  rw [byteAt, pageOffset_toNat, and_mask_eq_pageAt]

/-- With the layout kept, the mapped bytes are the old ones with their new values. -/
theorem cell_of_layout (same : t.layout = m.layout) :
    t.cell address = (m.cell address).bind fun _ => t.byteAt address := by
  rw [cell, cell, byteAt]
  rcases page_cases same (address &&& memoryPageMask) with
    ⟨after, before⟩ | ⟨p, q, after, before, shape⟩
  · rw [after, before]
    rfl
  · rw [after, before, bind_some, bind_some, MemoryPage.cell, MemoryPage.cell, isMapped_shape shape]
    split <;> rfl

/-- An image with the layout of a sound one is sound when the bytes that are not
mapped are as they were. -/
theorem sound_of_layout (same : t.layout = m.layout) (sound : m.Sound)
    (kept : ∀ address, m.cell address = none → t.byteAt address = m.byteAt address) : t.Sound := by
  have directory : t.pageDirectory = m.pageDirectory := congrArg Layout.pageDirectory same
  have high : t.highPageLookup = m.highPageLookup := congrArg Layout.highPageLookup same
  have recorded : t.recordedIndex = m.recordedIndex := by
    funext base
    rw [recordedIndex, recordedIndex, directory, high]
  refine sound.of_entries (directory ▸ sound.directory) recorded fun j entry found => ?_
  have shapes := pages_layout same j
  rw [found] at shapes
  obtain ⟨⟨base, page⟩, here, equal⟩ := map_eq_some_iff.mp shapes.symm
  obtain ⟨rfl, shape⟩ := Prod.mk.inj equal
  replace shape := shape.symm
  have old := sound.pages (entry.1, page) (mem_of_getElem? here)
  have aligned := sound.aligned (entry.1, page) (mem_of_getElem? here)
  refine ⟨page, here, fun full offset inside => ?_, fun offset inside unmapped => ?_⟩
  · rw [isMapped_shape shape]
    exact old.full ((Prod.mk.inj shape).2.symm.trans full) offset inside
  · -- the byte at this offset of the page, as a guest address
    rw [isMapped_shape shape] at unmapped
    have zero := old.clean offset inside unmapped
    have base : pageAt (entry.1.toNat / 4096) = entry.1 := and_mask_eq_pageAt.symm.trans aligned
    have start : entry.1.toNat = 4096 * (entry.1.toNat / 4096) := by
      conv_lhs => rw [← base, pageAt_toNat (by omega)]
    rw [memoryPageSize] at inside
    have address : (entry.1 + ofNat 64 offset).toNat = entry.1.toNat + offset := by
      rw [toNat_add, toNat_ofNat]
      omega
    have number : (entry.1 + ofNat 64 offset).toNat / 4096 = entry.1.toNat / 4096 := by omega
    have place : (entry.1 + ofNat 64 offset).toNat % 4096 = offset := by omega
    have position := sound.tracked j (entry.1, page) here
    have pageBefore : m.page entry.1 = some page := page_eq_some_iff.mpr ⟨j, position, here⟩
    have pageAfter : t.page entry.1 = some entry.2 :=
      page_eq_some_iff.mpr ⟨j, recorded ▸ position, found⟩
    have missing : m.cell (entry.1 + ofNat 64 offset) = none := by
      rw [cell_eq, number, place, base, pageBefore, bind_some, MemoryPage.cell, unmapped]
      rfl
    have byte := kept _ missing
    rw [byteAt_eq, byteAt_eq, number, place, base, pageBefore, pageAfter] at byte
    exact (some.inj byte).trans zero

end GuestWrite

theorem within_iff (straight : address.toNat + len ≤ 2 ^ 64) :
    Within address len other ↔ ∃ i < len, other = address + ofNat 64 i := by
  constructor
  · rintro ⟨above, below⟩
    refine ⟨other.toNat - address.toNat, by omega, eq_of_toNat_eq ?_⟩
    rw [toNat_add, toNat_ofNat]
    omega
  · rintro ⟨i, inside, rfl⟩
    have sum : (address + ofNat 64 i).toNat = address.toNat + i := by
      rw [toNat_add, toNat_ofNat]
      omega
    rw [Within]
    omega

/-- The image after a checked write, stored or refused, as a map. -/
theorem guestWriteChecked_cell (sound : m.Sound) (standalone : m.vm = none) (address : U64)
    (straight : address.toNat + buf.length ≤ 2 ^ 64) :
    ∃ t, ((guestWriteChecked address buf).run m).state? = some t ∧ t.Sound ∧ t.vm = m.vm ∧
      t.cell = if GuestMap.firstGap m.cell address buf.length = none then
        GuestMap.store m.cell address buf else m.cell := by
  rw [← sound.firstGap_eq]
  rcases guestWriteChecked_cases address buf standalone (by omega) with
    ⟨gap, t, wrote, stores⟩ | ⟨i, gap, refused⟩
  · have mapped : ∀ i < buf.length, ∃ byte, m.cell (address + ofNat 64 i) = some byte := by
      intro i inside
      have byte := stores.mapped i inside
      rw [sound.byteMapped_eq] at byte
      exact isSome_iff_exists.mp byte
    have outside : ∀ other, ¬ Within address buf.length other → t.byteAt other = m.byteAt other := by
      intro other apart
      refine stores.kept other fun i inside same => apart ?_
      exact (within_iff straight).mpr ⟨i, inside, same⟩
    refine ⟨t, by rw [wrote]; rfl, ?_, congrArg Layout.vm stores.layout, ?_⟩
    · refine sound_of_layout stores.layout sound fun other missing => outside other fun within => ?_
      obtain ⟨i, inside, rfl⟩ := (within_iff straight).mp within
      obtain ⟨byte, present⟩ := mapped i inside
      rw [present] at missing
      cases missing
    · rw [if_pos gap]
      funext other
      rw [cell_of_layout stores.layout, GuestMap.store]
      split
      case isTrue within =>
        obtain ⟨i, inside, rfl⟩ := (within_iff straight).mp within
        obtain ⟨byte, present⟩ := mapped i inside
        have position : (address + ofNat 64 i).toNat - address.toNat = i := by
          rw [toNat_add, toNat_ofNat]
          omega
        rw [present, stores.stored i inside, position, getD_eq_getElem?_getD, List.getElem?_eq_getElem inside]
        rfl
      case isFalse apart =>
        cases value : m.cell other with
        | none => rfl
        | some => rw [bind_some, outside other apart, byteAt_of_cell value]
  · refine ⟨m, by rw [refused]; rfl, sound, rfl, ?_⟩
    rw [gap, if_neg (some_ne_none i)]

/-! ## Runs -/

/-- The image stands for the map. -/
structure Refines (m : MemoryImage) (map : GuestMap) : Prop where
  sound : m.Sound
  standalone : m.vm = none
  cells : m.cell = map

/-- Every read, at every address and of every length, answers as the map does. -/
structure ReadsAs (m : MemoryImage) (map : GuestMap) : Prop where
  readInto : ∀ address len, m.readInto address len = map.read address len
  readSpan : ∀ address len, m.readSpan address len = map.read address len
  readU8 : ∀ address, m.readU8 address = map.readLittleEndian 1 address
  readU16 : ∀ address, m.readU16 address = map.readLittleEndian 2 address
  readU32 : ∀ address, m.readU32 address = map.readLittleEndian 4 address
  readU64 : ∀ address, m.readU64 address = map.readLittleEndian 8 address
  guestReadChecked : ∀ address len, m.guestReadChecked address len = map.readChecked address len

/-- Zeroing the last sixteen bytes of the address space: the byte at the top is
zero in the map and unmapped in the image. -/
theorem zeroRange_run_loses_last_byte :
    MemoryOperation.Straight (.zeroRange 0xfffffffffffffff0 16) ∧
      ¬ ReadsAs (MemoryOperation.run (empty .preferred) [.zeroRange 0xfffffffffffffff0 16])
        (MemoryOperation.specifyRun (fun _ => none) [.zeroRange 0xfffffffffffffff0 16]) := by
  refine ⟨by decide, fun reads => ?_⟩
  have last := congrArg Result.isOk (reads.readU8 (allOnes 64))
  revert last
  decide +kernel

theorem Refines.readsAs {m : MemoryImage} {map : GuestMap} (refined : m.Refines map) :
    m.ReadsAs map := by
  obtain ⟨sound, standalone, rfl⟩ := refined
  refine ⟨readInto_cell sound standalone, fun address len => ?_, readU8_cell standalone,
    readLittleEndian_cell sound standalone, readLittleEndian_cell sound standalone,
    readLittleEndian_cell sound standalone, guestReadChecked_cell sound standalone⟩
  rw [readSpan_eq standalone, readInto_cell sound standalone]

theorem empty_refines : (empty window).Refines fun _ => none := by
  refine ⟨empty_sound, rfl, funext fun address => ?_⟩
  have absent : (empty window).page (address &&& memoryPageMask) = none := by
    refine eq_none_iff_forall_ne_some.mpr fun page found => ?_
    obtain ⟨index, -, stored⟩ := page_eq_some_iff.mp found
    cases stored
  rw [cell, absent]
  rfl

section Steps
variable {m : MemoryImage} {map : GuestMap}

/-- The byte formula of an operation makes it a step of the map. -/
theorem refines_of_spec {t : MemoryImage} (standalone : m.vm = none) (same : t.vm = m.vm)
    (spec : t.Sound ∧ ∀ other, t.cell other = map other) : t.Refines map :=
  ⟨spec.1, same.trans standalone, funext spec.2⟩

theorem zeroRange_refines (refined : m.Refines map) (straight : address.toNat + len ≤ 2 ^ 64)
    (usize : len < 2 ^ 64) (room : m.HasRoom address.toNat (zeroedLen address len))
    (lastByte : address.toNat + len = 2 ^ 64 → m.cell (allOnes 64) = some 0) :
    (m.zeroRange address len).Refines
      (MemoryOperation.specify map (.zeroRange address len)) := by
  obtain ⟨sound, standalone, rfl⟩ := refined
  refine refines_of_spec standalone ?_ ⟨?_,
    zeroesExactly_of_room sound straight usize room lastByte⟩
  · rw [zeroRange_eq straight usize, forChunks_vm]
  · exact zeroRange_sound sound straight usize room

/-- One operation on the image is one step of the map. -/
theorem apply_refines {operation : MemoryOperation} (refined : m.Refines map)
    (straight : operation.Straight) (fits : operation.Fits m) :
    (operation.apply m).Refines (operation.specify map) := by
  obtain ⟨inside, usize⟩ := straight
  obtain ⟨sound, standalone, rfl⟩ := refined
  cases operation with
  | zeroRange => exact zeroRange_refines ⟨sound, standalone, rfl⟩ inside usize fits.1 fits.2
  | mapBytes => exact refines_of_spec standalone (forChunks_vm _) (mapBytes_spec sound inside fits)
  | mapZeroedIfUnmapped =>
    exact refines_of_spec standalone (forChunks_vm _) (mapZeroedIfUnmapped_spec sound inside fits)
  | commitZeroedPages =>
    exact refines_of_spec standalone (forChunks_vm _) (commitZeroedPages_spec sound inside fits)
  | write width address value =>
    have size := toLeBytes_length width.bytes value
    have nonempty : (toLeBytes width.bytes value).length ≠ 0 := by
      rw [size]
      cases width <;> decide
    rw [MemoryOperation.apply, writeFixed_eq_mapBytes nonempty]
    exact refines_of_spec standalone (forChunks_vm _)
      (mapBytes_spec sound (size.symm ▸ inside) (size.symm ▸ fits))
  | guestWriteChecked address buf =>
    obtain ⟨t, final, finalSound, same, cells⟩ :=
      guestWriteChecked_cell sound standalone address inside
    rw [MemoryOperation.apply, final]
    exact ⟨finalSound, same.trans standalone, cells⟩
  | unmapRange =>
    refine refines_of_spec standalone ?_ (unmapRange_spec sound inside)
    rw [MemoryOperation.apply, unmapRange]
    split
    · rfl
    · exact unmapPages_vm m

theorem run_refines (refined : m.Refines map)
    (straight : ∀ operation ∈ operations, operation.Straight)
    (fits : MemoryOperation.FitsRun m operations) :
    (MemoryOperation.run m operations).Refines (MemoryOperation.specifyRun map operations) := by
  induction operations generalizing m map with
  | nil => exact refined
  | cons operation rest ih =>
    obtain ⟨straightHere, straightRest⟩ := forall_mem_cons.mp straight
    exact ih (apply_refines refined straightHere fits.1) straightRest fits.2

end Steps

/-- Whatever operations a fresh image goes through, every read of it answers as
the partial map that has gone through the same operations. -/
theorem run_reads_as_map (window : FlatWindow) (operations : List MemoryOperation)
    (straight : ∀ operation ∈ operations, operation.Straight)
    (fits : MemoryOperation.FitsRun (empty window) operations) :
    ReadsAs (MemoryOperation.run (empty window) operations)
      (MemoryOperation.specifyRun (fun _ => none) operations) :=
  (run_refines empty_refines straight fits).readsAs

/-- A commit, a store across the page's end that creates the next page, and the
removal of the first page. -/
theorem run_reads_as_map_straddling :
    let operations : List MemoryOperation :=
      [.commitZeroedPages 0x1000 0x1000, .write .dword 0x1ffe 0x04030201, .unmapRange 0x1800 1]
    MemoryOperation.FitsRun (empty .minimum) operations ∧
      ReadsAs (MemoryOperation.run (empty .minimum) operations)
        (MemoryOperation.specifyRun (fun _ => none) operations) := by
  intro operations
  have straight : ∀ operation ∈ operations, operation.Straight := by
    decide
  have fits : MemoryOperation.FitsRun (empty .minimum) operations :=
    ⟨hasRoom_of_few (by decide +kernel), hasRoom_of_few (by decide +kernel), trivial, trivial⟩
  exact ⟨fits, run_reads_as_map .minimum operations straight fits⟩

/-- After such a run every page is found where it is and nowhere else, so no two have one base,
and its bytes that are not mapped are zero. -/
theorem run_pages_exact (window : FlatWindow) (operations : List MemoryOperation)
    (straight : ∀ operation ∈ operations, operation.Straight)
    (fits : MemoryOperation.FitsRun (empty window) operations) :
    let m := MemoryOperation.run (empty window) operations
    (∀ base i, m.pageLookupIndex base = some i ↔ m.pages[i]?.map Prod.fst = some base) ∧
      ∀ entry ∈ m.pages, ∀ offset < memoryPageSize, entry.2.isMapped offset = false → entry.2.bytes offset = 0 := by
  intro m
  have sound : m.Sound := (run_refines empty_refines straight fits).sound
  refine ⟨fun base i => ⟨pageLookupIndex_base, fun here => ?_⟩,
    fun _ member => (sound.pages _ member).clean⟩
  obtain ⟨entry, there, rfl⟩ := map_eq_some_iff.mp here
  exact filter_eq_some_iff.mpr ⟨sound.tracked i entry there, beq_iff_eq.mpr here⟩

/-- The removal of the first of two pages moves the last one into its place. -/
theorem run_pages_exact_moved :
    let m := MemoryOperation.run (empty .minimum) [.commitZeroedPages 0x1000 0x2000, .unmapRange 0x1000 0x1000]
    m.pageLookupIndex 0x2000 = some 0 ∧ m.pageLookupIndex 0x1000 ≠ some 0 := by
  have exact := (run_pages_exact .minimum [.commitZeroedPages 0x1000 0x2000,
    .unmapRange 0x1000 0x1000] (by decide)
    ⟨hasRoom_of_few (by decide +kernel), trivial, trivial⟩).1
  exact ⟨(exact _ 0).mpr (by decide +kernel), mt (exact _ 0).mp (by decide +kernel)⟩

end MemoryImage

end Casa.Cpu
