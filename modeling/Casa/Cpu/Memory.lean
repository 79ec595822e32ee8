import Casa.Error
import Casa.Vm
import Casa.Lib.LeBytes

/-! Guest memory as the interpreter sees it (cpu/memory.rs): a table of 4 KiB
pages with one mapped bit per byte, found through a two-level directory for the
direct window and a separate lookup above it. A page owns its bytes here; the
host allocation behind them is not modelled. -/
namespace Casa.Cpu
open Effect MachineInt Result
open BitVec (allOnes ofNat)

def memoryPageSize : Nat := 4096

def memoryPageMask : U64 := ~~~(4096 - 1)

def pageDirectoryMissing : U32 := allOnes 32

structure MemoryPage where
  bytes : Nat → U8
  mapped : Nat → U64
  fullyMapped : Bool

namespace MemoryPage

def zeroed : MemoryPage := ⟨fun _ => 0, fun _ => allOnes 64, true⟩

def bitMask (startBit endBit : Nat) : U64 :=
  let width := endBit - startBit
  if width = 64 then allOnes 64 else shl (shl 1 width - 1) startBit

def isMapped (page : MemoryPage) (offset : Nat) : Bool :=
  page.mapped (offset / 64) &&& shl 1 (offset % 64) != 0

/-- The bits of word `index` that the byte range from `start` up to `stop` covers. -/
def wordMask (start stop index : Nat) : U64 :=
  let wordStart := if index = start / 64 then start % 64 else 0
  let wordEnd := if index = (stop - 1) / 64 then (stop - 1) % 64 + 1 else 64
  bitMask wordStart wordEnd

/-- The bitmap words that the range touches, in ascending order. -/
def wordRange (start stop : Nat) : List Nat :=
  (List.range ((stop - 1) / 64 + 1 - start / 64)).map (start / 64 + ·)

def firstUnmappedOffset (page : MemoryPage) (start len : Nat) : Option Nat :=
  if len = 0 then none
  else
    (wordRange start (start + len)).findSome? fun index =>
      let missingBits := ~~~page.mapped index &&& wordMask start (start + len) index
      if missingBits != 0 then some (index * 64 + trailingZeros missingBits) else none

def rangeIsMapped (page : MemoryPage) (start len : Nat) : Bool :=
  if len = 0 then true
  else if page.fullyMapped then true
  else
    (wordRange start (start + len)).all fun index =>
      let mask := wordMask start (start + len) index
      page.mapped index &&& mask == mask

/-- The part of a page that a store leaves alone. -/
def shape (page : MemoryPage) : (Nat → U64) × Bool := (page.mapped, page.fullyMapped)

def writeBytes (page : MemoryPage) (start : Nat) (chunk : List U8) : MemoryPage :=
  { page with
    bytes := fun i =>
      if start ≤ i ∧ i < start + chunk.length then chunk.getD (i - start) 0 else page.bytes i }

def readBytes (page : MemoryPage) (start len : Nat) : List U8 :=
  (List.range len).map fun i => page.bytes (start + i)

end MemoryPage

/-- Two-level directory of the pages inside the direct window. -/
structure PageDirectory where
  chunks : Nat
  top : Nat → U32
  tables : List (Nat → U32)

namespace PageDirectory

def chunkOf (directory : PageDirectory) (pageBase : U64) : Option (Nat × Nat) :=
  let page := pageBase.toNat / 4096
  let chunk := page / 512
  if directory.chunks ≤ chunk then none else some (chunk, page % 512)

def covers (directory : PageDirectory) (pageBase : U64) : Bool :=
  (directory.chunkOf pageBase).isSome

/-- A directory entry, with the all-ones marker of an absent one. -/
def entryIndex (entry : U32) : Option Nat :=
  if entry = pageDirectoryMissing then none else some entry.toNat

def get (directory : PageDirectory) (pageBase : U64) : Option Nat := do
  let (chunk, entry) ← directory.chunkOf pageBase
  let tableIndex ← entryIndex (directory.top chunk)
  let table ← directory.tables[tableIndex]?
  entryIndex (table entry)

end PageDirectory

structure MemoryImage where
  pages : List (U64 × MemoryPage)
  highPageLookup : U64 → Option Nat
  pageDirectory : PageDirectory
  vm : Option Vm.VirtualMemory

structure GuestMemoryFault where
  address : U64
  write : Bool
  readLen : Nat

namespace MemoryImage

/-- An image without a canonical layer whose pages all lie above the direct window. -/
def ofPages (pages : List (U64 × MemoryPage)) : MemoryImage where
  pages := pages
  highPageLookup base := pages.findIdx? (·.1 == base)
  pageDirectory := ⟨0, fun _ => pageDirectoryMissing, []⟩
  vm := none

/-- The page index that the lookup tables record for a page base. -/
def recordedIndex (m : MemoryImage) (pageBase : U64) : Option Nat :=
  if m.pageDirectory.covers pageBase then m.pageDirectory.get pageBase
    else m.highPageLookup pageBase

/-- A recorded index counts only when the page it names has that base. -/
def pageLookupIndex (m : MemoryImage) (pageBase : U64) : Option Nat :=
  (m.recordedIndex pageBase).filter fun index => m.pages[index]?.map (·.1) == some pageBase

def page (m : MemoryImage) (pageBase : U64) : Option MemoryPage :=
  (m.pageLookupIndex pageBase).bind fun index => m.pages[index]?.map (·.2)

def unmappedMemoryError (address : U64) : AppError :=
  ⟨.rcUnimplInsn, "unmapped guest memory at " ++ hex address, []⟩

def checkCanonicalAccess (m : MemoryImage) (address : U64) (write execute : Bool) :
    Result AppError Unit :=
  match m.vm with
  | none => .ok ()
  | some vm =>
    (vm.checkAccess address write execute).mapError fun fault => unmappedMemoryError fault.address

/-- The part of a range that lies in the page of its first address. -/
structure Chunk where
  pageBase : U64
  offset : Nat
  len : Nat

def chunkAt (address : U64) (remaining : Nat) : Chunk :=
  let pageBase := address &&& memoryPageMask
  let offset := (address - pageBase).toNat
  ⟨pageBase, offset, min (memoryPageSize - offset) remaining⟩

/-- Page-by-page scan. Every chunk has at least one byte, so `remaining` steps suffice. -/
def scanUnmapped (m : MemoryImage) : Nat → U64 → Nat → Result ε (Option U64)
  | 0, _, _ => .ok none
  | fuel + 1, address, remaining =>
    if remaining = 0 then .ok none
    else
      let chunk := chunkAt address remaining
      match m.page chunk.pageBase with
      | none => .ok (some address)
      | some page =>
        if page.rangeIsMapped chunk.offset chunk.len then
          scanUnmapped m fuel (address + ofNat 64 chunk.len) (remaining - chunk.len)
        else
          match page.firstUnmappedOffset chunk.offset chunk.len with
          | some missing => .ok (some (chunk.pageBase + ofNat 64 missing))
          | none => .panic -- "range_is_mapped mismatch"

def firstUnmappedInRange (m : MemoryImage) (address : U64) (len : Nat) : Result ε (Option U64) :=
  m.scanUnmapped len address len

/-- The store loop of a checked write, after the whole range has been validated. -/
def writeChunks : Nat → U64 → List U8 → Exec MemoryImage ε Unit
  | 0, _, _ => pure ()
  | fuel + 1, address, buf =>
    if buf.isEmpty then pure ()
    else do
      let chunk := chunkAt address buf.length
      let m ← Exec.get
      match m.pageLookupIndex chunk.pageBase with
      | none => Exec.panic -- "validated range must be present"
      | some index =>
        Exec.modify fun m =>
          { m with
            pages := m.pages.modify index fun (base, page) =>
              (base, page.writeBytes chunk.offset (buf.take chunk.len)) }
        writeChunks fuel (address + ofNat 64 chunk.len) (buf.drop chunk.len)

/-- What the attached canonical layer says about a write that starts at `address`. -/
def checkWriteAccess (m : MemoryImage) (address : U64) (len : Nat) : Result GuestMemoryFault Unit :=
  match m.vm with
  | none => .ok ()
  | some vm => (vm.checkAccess address true false).mapError fun fault => ⟨fault.address, true, len⟩

/-- Checked guest write: both validations come before the first store. -/
def guestWriteChecked (address : U64) (buf : List U8) : Exec MemoryImage GuestMemoryFault Unit := do
  Exec.read fun m => m.checkWriteAccess address buf.length
  let missing ← Exec.read fun m => m.firstUnmappedInRange address buf.length
  match missing with
  | some faultAddress => Exec.throw ⟨faultAddress, true, buf.length⟩
  | none => writeChunks buf.length address buf

/-- Chunked read; the canonical layer is consulted at the start of every chunk. -/
def readChunks (m : MemoryImage) : Nat → U64 → Nat → Result AppError (List U8)
  | 0, _, _ => .ok []
  | fuel + 1, address, remaining =>
    if remaining = 0 then .ok []
    else do
      let chunk := chunkAt address remaining
      m.checkCanonicalAccess address false false
      match m.page chunk.pageBase with
      | none => .error (unmappedMemoryError address)
      | some page =>
        if page.rangeIsMapped chunk.offset chunk.len then
          let rest ← m.readChunks fuel (address + ofNat 64 chunk.len) (remaining - chunk.len)
          pure (page.readBytes chunk.offset chunk.len ++ rest)
        else
          match page.firstUnmappedOffset chunk.offset chunk.len with
          | some missing => .error (unmappedMemoryError (chunk.pageBase + ofNat 64 missing))
          | none => .panic -- "range_is_mapped mismatch"

def readInto (m : MemoryImage) (address : U64) (len : Nat) : Result AppError (List U8) :=
  m.readChunks len address len

def readU8 (m : MemoryImage) (address : U64) : Result AppError U8 := do
  m.checkCanonicalAccess address false false
  let pageBase := address &&& memoryPageMask
  let pageOffset := (address - pageBase).toNat
  match m.page pageBase with
  | none => .error (unmappedMemoryError address)
  | some page =>
    if page.isMapped pageOffset then pure (page.bytes pageOffset)
    else .error (unmappedMemoryError address)

/-- The bytes of a multi-byte read: an access inside one present page is served
directly, every other one by `readInto`. -/
def readSpan (m : MemoryImage) (address : U64) (n : Nat) : Result AppError (List U8) :=
  let pageBase := address &&& memoryPageMask
  let pageOffset := (address - pageBase).toNat
  match if pageOffset + n ≤ memoryPageSize then m.page pageBase else none with
  | some page =>
    if page.rangeIsMapped pageOffset n then .ok (page.readBytes pageOffset n)
    else
      match page.firstUnmappedOffset pageOffset n with
      | some missing => .error (unmappedMemoryError (pageBase + ofNat 64 missing))
      | none => .panic -- "range_is_mapped mismatch"
  | none => m.readInto address n

/-- The multi-byte reads differ only in their length. -/
def readLittleEndian (n : Nat) (m : MemoryImage) (address : U64) :
    Result AppError (BitVec (8 * n)) := do
  m.checkCanonicalAccess address false false
  let bytes ← m.readSpan address n
  pure (fromLeBytes (8 * n) bytes)

def readU16 (m : MemoryImage) (address : U64) : Result AppError U16 :=
  m.readLittleEndian 2 address

def readU32 (m : MemoryImage) (address : U64) : Result AppError U32 :=
  m.readLittleEndian 4 address

def readU64 (m : MemoryImage) (address : U64) : Result AppError U64 :=
  m.readLittleEndian 8 address

end MemoryImage

def unsupportedMemoryWidth (width : Nat) : AppError :=
  ⟨.rcUnimplInsn, s!"unsupported memory width {width}", []⟩

def readMemoryValue (m : MemoryImage) (address : U64) (width : Nat) : Result AppError U64 :=
  match width with
  | 1 => do return (← m.readU8 address).setWidth 64
  | 2 => do return (← m.readU16 address).setWidth 64
  | 4 => do return (← m.readU32 address).setWidth 64
  | 8 => m.readU64 address
  | other => .error (unsupportedMemoryWidth other)

def writeGuestBytes (address : U64) (bytes : List U8) : Exec MemoryImage AppError Unit :=
  (MemoryImage.guestWriteChecked address bytes).mapError fun fault =>
    MemoryImage.unmappedMemoryError fault.address

def writeMemoryValue (address value : U64) (width : Nat) : Exec MemoryImage AppError Unit :=
  match width with
  | 1 => writeGuestBytes address (toLeBytes 1 value)
  | 2 => writeGuestBytes address (toLeBytes 2 value)
  | 4 => writeGuestBytes address (toLeBytes 4 value)
  | 8 => writeGuestBytes address (toLeBytes 8 value)
  | other => Exec.throw (unsupportedMemoryWidth other)

/-! ## Checked writes either fail early or only replace bytes -/

namespace MemoryImage

theorem writeChunks_never :
    Exec.NeverFails (writeChunks fuel address buf : Exec MemoryImage ε Unit) := by
  induction fuel generalizing address buf with
  | zero => exact .pure ()
  | succ fuel ih =>
    unfold writeChunks
    split
    · exact .pure ()
    · refine .bind .get fun m => ?_
      split
      · exact .panic
      · exact .bind (.modify _) fun _ => ih

theorem guestWriteChecked_atomic : Exec.Atomic id (guestWriteChecked address buf) := by
  refine .bind_same (.read _) fun _ => .bind_same (.read _) fun missing => ?_
  cases missing with
  | some => exact .of_same (.throw _)
  | none => exact .of_never writeChunks_never

/-- Everything about an image except the contents of its bytes. -/
structure Layout where
  pages : List (U64 × (Nat → U64) × Bool)
  highPageLookup : U64 → Option Nat
  pageDirectory : PageDirectory
  vm : Option Vm.VirtualMemory

def layout (m : MemoryImage) : Layout where
  pages := m.pages.map fun entry => (entry.1, entry.2.shape)
  highPageLookup := m.highPageLookup
  pageDirectory := m.pageDirectory
  vm := m.vm

theorem map_modify_of_same {g : α → β} (same : ∀ a, g (f a) = g a) (xs : List α) (index : Nat) :
    (xs.modify index f).map g = xs.map g := by
  apply List.ext_getElem?
  intro j
  rw [List.getElem?_map, List.getElem?_map, List.getElem?_modify]
  cases xs[j]? with
  | none => rfl
  | some a => by_cases here : index = j <;> simp [here, same]

theorem writeChunks_layout :
    Exec.Relates (Exec.Same layout) (writeChunks fuel address buf : Exec MemoryImage ε Unit) := by
  induction fuel generalizing address buf with
  | zero => exact .pure ()
  | succ fuel ih =>
    unfold writeChunks
    split
    · exact .pure ()
    · refine .bind .get fun m => ?_
      split
      · exact .panic
      · refine .bind (.modify fun m => ?_) fun _ => ih
        simp only [Exec.Same, layout]
        rw [map_modify_of_same]
        intro entry
        rfl

theorem guestWriteChecked_layout :
    Exec.Relates (Exec.Same layout) (guestWriteChecked address buf) := by
  refine .bind (.read _) fun _ => .bind (.read _) fun missing => ?_
  cases missing with
  | some => exact .throw _
  | none => exact writeChunks_layout

/-! ## What may be accessed depends on the layout alone -/

section SameLayout
variable {m m' : MemoryImage}

variable (same : m.layout = m'.layout)
include same

theorem pages_layout (index : Nat) :
    m.pages[index]?.map (fun entry => (entry.1, entry.2.shape)) =
      m'.pages[index]?.map (fun entry => (entry.1, entry.2.shape)) := by
  have pages := congrArg (fun l => l.pages[index]?) same
  simpa only [layout, List.getElem?_map] using pages

theorem pageLookupIndex_layout (pageBase : U64) :
    m.pageLookupIndex pageBase = m'.pageLookupIndex pageBase := by
  have directory : m.pageDirectory = m'.pageDirectory := congrArg Layout.pageDirectory same
  have high : m.highPageLookup = m'.highPageLookup := congrArg Layout.highPageLookup same
  have bases (index : Nat) : m.pages[index]?.map (·.1) = m'.pages[index]?.map (·.1) := by
    simpa only [Option.map_map, Function.comp_def]
      using congrArg (Option.map Prod.fst) (pages_layout same index)
  simp [pageLookupIndex, recordedIndex, directory, high, bases]

theorem page_layout (pageBase : U64) :
    (m.page pageBase).map MemoryPage.shape = (m'.page pageBase).map MemoryPage.shape := by
  have shapes (index : Nat) : (m.pages[index]?.map (·.2)).map MemoryPage.shape =
      (m'.pages[index]?.map (·.2)).map MemoryPage.shape := by
    simpa only [Option.map_map, Function.comp_def]
      using congrArg (Option.map Prod.snd) (pages_layout same index)
  rw [page, page, pageLookupIndex_layout same, Option.map_bind, Option.map_bind]
  congr 1
  funext index
  exact shapes index

omit same in
theorem isMapped_shape {p q : MemoryPage} (same : p.shape = q.shape) (offset : Nat) :
    p.isMapped offset = q.isMapped offset := by
  simp only [MemoryPage.isMapped, (Prod.mk.inj same).1]

omit same in
theorem rangeIsMapped_shape {p q : MemoryPage} (same : p.shape = q.shape) (start len : Nat) :
    p.rangeIsMapped start len = q.rangeIsMapped start len := by
  obtain ⟨mapped, full⟩ := Prod.mk.inj same
  simp only [MemoryPage.rangeIsMapped, mapped, full]

omit same in
theorem firstUnmappedOffset_shape {p q : MemoryPage} (same : p.shape = q.shape) (start len : Nat) :
    p.firstUnmappedOffset start len = q.firstUnmappedOffset start len := by
  simp only [MemoryPage.firstUnmappedOffset, (Prod.mk.inj same).1]

/-- Related images have no page at a base together, or pages of one shape. -/
theorem page_cases (pageBase : U64) :
    (m.page pageBase = none ∧ m'.page pageBase = none) ∨
      ∃ p q, m.page pageBase = some p ∧ m'.page pageBase = some q ∧ p.shape = q.shape := by
  have shapes := page_layout same pageBase
  cases before : m.page pageBase <;> cases after : m'.page pageBase <;> simp_all

theorem scanUnmapped_layout (fuel : Nat) (address : U64) (remaining : Nat) :
    (m.scanUnmapped fuel address remaining : Result ε _) =
      m'.scanUnmapped fuel address remaining := by
  induction fuel generalizing address remaining with
  | zero => rfl
  | succ fuel ih =>
    unfold scanUnmapped
    rcases page_cases same (chunkAt address remaining).pageBase with
      ⟨before, after⟩ | ⟨p, q, before, after, shape⟩
    · simp [before, after]
    · simp [before, after, rangeIsMapped_shape shape, firstUnmappedOffset_shape shape, ih]

theorem checkWriteAccess_layout (address : U64) (len : Nat) :
    m.checkWriteAccess address len = m'.checkWriteAccess address len := by
  have vm : m.vm = m'.vm := congrArg Layout.vm same
  simp [checkWriteAccess, vm]

theorem checkCanonicalAccess_layout (address : U64) (write execute : Bool) :
    m.checkCanonicalAccess address write execute =
      m'.checkCanonicalAccess address write execute := by
  have vm : m.vm = m'.vm := congrArg Layout.vm same
  simp [checkCanonicalAccess, vm]

theorem readChunks_isOk_layout (fuel : Nat) :
    (m.readChunks fuel address remaining).isOk = (m'.readChunks fuel address remaining).isOk := by
  induction fuel generalizing address remaining with
  | zero => rfl
  | succ fuel ih =>
    unfold readChunks
    split
    · rfl
    · rw [checkCanonicalAccess_layout same]
      refine isOk_bind_congr rfl fun _ _ => ?_
      rcases page_cases same (chunkAt address remaining).pageBase with
        ⟨before, after⟩ | ⟨p, q, before, after, shape⟩
      · simp [before, after]
      · simp only [before, after, rangeIsMapped_shape shape, firstUnmappedOffset_shape shape]
        split
        · exact isOk_bind_congr ih fun _ _ => rfl
        · rfl

theorem readU8_isOk_layout (address : U64) :
    (m.readU8 address).isOk = (m'.readU8 address).isOk := by
  unfold readU8
  rw [checkCanonicalAccess_layout same]
  refine isOk_bind_congr rfl fun _ _ => ?_
  rcases page_cases same (address &&& memoryPageMask) with
    ⟨before, after⟩ | ⟨p, q, before, after, shape⟩
  · simp [before, after]
  · simp only [before, after, isMapped_shape shape]
    cases q.isMapped (address - (address &&& memoryPageMask)).toNat <;> rfl

theorem readSpan_isOk_layout (address : U64) (n : Nat) :
    (m.readSpan address n).isOk = (m'.readSpan address n).isOk := by
  unfold readSpan
  by_cases fits : (address - (address &&& memoryPageMask)).toNat + n ≤ memoryPageSize
  · rcases page_cases same (address &&& memoryPageMask) with
      ⟨before, after⟩ | ⟨p, q, before, after, shape⟩
    · simp only [fits, before, after]
      exact readChunks_isOk_layout same _
    · simp only [fits, if_true, before, after, rangeIsMapped_shape shape, firstUnmappedOffset_shape shape]
      cases q.rangeIsMapped (address - (address &&& memoryPageMask)).toNat n <;> rfl
  · simp only [fits]
    exact readChunks_isOk_layout same _

theorem readLittleEndian_isOk_layout (n : Nat) (address : U64) :
    (m.readLittleEndian n address).isOk = (m'.readLittleEndian n address).isOk := by
  unfold readLittleEndian
  rw [checkCanonicalAccess_layout same]
  exact isOk_bind_congr rfl fun _ _ =>
    isOk_bind_congr (readSpan_isOk_layout same address n) fun _ _ => rfl

end SameLayout

def readable (m : MemoryImage) (address : U64) (width : Nat) : Bool :=
  (readMemoryValue m address width).isOk

/-- Whether a checked write of `len` bytes at `address` passes both validations. -/
def acceptsWrite (m : MemoryImage) (address : U64) (len : Nat) : Bool :=
  (m.checkWriteAccess address len).isOk &&
    match (m.firstUnmappedInRange address len : Result GuestMemoryFault _) with
    | .ok none => true
    | _ => false

def writable (m : MemoryImage) (address : U64) (width : Nat) : Bool :=
  match width with
  | 1 | 2 | 4 | 8 => m.acceptsWrite address width
  | _ => false

theorem readable_layout {m m' : MemoryImage} (same : m.layout = m'.layout) (address : U64)
    (width : Nat) : m.readable address width = m'.readable address width := by
  unfold readable readMemoryValue
  split
  · exact isOk_bind_congr (readU8_isOk_layout same address) fun _ _ => rfl
  · exact isOk_bind_congr (readLittleEndian_isOk_layout same 2 address) fun _ _ => rfl
  · exact isOk_bind_congr (readLittleEndian_isOk_layout same 4 address) fun _ _ => rfl
  · exact readLittleEndian_isOk_layout same 8 address
  · rfl

theorem acceptsWrite_layout {m m' : MemoryImage} (same : m.layout = m'.layout) (address : U64)
    (len : Nat) : m.acceptsWrite address len = m'.acceptsWrite address len := by
  simp [acceptsWrite, firstUnmappedInRange, scanUnmapped_layout same, checkWriteAccess_layout same]

theorem guestWriteChecked_of_accepts (accepts : m.acceptsWrite address buf.length) :
    (guestWriteChecked address buf).run m = (writeChunks buf.length address buf).run m := by
  obtain ⟨allowed, mapped⟩ := Bool.and_eq_true_iff.mp accepts
  obtain ⟨_, allowed⟩ := isOk_iff.mp allowed
  unfold guestWriteChecked
  rw [Exec.read_bind_run, allowed]
  split at mapped
  · rename_i scanned
    simp [Exec.read_bind_run, scanned]
  · contradiction

theorem accepts_of_guestWriteChecked (wrote : (guestWriteChecked address buf).run m = .ok () t) :
    m.acceptsWrite address buf.length := by
  unfold guestWriteChecked at wrote
  rw [Exec.read_bind_run] at wrote
  cases allowed : m.checkWriteAccess address buf.length with
  | error | panic => simp only [allowed] at wrote; cases wrote
  | ok =>
    simp only [allowed, Exec.read_bind_run] at wrote
    cases scanned : (m.firstUnmappedInRange address buf.length : Result GuestMemoryFault _) with
    | error | panic => simp only [scanned] at wrote; cases wrote
    | ok missing =>
      cases missing with
      | some => simp only [scanned] at wrote; cases wrote
      | none => simp only [acceptsWrite, allowed, scanned, isOk, Bool.and_self]

end MemoryImage

/-! ## The interpreter's accessors -/

/-- A supported width goes to the checked write, every other one is refused. -/
theorem writeMemoryValue_cases :
    (writeMemoryValue address value width = writeGuestBytes address (toLeBytes width value) ∧
      ∀ m : MemoryImage, m.writable address width = m.acceptsWrite address width) ∨
    (writeMemoryValue address value width = Exec.throw (unsupportedMemoryWidth width) ∧
      ∀ m : MemoryImage, m.writable address width = false) := by
  unfold writeMemoryValue MemoryImage.writable
  split
  · exact .inl ⟨rfl, fun _ => rfl⟩
  · exact .inl ⟨rfl, fun _ => rfl⟩
  · exact .inl ⟨rfl, fun _ => rfl⟩
  · exact .inl ⟨rfl, fun _ => rfl⟩
  · exact .inr ⟨rfl, fun _ => rfl⟩

theorem writeGuestBytes_atomic : Exec.Atomic id (writeGuestBytes address bytes) :=
  .mapError MemoryImage.guestWriteChecked_atomic

theorem writeGuestBytes_layout :
    Exec.Relates (Exec.Same MemoryImage.layout) (writeGuestBytes address bytes) :=
  .mapError MemoryImage.guestWriteChecked_layout

theorem writeMemoryValue_atomic : Exec.Atomic id (writeMemoryValue address value width) := by
  rcases writeMemoryValue_cases with ⟨eq, _⟩ | ⟨eq, _⟩
  · rw [eq]
    exact writeGuestBytes_atomic
  · rw [eq]
    exact .of_same (.throw _)

theorem writeMemoryValue_layout :
    Exec.Relates (Exec.Same MemoryImage.layout) (writeMemoryValue address value width) := by
  rcases writeMemoryValue_cases with ⟨eq, _⟩ | ⟨eq, _⟩
  · rw [eq]
    exact writeGuestBytes_layout
  · rw [eq]
    exact .throw _

end Casa.Cpu
