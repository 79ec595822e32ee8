import Casa.Cpu.CheckedWrite

/-! The interlocked operations on guest words (cpu/memory.rs). An aligned word is
an atomic view into its page. Any other word goes through a fallback that reads
it, stores the replacement through the frame of its first page and answers with
the previous value, whatever the operation promises. -/
namespace Casa.Cpu
open Effect MachineInt MemoryImage BitVec
open BitVec (ofNat)

/-- An image with its store. The flat window of a store may be missing, and then
every frame stands alone. -/
structure StoredImage extends MemoryImage where
  valid : Bool

/-- A reference to four bytes of a page. -/
structure AtomicView where
  index : Nat
  offset : Nat

namespace AtomicView

def load (view : AtomicView) (m : MemoryImage) : U32 :=
  match m.pages[view.index]? with
  | none => 0
  | some (_, page) => fromLeBytes 32 (page.readBytes view.offset 4)

def store (view : AtomicView) (value : U32) (m : MemoryImage) : MemoryImage :=
  m.modifyPage view.index (·.writeBytes view.offset (toLeBytes 4 value))

def swap (value : U32) (view : AtomicView) (m : MemoryImage) : U32 × MemoryImage :=
  (view.load m, view.store value m)

/-- The value found, whether or not the exchange took place. -/
def compareExchange (comparand exchange : U32) (view : AtomicView) (m : MemoryImage) :
    U32 × MemoryImage :=
  (view.load m, if view.load m = comparand then view.store exchange m else m)

def fetchAdd (addend : U32) (view : AtomicView) (m : MemoryImage) : U32 × MemoryImage :=
  (view.load m, view.store (view.load m + addend) m)

def fetchSub (subtrahend : U32) (view : AtomicView) (m : MemoryImage) : U32 × MemoryImage :=
  (view.load m, view.store (view.load m - subtrahend) m)

end AtomicView

def MemoryImage.atomicU32At (m : MemoryImage) (address : U64) : Result AppError AtomicView := do
  m.checkCanonicalAccess address false false
  let pageBase := address &&& memoryPageMask
  let pageOffset := (address - pageBase).toNat
  if pageOffset % 4 ≠ 0 ∨ memoryPageSize < pageOffset + 4 then
    .error (unmappedMemoryError address)
  else
    match m.pageLookupIndex pageBase with
    | none => .error (unmappedMemoryError address)
    | some index =>
      match m.pages[index]? with
      | none => .panic -- the lookup has checked the index
      | some (_, page) =>
        if page.rangeIsMapped pageOffset 4 then .ok ⟨index, pageOffset⟩
        else .error (unmappedMemoryError address)

namespace StoredImage

/-- The frames of two neighbouring pages are neighbours in the flat window; the
frame of any other page is an allocation of its own. -/
def framesJoined (s : StoredImage) (pageBase : U64) : Bool :=
  s.valid && s.pageDirectory.covers pageBase && s.pageDirectory.covers (pageBase + 0x1000)

/-- A raw store through the frame of the page at `index`. Past the end of the
frame it goes on in the next page of the flat window. Outside the window it
leaves the allocation, which is undefined. -/
def rawStore (s : StoredImage) (index : Nat) (address : U64) (bytes : List U8) :
    Option MemoryImage :=
  let chunk := MemoryImage.chunkAt address bytes.length
  let first := s.writeChunk address bytes index
  if chunk.len = bytes.length then some first
  else if s.framesJoined chunk.pageBase then
    match s.pageLookupIndex (chunk.pageBase + 0x1000) with
    | none => some first
    | some next => some (first.modifyPage next (·.writeBytes 0 (bytes.drop chunk.len)))
  else none

/-- The fallback for unaligned words. `none` is an undefined execution. -/
def unalignedInterlocked (s : StoredImage) (address : U64) (op : U32 → U32) :
    Option (Outcome MemoryImage AppError U32) :=
  match s.readU32 address with
  | .error reason => some (.error reason s.toMemoryImage)
  | .panic => some .panic
  | .ok previous =>
    match s.pageLookupIndex (address &&& memoryPageMask) with
    | none => some .panic -- "range validated above"
    | some index => (s.rawStore index address (toLeBytes 4 (op previous))).map (.ok previous)

/-- The interlocked operations differ in what they do to the word, in the atomic
instruction for it and in how they answer from what that instruction returns. -/
def interlocked (s : StoredImage) (address : U64) (op : U32 → U32)
    (atomic : AtomicView → MemoryImage → U32 × MemoryImage) (answer : U32 → U32) :
    Option (Outcome MemoryImage AppError U32) :=
  if address.toNat % 4 ≠ 0 then s.unalignedInterlocked address op
  else
    match s.atomicU32At address with
    | .ok view =>
      let (previous, m) := atomic view s.toMemoryImage
      some (.ok (answer previous) m)
    | .error reason => some (.error reason s.toMemoryImage)
    | .panic => some .panic

def interlockedExchangeU32 (s : StoredImage) (address : U64) (value : U32) :
    Option (Outcome MemoryImage AppError U32) :=
  s.interlocked address (fun _ => value) (AtomicView.swap value) id

def interlockedCompareExchangeU32 (s : StoredImage) (address : U64) (exchange comparand : U32) :
    Option (Outcome MemoryImage AppError U32) :=
  s.interlocked address (fun current => if current = comparand then exchange else current)
    (AtomicView.compareExchange comparand exchange) id

def interlockedExchangeAddU32 (s : StoredImage) (address : U64) (addend : U32) :
    Option (Outcome MemoryImage AppError U32) :=
  s.interlocked address (· + addend) (AtomicView.fetchAdd addend) id

def interlockedIncrementU32 (s : StoredImage) (address : U64) :
    Option (Outcome MemoryImage AppError U32) :=
  s.interlocked address (· + 1) (AtomicView.fetchAdd 1) (· + 1)

def interlockedDecrementU32 (s : StoredImage) (address : U64) :
    Option (Outcome MemoryImage AppError U32) :=
  s.interlocked address (· - 1) (AtomicView.fetchSub 1) (· - 1)

end StoredImage

/-! ## What an interlocked operation is to do -/

inductive InterlockedOperation where
  | exchange (value : U32)
  | compareExchange (value comparand : U32)
  | exchangeAdd (addend : U32)
  | increment
  | decrement

namespace InterlockedOperation

def apply (s : StoredImage) (address : U64) :
    InterlockedOperation → Option (Outcome MemoryImage AppError U32)
  | .exchange value => s.interlockedExchangeU32 address value
  | .compareExchange value comparand => s.interlockedCompareExchangeU32 address value comparand
  | .exchangeAdd addend => s.interlockedExchangeAddU32 address addend
  | .increment => s.interlockedIncrementU32 address
  | .decrement => s.interlockedDecrementU32 address

def replacement : InterlockedOperation → U32 → U32
  | .exchange value, _ => value
  | .compareExchange value comparand, previous => if previous = comparand then value else previous
  | .exchangeAdd addend, previous => previous + addend
  | .increment, previous => previous + 1
  | .decrement, previous => previous - 1

def answersPrevious : InterlockedOperation → Bool
  | .increment | .decrement => false
  | _ => true

/-- Increment and decrement answer with the new value, the others with the previous one. -/
def answer (operation : InterlockedOperation) (previous : U32) : U32 :=
  if operation.answersPrevious then previous else operation.replacement previous

/-- At an address where the word can be read, the operation answers as promised
and replaces the four bytes of the word and nothing else. Elsewhere it fails and
leaves the image alone. -/
def Uniform (operation : InterlockedOperation) (s : StoredImage) (address : U64) : Prop :=
  match s.readU32 address with
  | .ok previous => ∃ t, operation.apply s address = some (.ok (operation.answer previous) t) ∧
      s.StoresExactly t address (toLeBytes 4 (operation.replacement previous))
  | _ => ∃ reason, operation.apply s address = some (.error reason s.toMemoryImage)

end InterlockedOperation

/-- The unaligned increment of 41 answers 41. -/
theorem interlockedIncrement_answers_previous :
    ¬ InterlockedOperation.Uniform .increment
      ⟨MemoryImage.ofPages [(0x1000, MemoryPage.zeroed.writeBytes 1 [41])], true⟩ 0x1001 := by
  rintro ⟨t, returned, -⟩
  have answered : ((InterlockedOperation.apply
      ⟨MemoryImage.ofPages [(0x1000, MemoryPage.zeroed.writeBytes 1 [41])], true⟩ 0x1001 .increment).map
        Outcome.value?) = some (some 41) := by decide +kernel
  rw [returned, Option.map_some] at answered
  dsimp only [Outcome.value?] at answered
  clear returned t
  revert answered
  decide +kernel

/-! ## Reading the word -/

namespace MemoryImage
variable {m : MemoryImage}

/-- A word that is read has its four bytes mapped, and is their value; otherwise
there is an error. -/
theorem readU32_cases (m : MemoryImage) :
    (∃ bytes, m.readU32 address = .ok (fromLeBytes 32 bytes) ∧ m.firstGap address 4 = none ∧
      bytes.map some = m.bytesFrom address 4) ∨
    ∃ reason, m.readU32 address = .error reason := by
  have span : (∃ bytes, m.readSpan address 4 = .ok bytes ∧ m.firstGap address 4 = none) ∨
      ∃ reason, m.readSpan address 4 = .error reason := by
    rw [readSpan]
    by_cases inside : (address - (address &&& memoryPageMask)).toNat + 4 ≤ memoryPageSize
    · rw [if_pos inside]
      cases found : m.page (address &&& memoryPageMask) with
      | none => exact readChunks_cases le_rfl
      | some page =>
        dsimp only
        split
        case isTrue mapped =>
          have whole : (chunkAt address 4).len = 4 := by
            simp only [chunkAt]
            omega
          refine .inl ⟨_, rfl, firstGap_eq_none.mpr ?_⟩
          have chunk := @chunk_mapped_iff m address 4 page found
          rw [whole] at chunk
          exact chunk.mp mapped
        case isFalse refused =>
          obtain ⟨-, missing, gap⟩ := MemoryPage.firstUnmappedOffset_of_not_mapped refused
          exact .inr ⟨_, by rw [gap]⟩
    · rw [if_neg inside]
      exact readChunks_cases le_rfl
  rw [readU32, readLittleEndian]
  rcases m.checkCanonicalAccess_cases with allowed | ⟨reason, refused⟩
  · rw [allowed]
    rcases span with ⟨bytes, returned, full⟩ | ⟨reason, failed⟩
    · exact .inl ⟨bytes, by rw [returned]; rfl, full, readSpan_bytes returned⟩
    · exact .inr ⟨reason, by rw [failed]; rfl⟩
  · exact .inr ⟨reason, by rw [refused]; rfl⟩

/-- Storing the word that is there changes nothing. -/
theorem storesExactly_self (returned : m.readU32 address = .ok previous) :
    m.StoresExactly m address (toLeBytes 4 previous) := by
  rcases m.readU32_cases with ⟨bytes, read, full, contents⟩ | ⟨reason, failed⟩
  · obtain rfl : fromLeBytes 32 bytes = previous := Result.ok.inj (read.symm.trans returned)
    have size : bytes.length = 4 := by
      have lengths := congrArg List.length contents
      simpa [bytesFrom] using lengths
    have word : toLeBytes 4 (fromLeBytes 32 bytes) = bytes := by
      rw [← size]
      exact toLeBytes_fromLeBytes (by omega)
    rw [word]
    refine ⟨firstGap_eq_none.mp (size ▸ full), fun i inside => ?_, fun _ _ => rfl, rfl⟩
    have byte := congrArg (fun cells => cells[i]?) contents
    rw [size] at inside
    simpa [bytesFrom, inside, size] using byte.symm
  · rw [failed] at returned
    cases returned

theorem readable_four (m : MemoryImage) : m.readable address 4 = (m.readU32 address).isOk := by
  rw [readable, readMemoryValue]
  cases m.readU32 address <;> rfl

theorem pageLookupIndex_of_mapped (full : m.firstGap address len = none) (inside : i < len) :
    ∃ index, m.pageLookupIndex ((address + ofNat 64 i) &&& memoryPageMask) = some index := by
  have mapped := firstGap_eq_none.mp full i inside
  rw [byteMapped] at mapped
  cases found : m.page ((address + ofNat 64 i) &&& memoryPageMask) with
  | none => rw [found] at mapped; cases mapped
  | some =>
    obtain ⟨index, looked, -⟩ := Option.bind_eq_some_iff.mp found
    exact ⟨index, looked⟩

end MemoryImage

/-! ## Storing the replacement -/

namespace MemoryImage
variable {m : MemoryImage} {buf : List U8}

theorem writeChunks_nil :
    (writeChunks fuel address [] : Exec MemoryImage ε Unit).run m = .ok () m := by
  cases fuel <;> rfl

theorem writeChunks_step
    (found : m.pageLookupIndex (chunkAt address buf.length).pageBase = some index)
    (nonempty : buf ≠ []) :
    (writeChunks (fuel + 1) address buf : Exec MemoryImage ε Unit).run m =
      (writeChunks fuel (address + ofNat 64 (chunkAt address buf.length).len)
        (buf.drop (chunkAt address buf.length).len)).run (m.writeChunk address buf index) := by
  have left : buf.isEmpty = false := List.isEmpty_eq_false_iff.mpr nonempty
  rw [writeChunks, left, if_neg Bool.false_ne_true, Exec.get_bind_run]
  simp only [found]
  rfl

theorem writeChunk_whole (here : chunkAt address buf.length = chunk)
    (whole : chunk.len = buf.length) :
    m.writeChunk address buf index = m.modifyPage index (·.writeBytes chunk.offset buf) := by
  rw [writeChunk, here, whole, List.take_length]

theorem writeChunk_storesExactly (full : m.firstGap address buf.length = none)
    (found : m.pageLookupIndex (address &&& memoryPageMask) = some index)
    (whole : (chunkAt address buf.length).len = buf.length) :
    m.StoresExactly (m.writeChunk address buf index) address buf where
  mapped := firstGap_eq_none.mp full
  stored _ inside := writeChunk_inside found (whole.symm ▸ inside)
  kept _ outside := writeChunk_outside found fun i inside => outside i (whole ▸ inside)
  layout := writeChunk_layout m

/-- The part of a short range that crosses into the next page starts there. -/
theorem chunkAt_crossing (short : buf.length ≤ memoryPageSize)
    (crosses : (chunkAt address buf.length).len ≠ buf.length) :
    chunkAt (address + ofNat 64 (chunkAt address buf.length).len)
        (buf.length - (chunkAt address buf.length).len) =
      ⟨(chunkAt address buf.length).pageBase + 0x1000, 0, buf.length - (chunkAt address buf.length).len⟩ := by
  have offset := pageOffset_toNat address
  have base := pageBase_toNat address
  have size : (chunkAt address buf.length).len = 4096 - address.toNat % 4096 := by
    simp only [chunkAt, memoryPageSize] at crosses ⊢
    omega
  have next : address + ofNat 64 (chunkAt address buf.length).len =
      (address &&& memoryPageMask) + 0x1000 := by
    apply eq_of_toNat_eq
    rw [toNat_add, toNat_add, toNat_ofNat, show (0x1000 : U64).toNat = 4096 from rfl]
    omega
  have aligned : ((address &&& memoryPageMask) + 0x1000) &&& memoryPageMask =
      (address &&& memoryPageMask) + 0x1000 := by
    apply eq_of_toNat_eq
    rw [pageBase_toNat, toNat_add, show (0x1000 : U64).toNat = 4096 from rfl]
    omega
  rw [next, chunkAt, aligned, BitVec.sub_self]
  congr 1
  rw [toNat_zero]
  omega

end MemoryImage

namespace StoredImage
open MemoryImage
variable {s : StoredImage}

/-- The bytes past the end of a frame land in another allocation. -/
theorem rawStore_undefined (crosses : (chunkAt address bytes.length).len ≠ bytes.length)
    (apart : s.framesJoined (address &&& memoryPageMask) = false) :
    s.rawStore index address bytes = none := by
  have base : (chunkAt address bytes.length).pageBase = address &&& memoryPageMask := rfl
  rw [rawStore, if_neg crosses, base, apart, if_neg Bool.false_ne_true]

/-- Inside one page, or where the next frame follows, the raw store is the store
loop of a checked write. -/
theorem rawStore_stores (full : s.firstGap address bytes.length = none) (nonempty : bytes ≠ [])
    (short : bytes.length ≤ memoryPageSize)
    (found : s.pageLookupIndex (address &&& memoryPageMask) = some index)
    (follows : (chunkAt address bytes.length).len = bytes.length ∨
      s.framesJoined (address &&& memoryPageMask)) :
    ∃ t, s.rawStore index address bytes = some t ∧ s.StoresExactly t address bytes := by
  have small : bytes.length ≤ 2 ^ 64 := short.trans (by decide)
  have base : (chunkAt address bytes.length).pageBase = address &&& memoryPageMask := rfl
  have bounded := chunkAt_len_le address bytes.length
  have positive := chunkAt_len_pos address (List.length_pos_iff.mpr nonempty).ne'
  obtain ⟨rounds, size⟩ := Nat.exists_eq_succ_of_ne_zero (List.length_pos_iff.mpr nonempty).ne'
  have first :
      (writeChunks bytes.length address bytes : Exec MemoryImage Unit Unit).run s.toMemoryImage =
      (writeChunks rounds (address + ofNat 64 (chunkAt address bytes.length).len)
        (bytes.drop (chunkAt address bytes.length).len)).run (s.writeChunk address bytes index) := by
    conv_lhs => rw [size]
    exact writeChunks_step found nonempty
  rw [rawStore]
  by_cases whole : (chunkAt address bytes.length).len = bytes.length
  · rw [if_pos whole]
    exact ⟨_, rfl, writeChunk_storesExactly full found whole⟩
  · have rest : bytes.drop (chunkAt address bytes.length).len ≠ [] := by
      rw [Ne, List.drop_eq_nil_iff]
      omega
    have crossing := chunkAt_crossing short whole
    rw [← List.length_drop] at crossing
    -- the byte after the first chunk is mapped, so its page is there
    obtain ⟨next, looked⟩ :=
      pageLookupIndex_of_mapped full (i := (chunkAt address bytes.length).len) (by omega)
    have nextBase := congrArg Chunk.pageBase crossing
    rw [show (address + ofNat 64 (chunkAt address bytes.length).len) &&& memoryPageMask =
      (chunkAt address bytes.length).pageBase + 0x1000 from nextBase] at looked
    obtain ⟨later, size'⟩ : ∃ later, rounds = later + 1 := ⟨rounds - 1, by omega⟩
    have found' : (s.writeChunk address bytes index).pageLookupIndex
        (chunkAt (address + ofNat 64 (chunkAt address bytes.length).len)
          (bytes.drop (chunkAt address bytes.length).len).length).pageBase = some next := by
      rw [writeChunk, pageLookupIndex_modifyPage, nextBase]
      exact looked
    rw [if_neg whole, base, follows.resolve_left whole, ← base, looked]
    refine ⟨_, rfl, storesExactly_of_writeChunks (ε := Unit) full small ?_⟩
    rw [first, size', writeChunks_step found' rest, writeChunk_whole crossing rfl, crossing,
      List.drop_length]
    exact writeChunks_nil

end StoredImage

/-! ## The aligned path -/

namespace MemoryImage

/-- An aligned word has an atomic view exactly when it can be read, and the view
is a view of its four bytes. -/
theorem atomicU32At_cases (m : MemoryImage) (aligned : address.toNat % 4 = 0) :
    (∃ view : AtomicView, m.readU32 address = .ok (view.load m) ∧ m.atomicU32At address = .ok view ∧
      ∀ value, m.StoresExactly (view.store value m) address (toLeBytes 4 value)) ∨
    ∃ reason reason', m.readU32 address = .error reason ∧
      m.atomicU32At address = .error reason' := by
  have offset := pageOffset_toNat address
  have inside : (address - (address &&& memoryPageMask)).toNat + 4 ≤ memoryPageSize := by
    rw [memoryPageSize]
    omega
  have accepted : ¬ ((address - (address &&& memoryPageMask)).toNat % 4 ≠ 0 ∨
      memoryPageSize < (address - (address &&& memoryPageMask)).toNat + 4) := by
    omega
  have whole : (chunkAt address 4).len = 4 := by
    simp only [chunkAt]
    omega
  rw [readU32, readLittleEndian, atomicU32At]
  rcases m.checkCanonicalAccess_cases with allowed | ⟨reason, refused⟩
  · rw [allowed, Result.ok_bind, if_neg accepted, readSpan, if_pos inside]
    cases looked : m.pageLookupIndex (address &&& memoryPageMask) with
    | none =>
      have absent : m.page (address &&& memoryPageMask) = none := by rw [page, looked]; rfl
      refine .inr ⟨unmappedMemoryError address, _, ?_, rfl⟩
      have base : (chunkAt address 4).pageBase = address &&& memoryPageMask := rfl
      rw [readInto, readChunks, allowed, Result.ok_bind, base, absent]
      rfl
    | some index =>
      obtain ⟨⟨base, page⟩, stored, -⟩ := Option.map_eq_some_iff.mp (pageLookupIndex_base looked)
      have present : m.page (address &&& memoryPageMask) = some page := by
        rw [MemoryImage.page, looked, Option.bind_some, stored]
        rfl
      rw [present]
      simp only [stored]
      split
      case isTrue mapped =>
        have full : m.firstGap address 4 = none := by
          have chunk := @chunk_mapped_iff m address 4 page present
          rw [whole] at chunk
          exact firstGap_eq_none.mpr (chunk.mp mapped)
        refine .inl ⟨_, ?_, rfl, fun value => ?_⟩
        · rw [AtomicView.load, stored]
          rfl
        · have chunk : AtomicView.store ⟨index, (address - (address &&& memoryPageMask)).toNat⟩ value m =
              m.writeChunk address (toLeBytes 4 value) index := (writeChunk_whole rfl whole).symm
          rw [chunk]
          exact writeChunk_storesExactly full looked whole
      case isFalse refused =>
        obtain ⟨-, missing, gap⟩ := MemoryPage.firstUnmappedOffset_of_not_mapped refused
        exact .inr ⟨_, _, by rw [gap]; rfl, rfl⟩
  · exact .inr ⟨reason, reason, by rw [refused]; rfl, by rw [refused]; rfl⟩

end MemoryImage

namespace InterlockedOperation
variable {s : StoredImage}

/-- An atomic instruction that answers with the word it finds and replaces it,
or leaves it where nothing would change. -/
def Performs (atomic : AtomicView → MemoryImage → U32 × MemoryImage) (op : U32 → U32) : Prop :=
  ∀ view m, atomic view m = (view.load m, view.store (op (view.load m)) m) ∨
    (op (view.load m) = view.load m ∧ atomic view m = (view.load m, m))

theorem apply_eq (operation : InterlockedOperation) : ∃ atomic answer,
    Performs atomic operation.replacement ∧ (∀ word, answer word = operation.answer word) ∧
    ∀ s address,
      operation.apply s address = s.interlocked address operation.replacement atomic answer := by
  cases operation with
  | exchange value =>
    exact ⟨AtomicView.swap value, id, fun _ _ => .inl rfl, fun _ => rfl, fun _ _ => rfl⟩
  | exchangeAdd addend =>
    exact ⟨AtomicView.fetchAdd addend, id, fun _ _ => .inl rfl, fun _ => rfl, fun _ _ => rfl⟩
  | increment =>
    exact ⟨AtomicView.fetchAdd 1, (· + 1), fun _ _ => .inl rfl, fun _ => rfl, fun _ _ => rfl⟩
  | decrement =>
    exact ⟨AtomicView.fetchSub 1, (· - 1), fun _ _ => .inl rfl, fun _ => rfl, fun _ _ => rfl⟩
  | compareExchange value comparand =>
    refine ⟨AtomicView.compareExchange comparand value, id, fun view m => ?_, fun _ => rfl, fun _ _ => rfl⟩
    by_cases equal : view.load m = comparand
    · exact .inl (by rw [AtomicView.compareExchange, replacement, if_pos equal, if_pos equal])
    · exact .inr ⟨if_neg equal, by rw [AtomicView.compareExchange, if_neg equal]⟩

theorem uniform_of_aligned (operation : InterlockedOperation) (aligned : address.toNat % 4 = 0) :
    operation.Uniform s address := by
  obtain ⟨atomic, answer, performs, answers, applied⟩ := operation.apply_eq
  rw [Uniform, applied, StoredImage.interlocked, if_neg (not_not.mpr aligned)]
  rcases s.atomicU32At_cases aligned with
    ⟨view, returned, found, stores⟩ | ⟨reason, reason', failed, refused⟩
  · rw [returned, found]
    dsimp only
    rcases performs view s.toMemoryImage with replaced | ⟨unchanged, kept⟩
    · exact ⟨_, by rw [replaced, answers], stores _⟩
    · -- the word stored would be the word found
      refine ⟨s.toMemoryImage, by rw [kept, answers], ?_⟩
      rw [unchanged]
      exact storesExactly_self returned
  · rw [failed, refused]
    exact ⟨reason', rfl⟩

/-- An unaligned word that can be read is replaced, with the previous value as
the answer, or the store leaves its allocation. -/
theorem unaligned_cases (returned : s.readU32 address = .ok previous) :
    ((address.toNat % 4096 + 4 ≤ 4096 ∨ s.framesJoined (address &&& memoryPageMask)) ∧
      ∃ t, s.unalignedInterlocked address op = some (.ok previous t) ∧
        s.StoresExactly t address (toLeBytes 4 (op previous))) ∨
    (¬ (address.toNat % 4096 + 4 ≤ 4096 ∨ s.framesJoined (address &&& memoryPageMask)) ∧
      s.unalignedInterlocked address op = none) := by
  have full : s.firstGap address 4 = none := by
    rcases s.readU32_cases with ⟨-, -, full, -⟩ | ⟨reason, failed⟩
    · exact full
    · rw [failed] at returned
      cases returned
  obtain ⟨index, found⟩ := pageLookupIndex_of_mapped full (i := 0) (by decide)
  rw [BitVec.add_zero] at found
  have size := toLeBytes_length 4 (op previous)
  have gap : s.firstGap address (toLeBytes 4 (op previous)).length = none := by rw [size, full]
  have inside : (chunkAt address (toLeBytes 4 (op previous)).length).len =
      (toLeBytes 4 (op previous)).length ↔ address.toNat % 4096 + 4 ≤ 4096 := by
    simp only [chunkAt, pageOffset_toNat, memoryPageSize]
    omega
  rw [StoredImage.unalignedInterlocked, returned, found, ← inside]
  dsimp only
  by_cases follows : (chunkAt address (toLeBytes 4 (op previous)).length).len =
      (toLeBytes 4 (op previous)).length ∨ s.framesJoined (address &&& memoryPageMask)
  · have nonempty : toLeBytes 4 (op previous) ≠ [] :=
      List.ne_nil_of_length_pos (by rw [size]; decide)
    obtain ⟨t, stored, exactly⟩ :=
      StoredImage.rawStore_stores gap nonempty (by rw [size]; decide) found follows
    exact .inl ⟨follows, t, by rw [stored]; rfl, exactly⟩
  · obtain ⟨crosses, apart⟩ := not_or.mp follows
    refine .inr ⟨follows, ?_⟩
    rw [StoredImage.rawStore_undefined crosses (Bool.of_not_eq_true apart)]
    rfl

/-- A changed word is never the previous one again. -/
theorem answersPrevious_of_answer {operation : InterlockedOperation}
    (same : operation.answer previous = previous) : operation.answersPrevious := by
  cases operation with
  | increment =>
    have sum : previous + 1 = previous := same
    have := congrArg BitVec.toNat sum
    rw [toNat_add, show (1 : U32).toNat = 1 from rfl] at this
    omega
  | decrement =>
    have difference : previous - 1 = previous := same
    have := congrArg BitVec.toNat difference
    rw [toNat_sub, show (1 : U32).toNat = 1 from rfl] at this
    omega
  | _ => rfl

end InterlockedOperation

/-- At every address and for every image, an interlocked operation does the same
if and only if the word is aligned, or cannot be read, or the operation answers
with the previous value and the word lies in one page or in two pages whose
frames follow each other in the flat window. -/
theorem interlocked_uniform_iff (operation : InterlockedOperation) (s : StoredImage) (address : U64) :
    operation.Uniform s address ↔
      address.toNat % 4 = 0 ∨ s.readable address 4 = false ∨
      (operation.answersPrevious = true ∧
        (address.toNat % 4096 + 4 ≤ 4096 ∨ s.framesJoined (address &&& memoryPageMask) = true)) := by
  by_cases aligned : address.toNat % 4 = 0
  · exact iff_of_true (operation.uniform_of_aligned aligned) (.inl aligned)
  obtain ⟨atomic, answer, -, -, applied⟩ := operation.apply_eq
  rw [InterlockedOperation.Uniform, applied, StoredImage.interlocked, if_pos aligned,
    MemoryImage.readable_four]
  rcases s.readU32_cases with ⟨bytes, returned, -, -⟩ | ⟨reason, failed⟩
  · rw [returned]
    rcases InterlockedOperation.unaligned_cases returned with
      ⟨follows, t, stored, exactly⟩ | ⟨crosses, undefined⟩
    · constructor
      · rintro ⟨t', same, -⟩
        have answered := (Outcome.ok.inj (Option.some.inj (same.symm.trans stored))).1
        exact .inr (.inr ⟨InterlockedOperation.answersPrevious_of_answer answered, follows⟩)
      · rintro (whole | unreadable | ⟨previous, -⟩)
        · exact absurd whole aligned
        · cases unreadable
        · exact ⟨t, by rw [stored, InterlockedOperation.answer, if_pos previous], exactly⟩
    · rw [undefined]
      constructor
      · rintro ⟨t, same, -⟩
        cases same
      · rintro (whole | unreadable | ⟨-, follows⟩)
        · exact absurd whole aligned
        · cases unreadable
        · exact absurd follows crosses
  · rw [StoredImage.unalignedInterlocked, failed]
    exact iff_of_true ⟨reason, rfl⟩ (.inr (.inl rfl))

end Casa.Cpu
