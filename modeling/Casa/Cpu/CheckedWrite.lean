import Casa.Cpu.MemoryContents
import Casa.Cpu.PageBits

/-! The page-by-page scan of a range against its bytes, and with it the checked
accessors: a write stores the whole range or nothing, a read returns the bytes of
the range, and the fault names the first byte that is not mapped. -/
namespace Casa.Cpu
open Effect MachineInt MemoryPage List BitVec
open BitVec (ofNat)

namespace MemoryImage

/-- What the attached canonical layer says about a read that starts at `address`. -/
def checkReadAccess (m : MemoryImage) (address : U64) (len : Nat) : Result GuestMemoryFault Unit :=
  match m.vm with
  | none => .ok ()
  | some vm =>
    (vm.checkAccess address false false).mapError fun fault => ⟨fault.address, false, len⟩

/-- Checked guest read: both validations come before the copy, which must then succeed. -/
def guestReadChecked (m : MemoryImage) (address : U64) (len : Nat) :
    Result GuestMemoryFault (List U8) := do
  m.checkReadAccess address len
  match ← m.firstUnmappedInRange address len with
  | some faultAddress => .error ⟨faultAddress, false, len⟩
  | none =>
    match m.readInto address len with
    | .ok bytes => .ok bytes
    | _ => .panic -- "validated range must be readable"

def byteMapped (m : MemoryImage) (address : U64) : Bool :=
  match m.page (address &&& memoryPageMask) with
  | none => false
  | some page => page.holds (address - (address &&& memoryPageMask)).toNat

/-- The position in a range of its first byte that is not mapped. -/
def firstGap (m : MemoryImage) (address : U64) (len : Nat) : Option Nat :=
  (List.range len).find? fun i => !m.byteMapped (address + ofNat 64 i)

section Gap
variable {m : MemoryImage} {address : U64}

theorem firstGap_eq_some : m.firstGap address len = some i ↔
    i < len ∧ m.byteMapped (address + ofNat 64 i) = false ∧
      ∀ j < i, m.byteMapped (address + ofNat 64 j) := by
  rw [firstGap, find?_range_eq_some, mem_range]
  simp only [Bool.not_eq_true', Bool.not_not]
  tauto

theorem firstGap_eq_none : m.firstGap address len = none ↔
    ∀ i < len, m.byteMapped (address + ofNat 64 i) := by
  simp [firstGap]

/-- Past a mapped beginning the first gap is that of the remaining range. -/
theorem firstGap_add (mapped : ∀ i < first, m.byteMapped (address + ofNat 64 i)) :
    m.firstGap address (first + second) =
      (m.firstGap (address + ofNat 64 first) second).map (first + ·) := by
  have beginning : (range first).find? (fun i => !m.byteMapped (address + ofNat 64 i)) = none := by
    simpa using mapped
  rw [firstGap, range_add, find?_append, beginning, Option.none_or, find?_map]
  congr 2
  funext i
  rw [Function.comp_apply, address_add]

/-- A byte of a chunk has the status that its page gives it. -/
theorem byteMapped_chunk {page : MemoryPage}
    (found : m.page (chunkAt address remaining).pageBase = some page)
    (inside : i < (chunkAt address remaining).len) :
    m.byteMapped (address + ofNat 64 i) = page.holds ((chunkAt address remaining).offset + i) := by
  obtain ⟨base, offset⟩ := chunkAt_address inside
  rw [byteMapped, offset, base, found]

theorem chunk_mapped_iff {page : MemoryPage}
    (found : m.page (chunkAt address remaining).pageBase = some page) :
    page.rangeIsMapped (chunkAt address remaining).offset (chunkAt address remaining).len ↔
      ∀ i < (chunkAt address remaining).len, m.byteMapped (address + ofNat 64 i) := by
  rw [rangeIsMapped_iff]
  constructor
  · intro mapped i inside
    rw [byteMapped_chunk found inside]
    exact mapped _ (by omega) (by omega)
  · intro mapped offset above below
    obtain ⟨i, rfl⟩ := Nat.exists_eq_add_of_le above
    have inside : i < (chunkAt address remaining).len := by omega
    rw [← byteMapped_chunk found inside]
    exact mapped i inside

/-- The address of a chunk's byte, from the page or from the range. -/
theorem chunk_byte_address :
    (chunkAt address remaining).pageBase + ofNat 64 ((chunkAt address remaining).offset + i) =
      address + ofNat 64 i := by
  simp only [chunkAt]
  rw [BitVec.ofNat_add, BitVec.ofNat_toNat, BitVec.setWidth_eq, ← BitVec.add_assoc,
    BitVec.add_comm (address &&& memoryPageMask), BitVec.sub_add_cancel]

/-- A chunk that the range test refuses holds the first gap of the range. -/
theorem firstGap_of_refused {page : MemoryPage}
    (found : m.page (chunkAt address remaining).pageBase = some page)
    (full : page.fullyMapped = false)
    (gap : page.firstUnmappedOffset (chunkAt address remaining).offset
      (chunkAt address remaining).len = some missing) :
    (m.firstGap address remaining).map (fun i => address + ofNat 64 i) =
      some ((chunkAt address remaining).pageBase + ofNat 64 missing) := by
  obtain ⟨above, below, unmapped, earlier⟩ := firstUnmappedOffset_eq_some gap
  obtain ⟨i, rfl⟩ := Nat.exists_eq_add_of_le above
  have inside : i < (chunkAt address remaining).len := by omega
  have bounded := chunkAt_len_le address remaining
  have first : m.firstGap address remaining = some i := by
    refine firstGap_eq_some.mpr ⟨by omega, ?_, fun j before => ?_⟩
    · rw [byteMapped_chunk found inside, holds, full, unmapped]
      rfl
    · rw [byteMapped_chunk found (by omega), holds, earlier _ (by omega) (by omega), Bool.or_true]
  rw [first, chunk_byte_address]
  rfl

/-- Without a page at its start, a range has its first byte missing. -/
theorem firstGap_of_absent (left : len ≠ 0) (absent : m.page (chunkAt address len).pageBase = none) :
    m.firstGap address len = some 0 := by
  refine firstGap_eq_some.mpr ⟨by omega, ?_, fun j before => by omega⟩
  obtain ⟨base, -⟩ := chunkAt_address (chunkAt_len_pos address left)
  rw [byteMapped, base, absent]

/-- Past a mapped first chunk, the first gap is that of the rest of the range. -/
theorem firstGap_of_mapped {page : MemoryPage}
    (found : m.page (chunkAt address len).pageBase = some page)
    (mapped : page.rangeIsMapped (chunkAt address len).offset (chunkAt address len).len) :
    m.firstGap address len =
      (m.firstGap (address + ofNat 64 (chunkAt address len).len)
        (len - (chunkAt address len).len)).map ((chunkAt address len).len + ·) := by
  rw [← firstGap_add ((chunk_mapped_iff found).mp mapped),
    Nat.add_sub_of_le (chunkAt_len_le address len)]

/-- The scan reports the first gap of the range, whatever pages it crosses. -/
theorem scanUnmapped_eq (enough : len ≤ fuel) : (m.scanUnmapped fuel address len : Result ε _) =
      .ok ((m.firstGap address len).map fun i => address + ofNat 64 i) := by
  induction fuel generalizing address len with
  | zero =>
    obtain rfl : len = 0 := by omega
    rfl
  | succ fuel ih =>
    rw [scanUnmapped]
    split
    case isTrue empty =>
      rw [empty]
      rfl
    case isFalse left =>
      have positive := chunkAt_len_pos address left
      cases found : m.page (chunkAt address len).pageBase with
      | none =>
        simp only [found, firstGap_of_absent left found]
        congr 2
        simp
      | some =>
        simp only [found]
        split
        case isTrue mapped =>
          rw [ih (by omega), firstGap_of_mapped found mapped, Option.map_map]
          congr 3
          funext i
          rw [Function.comp_apply, address_add]
        case isFalse refused =>
          obtain ⟨full, missing, gap⟩ := firstUnmappedOffset_of_not_mapped refused
          rw [firstGap_of_refused found full gap]
          simp [gap]

/-- After any operations the marker, the range test and the search for a gap say
what the bits say, and the scan of an image always finds the gap it looks for. -/
theorem bitmap_answers_exact (operations : List PageOperation) :
    let page := operations.foldl PageOperation.apply new
    page.Marked ∧
    (∀ start len, start + len ≤ memoryPageSize →
      (page.rangeIsMapped start len = true ↔
        ∀ offset, start ≤ offset → offset < start + len → page.isMapped offset = true) ∧
      (∀ offset, page.firstUnmappedOffset start len = some offset →
        start ≤ offset ∧ offset < start + len ∧ page.isMapped offset = false ∧
          ∀ earlier, start ≤ earlier → earlier < offset → page.isMapped earlier = true) ∧
      (page.firstUnmappedOffset start len = none →
        ∀ offset, start ≤ offset → offset < start + len → page.isMapped offset = true)) ∧
    ∀ (image : MemoryImage) address len,
      (image.firstUnmappedInRange address len : Result ε _) ≠ .panic := by
  intro page
  have marked : page.Marked := foldlRecOn operations _ new_marked fun page marked operation _ =>
    apply_marked marked operation
  refine ⟨marked,
    fun start len fits => ⟨?_, fun _ => firstUnmappedOffset_eq_some, firstUnmappedOffset_eq_none⟩,
    fun image address len panicked => ?_⟩
  · rw [rangeIsMapped_iff]
    refine forall_congr' fun offset => forall_congr' fun above => forall_congr' fun below => ?_
    rw [page.holds_eq marked.mp (by omega)]
  · rw [firstUnmappedInRange, scanUnmapped_eq le_rfl] at panicked
    cases panicked

/-- Without a canonical layer a chunked read returns the bytes of its range, or
names the first gap. -/
theorem readChunks_eq (standalone : m.vm = none) (enough : len ≤ fuel) :
    m.readChunks fuel address len = match m.firstGap address len with
      | some i => .error (unmappedMemoryError (address + ofNat 64 i))
      | none => .ok ((range len).map fun i => (m.byteAt (address + ofNat 64 i)).getD 0) := by
  induction fuel generalizing address len with
  | zero =>
    obtain rfl : len = 0 := by omega
    rfl
  | succ fuel ih =>
    have allowed : m.checkCanonicalAccess address false false = .ok () := by
      rw [checkCanonicalAccess, standalone]
    rw [readChunks]
    split
    case isTrue empty =>
      rw [empty]
      rfl
    case isFalse left =>
      have positive := chunkAt_len_pos address left
      rw [allowed, Result.ok_bind]
      cases found : m.page (chunkAt address len).pageBase with
      | none =>
        simp only [firstGap_of_absent left found]
        congr 2
        simp
      | some page =>
        dsimp only
        split
        case isTrue mapped =>
          have split : range len = range (chunkAt address len).len ++
              (range (len - (chunkAt address len).len)).map ((chunkAt address len).len + ·) := by
            rw [← range_add, Nat.add_sub_of_le (chunkAt_len_le address len)]
          have bytes : page.readBytes (chunkAt address len).offset (chunkAt address len).len =
              (range (chunkAt address len).len).map fun i =>
                (m.byteAt (address + ofNat 64 i)).getD 0 := by
            refine map_congr_left fun i member => ?_
            rw [byteAt_chunk found (mem_range.mp member)]
            rfl
          rw [ih (by omega), bytes, firstGap_of_mapped found mapped, split]
          cases m.firstGap (address + ofNat 64 (chunkAt address len).len)
              (len - (chunkAt address len).len) with
          | some i => simp only [Result.error_bind, Option.map_some, address_add]
          | none => simp [address_add]
        case isFalse refused =>
          obtain ⟨full, missing, gap⟩ := firstUnmappedOffset_of_not_mapped refused
          have reported := firstGap_of_refused found full gap
          obtain ⟨i, first, place⟩ := Option.map_eq_some_iff.mp reported
          simp [gap, first, place]

/-- The direct path of a multi-byte read and the chunked one agree. -/
theorem readSpan_eq (standalone : m.vm = none) :
    m.readSpan address len = m.readInto address len := by
  rw [readSpan]
  by_cases inside : (address - (address &&& memoryPageMask)).toNat + len ≤ memoryPageSize
  · have whole : (chunkAt address len).len = len := by
      simp only [chunkAt]
      omega
    have offset : (chunkAt address len).offset = (address - (address &&& memoryPageMask)).toNat := rfl
    rw [if_pos inside, readInto, readChunks_eq standalone le_rfl]
    cases found : m.page (address &&& memoryPageMask) with
    | none => rfl
    | some page =>
      have base : m.page (chunkAt address len).pageBase = some page := found
      have mapped := chunk_mapped_iff base
      rw [whole] at mapped
      dsimp only
      split
      case isTrue covered =>
        rw [firstGap_eq_none.mpr (mapped.mp covered)]
        congr 1
        refine map_congr_left fun i member => ?_
        rw [byteAt_chunk base (whole.symm ▸ mem_range.mp member)]
        rfl
      case isFalse refused =>
        obtain ⟨full, missing, gap⟩ := firstUnmappedOffset_of_not_mapped refused
        have atChunk : page.firstUnmappedOffset (chunkAt address len).offset
            (chunkAt address len).len = some missing := by
          rw [whole, offset, gap]
        have reported := firstGap_of_refused base full atChunk
        obtain ⟨i, first, place⟩ := Option.map_eq_some_iff.mp reported
        simp only [gap, first]
        rw [place]
        rfl
  · rw [if_neg inside]

theorem checkCanonicalAccess_cases (m : MemoryImage) :
    m.checkCanonicalAccess address write execute = .ok () ∨
      ∃ reason, m.checkCanonicalAccess address write execute = .error reason := by
  rw [checkCanonicalAccess]
  cases m.vm with
  | none => exact .inl rfl
  | some vm =>
    dsimp only
    rcases vm.checkAccess_cases with allowed | ⟨fault, refused⟩
    · rw [allowed]
      exact .inl rfl
    · rw [refused]
      exact .inr ⟨_, rfl⟩

/-- With or without a canonical layer, a chunked read that returns has found its
whole range mapped; otherwise it reports an error. -/
theorem readChunks_cases (enough : len ≤ fuel) :
    (∃ bytes, m.readChunks fuel address len = .ok bytes ∧ m.firstGap address len = none) ∨
      ∃ reason, m.readChunks fuel address len = .error reason := by
  induction fuel generalizing address len with
  | zero =>
    obtain rfl : len = 0 := by omega
    exact .inl ⟨[], rfl, rfl⟩
  | succ fuel ih =>
    rw [readChunks]
    split
    case isTrue empty =>
      rw [empty]
      exact .inl ⟨[], rfl, rfl⟩
    case isFalse left =>
      rcases m.checkCanonicalAccess_cases with allowed | ⟨reason, refused⟩
      · rw [allowed, Result.ok_bind]
        cases found : m.page (chunkAt address len).pageBase with
        | none => exact .inr ⟨_, rfl⟩
        | some =>
          dsimp only
          split
          case isTrue mapped =>
            have positive := chunkAt_len_pos address left
            rcases @ih (address + ofNat 64 (chunkAt address len).len)
              (len - (chunkAt address len).len) (by omega) with ⟨rest, returned, full⟩ | ⟨reason, failed⟩
            · refine .inl ⟨_, by rw [returned]; rfl, ?_⟩
              rw [firstGap_of_mapped found mapped, full, Option.map_none]
            · exact .inr ⟨reason, by rw [failed]; rfl⟩
          case isFalse refused =>
            obtain ⟨-, missing, gap⟩ := firstUnmappedOffset_of_not_mapped refused
            exact .inr ⟨_, by rw [gap]⟩
      · exact .inr ⟨reason, by rw [refused]; rfl⟩

end Gap

/-- The image `t` after a write that stored its whole range, all of it mapped:
no other byte, no mapped status and no page has changed. -/
structure StoresExactly (m t : MemoryImage) (address : U64) (buf : List U8) : Prop where
  mapped : ∀ i < buf.length, m.byteMapped (address + ofNat 64 i) = true
  stored : ∀ i < buf.length, t.byteAt (address + ofNat 64 i) = buf[i]?
  kept : ∀ other, (∀ i < buf.length, other ≠ address + ofNat 64 i) → t.byteAt other = m.byteAt other
  layout : t.layout = m.layout

/-- The first byte of the range that is not mapped, which is the lowest one
unless the range wraps around the address space. -/
structure FaultsAtFirstGap (m : MemoryImage) (address : U64) (len : Nat) (fault : U64) :
    Prop where
  first : ∃ i < len, fault = address + ofNat 64 i ∧ m.byteMapped fault = false ∧
    ∀ j < i, m.byteMapped (address + ofNat 64 j) = true
  lowest : address.toNat + len ≤ 2 ^ 64 → ∀ j < len,
    m.byteMapped (address + ofNat 64 j) = false → fault ≤ address + ofNat 64 j

theorem storesExactly_of_writeChunks (full : m.firstGap address buf.length = none)
    (short : buf.length ≤ 2 ^ 64)
    (wrote : (writeChunks buf.length address buf : Exec MemoryImage ε Unit).run m = .ok () t) :
    m.StoresExactly t address buf := by
  obtain ⟨contents, kept⟩ := writeChunks_bytes le_rfl short wrote
  refine ⟨firstGap_eq_none.mp full, fun i inside => ?_, kept, ?_⟩
  · have byte := congrArg (fun bytes => bytes[i]?) contents
    simpa [bytesFrom, inside] using byte
  · exact writeChunks_layout m t (by rw [wrote]; rfl)

theorem faultsAtFirstGap_of_firstGap {m : MemoryImage} (gap : m.firstGap address len = some i) :
    m.FaultsAtFirstGap address len (address + ofNat 64 i) := by
  obtain ⟨inside, unmapped, earlier⟩ := firstGap_eq_some.mp gap
  refine ⟨⟨i, inside, rfl, unmapped, earlier⟩, fun straight j bound missing => ?_⟩
  have order : i ≤ j := by
    by_contra before
    rw [earlier j (by omega)] at missing
    cases missing
  rw [le_def, toNat_add, toNat_add, toNat_ofNat, toNat_ofNat]
  omega

/-- A checked write goes by the first gap of its range. -/
theorem guestWriteChecked_cases (address : U64) (buf : List U8) (standalone : m.vm = none)
    (short : buf.length ≤ 2 ^ 64) :
    (m.firstGap address buf.length = none ∧
      ∃ t, (guestWriteChecked address buf).run m = .ok () t ∧ m.StoresExactly t address buf) ∨
    ∃ i, m.firstGap address buf.length = some i ∧ (guestWriteChecked address buf).run m =
      .error ⟨address + ofNat 64 i, true, buf.length⟩ m := by
  have allowed : m.checkWriteAccess address buf.length = .ok () := by
    rw [checkWriteAccess, standalone]
  have scanned : (m.firstUnmappedInRange address buf.length : Result GuestMemoryFault _) =
      .ok ((m.firstGap address buf.length).map fun i => address + ofNat 64 i) :=
    scanUnmapped_eq le_rfl
  cases gap : m.firstGap address buf.length with
  | none =>
    rw [gap] at scanned
    have accepted : m.acceptsWrite address buf.length := by
      simp [acceptsWrite, allowed, scanned, Result.isOk]
    obtain ⟨t, stored⟩ := writeChunks_returns (ε := GuestMemoryFault) scanned
    have wrote := (guestWriteChecked_of_accepts accepted).trans stored
    exact .inl ⟨rfl, t, wrote, storesExactly_of_writeChunks gap short stored⟩
  | some i =>
    rw [gap] at scanned
    refine .inr ⟨i, rfl, ?_⟩
    rw [guestWriteChecked, Exec.read_bind_run, allowed]
    simp only [Exec.read_bind_run, scanned]
    rfl

/-- Without a canonical layer a checked write stores its whole range and nothing
else, or leaves the image as it was and reports the first gap. A slice has less
than `2 ^ 63` bytes. -/
theorem guestWriteChecked_exact {m : MemoryImage} (address : U64) (buf : List U8)
    (standalone : m.vm = none) (slice : buf.length < 2 ^ 63) :
    (∃ t, (guestWriteChecked address buf).run m = .ok () t ∧ m.StoresExactly t address buf) ∨
    (∃ fault, (guestWriteChecked address buf).run m = .error ⟨fault, true, buf.length⟩ m ∧
      m.FaultsAtFirstGap address buf.length fault) := by
  rcases guestWriteChecked_cases address buf standalone (by omega) with
    ⟨-, stored⟩ | ⟨i, gap, refused⟩
  · exact .inl stored
  · exact .inr ⟨_, refused, faultsAtFirstGap_of_firstGap gap⟩

/-- Four bytes across the end of the only page. -/
theorem guestWriteChecked_exact_straddling :
    let m := ofPages [(0x1000, .zeroed)]
    m.byteMapped 0x2000 = false ∧
      ((∃ t, (guestWriteChecked 0x1ffe [1, 2, 3, 4]).run m = .ok () t ∧ m.StoresExactly t 0x1ffe [1, 2, 3, 4]) ∨
        (∃ fault, (guestWriteChecked 0x1ffe [1, 2, 3, 4]).run m = .error ⟨fault, true, 4⟩ m ∧
          m.FaultsAtFirstGap 0x1ffe 4 fault)) :=
  ⟨by decide +kernel, guestWriteChecked_exact 0x1ffe [1, 2, 3, 4] rfl (by decide)⟩

/-- A range that wraps around: its first gap is above the address 0, which it also misses. -/
theorem guestWriteChecked_wrapped :
    let m := ofPages []
    (guestWriteChecked 0xfffffffffffffffe [1, 2, 3, 4]).run m =
      .error ⟨0xfffffffffffffffe, true, 4⟩ m ∧
      0xfffffffffffffffe + ofNat 64 2 = 0 ∧ m.byteMapped 0 = false := by
  refine ⟨?_, by decide, by decide +kernel⟩
  have alone : (ofPages []).vm = none := rfl
  have first : (ofPages []).firstGap 0xfffffffffffffffe 4 = some 0 := by decide +kernel
  rcases guestWriteChecked_cases 0xfffffffffffffffe [1, 2, 3, 4] alone (by decide) with
    ⟨full, -⟩ | ⟨i, gap, refused⟩
  · cases full.symm.trans first
  · cases gap.symm.trans first
    exact refused

end MemoryImage

end Casa.Cpu
