import Casa.Cpu.Memory

/-! What guest memory holds, byte by byte, and that a checked write is seen by
the next read of the same place and by no read of another. -/
namespace Casa.Cpu
open Effect MachineInt MemoryImage BitVec List
open BitVec (ofNat)
open Result (bind_eq_ok)

/-! ## Pages and offsets -/

theorem pageBase_toNat (address : U64) :
    (address &&& memoryPageMask).toNat = address.toNat / 4096 * 4096 := by
  exact toNat_and_highBits address 12

theorem pageOffset_toNat (address : U64) :
    (address - (address &&& memoryPageMask)).toNat = address.toNat % 4096 := by
  have base := pageBase_toNat address
  have below : address &&& memoryPageMask ≤ address := by
    rw [le_def]
    omega
  rw [toNat_sub_of_le below]
  omega

/-- Two addresses are equal when their pages and their offsets are. -/
theorem address_ext (base : a &&& memoryPageMask = b &&& memoryPageMask)
    (offset : (a - (a &&& memoryPageMask)).toNat = (b - (b &&& memoryPageMask)).toNat) : a = b := by
  have bases := congrArg BitVec.toNat base
  rw [pageBase_toNat, pageBase_toNat] at bases
  rw [pageOffset_toNat, pageOffset_toNat] at offset
  apply eq_of_toNat_eq
  omega

namespace MemoryImage

/-- The byte a page holds at a guest address, mapped or not. -/
def byteAt (m : MemoryImage) (address : U64) : Option U8 :=
  (m.page (address &&& memoryPageMask)).map fun page =>
    page.bytes (address - (address &&& memoryPageMask)).toNat

/-- The addresses of a chunk lie in its page, one after the other. -/
theorem chunkAt_address (inside : i < (chunkAt address remaining).len) :
    (address + ofNat 64 i) &&& memoryPageMask = (chunkAt address remaining).pageBase ∧
      (address + ofNat 64 i - ((address + ofNat 64 i) &&& memoryPageMask)).toNat =
        (chunkAt address remaining).offset + i := by
  have offset := pageOffset_toNat address
  have short : i < 4096 - address.toNat % 4096 := by
    simp only [chunkAt, memoryPageSize] at inside
    omega
  have sum : (address + ofNat 64 i).toNat = address.toNat + i := by
    rw [toNat_add, toNat_ofNat]
    omega
  constructor
  · apply eq_of_toNat_eq
    simp only [chunkAt]
    rw [pageBase_toNat, pageBase_toNat]
    omega
  · simp only [chunkAt]
    rw [pageOffset_toNat]
    omega

theorem byteAt_chunk {m : MemoryImage} {page : MemoryPage}
    (found : m.page (chunkAt address remaining).pageBase = some page)
    (inside : i < (chunkAt address remaining).len) :
    m.byteAt (address + ofNat 64 i) =
      some (page.bytes ((chunkAt address remaining).offset + i)) := by
  obtain ⟨base, offset⟩ := chunkAt_address inside
  rw [byteAt, offset, base, found]
  rfl

theorem chunkAt_len_le (address : U64) (remaining : Nat) :
    (chunkAt address remaining).len ≤ remaining := by
  simp only [chunkAt]
  omega

theorem chunkAt_len_pos (address : U64) (left : remaining ≠ 0) :
    0 < (chunkAt address remaining).len := by
  have offset := pageOffset_toNat address
  simp only [chunkAt, memoryPageSize]
  omega

/-- The addresses from the end of the first chunk on. -/
theorem address_add : address + ofNat 64 (len + i) = address + ofNat 64 len + ofNat 64 i := by
  rw [ofNat_add, BitVec.add_assoc]

/-! ## Reads -/

def bytesFrom (m : MemoryImage) (address : U64) (len : Nat) : List (Option U8) :=
  (List.range len).map fun i => m.byteAt (address + ofNat 64 i)

theorem bytesFrom_add (m : MemoryImage) : m.bytesFrom address (first + second) =
      m.bytesFrom address first ++ m.bytesFrom (address + ofNat 64 first) second := by
  simp only [bytesFrom, range_add, map_append, map_map]
  congr 1
  apply map_congr_left
  intro i _
  simp [address_add]

theorem readBytes_chunk {m : MemoryImage} {page : MemoryPage}
    (found : m.page (chunkAt address remaining).pageBase = some page)
    (inside : len ≤ (chunkAt address remaining).len) :
    (page.readBytes (chunkAt address remaining).offset len).map some = m.bytesFrom address len := by
  simp only [MemoryPage.readBytes, map_map]
  apply map_congr_left
  intro i member
  have bound := mem_range.mp member
  rw [Function.comp_apply, byteAt_chunk found (by omega)]

/-- A chunked read that returns: the layer allowed the access, the first page is
there and maps the chunk, and the rest of the range was read too. -/
theorem readChunks_eq_ok {m : MemoryImage} (left : len ≠ 0)
    (returned : m.readChunks (fuel + 1) address len = .ok bytes) :
    ∃ page rest, m.checkCanonicalAccess address false false = .ok () ∧
      m.page (chunkAt address len).pageBase = some page ∧
      m.readChunks fuel (address + ofNat 64 (chunkAt address len).len)
        (len - (chunkAt address len).len) = .ok rest ∧
      bytes = page.readBytes (chunkAt address len).offset (chunkAt address len).len ++ rest := by
  rw [readChunks, if_neg left] at returned
  obtain ⟨_, allowed, returned⟩ := bind_eq_ok.mp returned
  cases found : m.page (chunkAt address len).pageBase with
  | none => simp only [found] at returned; cases returned
  | some page =>
    simp only [found] at returned
    split at returned
    · obtain ⟨rest, tail, joined⟩ := bind_eq_ok.mp returned
      cases joined
      exact ⟨page, rest, allowed, rfl, tail, rfl⟩
    · split at returned <;> cases returned

theorem readChunks_bytes {m : MemoryImage} (enough : len ≤ fuel)
    (returned : m.readChunks fuel address len = .ok bytes) :
    bytes.map some = m.bytesFrom address len := by
  induction fuel generalizing address len bytes with
  | zero =>
    obtain rfl : len = 0 := by omega
    cases returned
    rfl
  | succ fuel ih =>
    by_cases left : len = 0
    · subst left
      cases returned
      rfl
    · obtain ⟨page, rest, -, found, tail, rfl⟩ := readChunks_eq_ok left returned
      have shorter := chunkAt_len_pos address left
      have split : len = (chunkAt address len).len + (len - (chunkAt address len).len) :=
        (Nat.add_sub_of_le (chunkAt_len_le address len)).symm
      rw [map_append, ih (by omega) tail, readBytes_chunk found le_rfl]
      conv_rhs => rw [split]
      exact (bytesFrom_add m).symm

theorem readSpan_bytes {m : MemoryImage} (returned : m.readSpan address n = .ok bytes) :
    bytes.map some = m.bytesFrom address n := by
  unfold readSpan at returned
  by_cases fits : (address - (address &&& memoryPageMask)).toNat + n ≤ memoryPageSize
  · simp only [fits, if_true] at returned
    cases found : m.page (address &&& memoryPageMask) with
    | none =>
      simp only [found] at returned
      exact readChunks_bytes le_rfl returned
    | some =>
      simp only [found] at returned
      split at returned
      · cases returned
        have whole : n ≤ (chunkAt address n).len := by
          simp only [chunkAt]
          omega
        exact readBytes_chunk found whole
      · split at returned <;> cases returned
  · simp only [fits] at returned
    exact readChunks_bytes le_rfl returned

theorem readU8_bytes {m : MemoryImage} (returned : m.readU8 address = .ok byte) :
    m.byteAt address = some byte := by
  obtain ⟨_, _, returned⟩ := bind_eq_ok.mp returned
  rw [byteAt]
  cases found : m.page (address &&& memoryPageMask) with
  | none => simp only [found] at returned; cases returned
  | some =>
    simp only [found] at returned
    split at returned
    · cases returned
      rfl
    · cases returned

theorem readLittleEndian_bytes {m : MemoryImage}
    (returned : m.readLittleEndian n address = .ok value) :
    ∃ bytes, bytes.map some = m.bytesFrom address n ∧ value = fromLeBytes (8 * n) bytes := by
  obtain ⟨_, _, returned⟩ := bind_eq_ok.mp returned
  obtain ⟨bytes, span, joined⟩ := bind_eq_ok.mp returned
  cases joined
  exact ⟨bytes, readSpan_bytes span, rfl⟩

/-- A guest read returns the little-endian value of the bytes it covers. -/
theorem readMemoryValue_bytes (returned : readMemoryValue m address width = .ok value) :
    ∃ bytes, bytes.map some = m.bytesFrom address width ∧
      value = (fromLeBytes (8 * width) bytes).setWidth 64 := by
  unfold readMemoryValue at returned
  split at returned
  · obtain ⟨byte, read, joined⟩ := bind_eq_ok.mp returned
    cases joined
    refine ⟨[byte], ?_, ?_⟩
    · simp [bytesFrom, readU8_bytes read]
    · simp [fromLeBytes]
  · obtain ⟨word, read, joined⟩ := bind_eq_ok.mp returned
    cases joined
    obtain ⟨bytes, span, rfl⟩ := readLittleEndian_bytes read
    exact ⟨bytes, span, rfl⟩
  · obtain ⟨word, read, joined⟩ := bind_eq_ok.mp returned
    cases joined
    obtain ⟨bytes, span, rfl⟩ := readLittleEndian_bytes read
    exact ⟨bytes, span, rfl⟩
  · obtain ⟨bytes, span, rfl⟩ := readLittleEndian_bytes (n := 8) returned
    exact ⟨bytes, span, (BitVec.setWidth_eq _).symm⟩
  · cases returned

/-! ## Writes -/

def modifyPage (m : MemoryImage) (index : Nat) (f : MemoryPage → MemoryPage) : MemoryImage :=
  { m with pages := m.pages.modify index fun (base, page) => (base, f page) }

theorem pageLookupIndex_base {m : MemoryImage} (found : m.pageLookupIndex base = some index) :
    m.pages[index]?.map (·.1) = some base := by
  obtain ⟨_, recorded⟩ := Option.filter_eq_some_iff.mp found
  exact eq_of_beq recorded

theorem pageLookupIndex_modifyPage (m : MemoryImage) :
    (m.modifyPage index f).pageLookupIndex base = m.pageLookupIndex base := by
  have bases :
      ∀ j : Nat, ((m.modifyPage index f).pages[j]?).map (·.1) = (m.pages[j]?).map (·.1) := by
    intro j
    rw [← List.getElem?_map, ← List.getElem?_map, modifyPage, map_modify_of_same]
    intro entry
    rfl
  simp only [pageLookupIndex, bases]
  rfl

/-- Only the page with the looked-up base changes. -/
theorem modifyPage_page {m : MemoryImage} (found : m.pageLookupIndex base = some index) :
    (m.modifyPage index f).page other = if other = base then (m.page other).map f
      else m.page other := by
  rw [page, page, pageLookupIndex_modifyPage]
  cases looked : m.pageLookupIndex other with
  | none => simp
  | some j =>
    have otherBase := pageLookupIndex_base looked
    simp only [Option.bind_some, modifyPage, List.getElem?_modify]
    by_cases same : other = base
    · subst same
      obtain rfl : index = j := Option.some.inj (found.symm.trans looked)
      cases m.pages[index]? <;> simp
    · have distinct : index ≠ j := by
        rintro rfl
        exact same (Option.some.inj (otherBase.symm.trans (pageLookupIndex_base found)))
      cases m.pages[j]? <;> simp [same, distinct]

section WriteChunk
variable {m : MemoryImage} {buf : List U8}

def writeChunk (m : MemoryImage) (address : U64) (buf : List U8) (index : Nat) : MemoryImage :=
  m.modifyPage index
    (·.writeBytes (chunkAt address buf.length).offset (buf.take (chunkAt address buf.length).len))

theorem take_chunk_length : (buf.take (chunkAt address buf.length).len).length =
    (chunkAt address buf.length).len := by
  rw [length_take]
  exact Nat.min_eq_left (chunkAt_len_le _ _)

theorem writeChunk_layout (m : MemoryImage) :
    (m.writeChunk address buf index).layout = m.layout := by
  simp only [layout, writeChunk, modifyPage]
  rw [map_modify_of_same]
  intro entry
  rfl

theorem writeChunk_inside
    (found : m.pageLookupIndex (chunkAt address buf.length).pageBase = some index)
    (inside : i < (chunkAt address buf.length).len) :
    (m.writeChunk address buf index).byteAt (address + ofNat 64 i) = buf[i]? := by
  obtain ⟨base, offset⟩ := chunkAt_address inside
  have bounded := chunkAt_len_le address buf.length
  have present : ∃ entry, m.pages[index]? = some entry := by
    have recorded := pageLookupIndex_base found
    obtain ⟨entry, present, _⟩ := Option.map_eq_some_iff.mp recorded
    exact ⟨entry, present⟩
  obtain ⟨entry, present⟩ := present
  have page : m.page (chunkAt address buf.length).pageBase = some entry.2 := by
    rw [page, found, Option.bind_some, present]
    rfl
  rw [byteAt, offset, base, writeChunk, modifyPage_page found, if_pos rfl, page]
  have within : (chunkAt address buf.length).offset ≤ (chunkAt address buf.length).offset + i ∧
      (chunkAt address buf.length).offset + i <
        (chunkAt address buf.length).offset + (buf.take (chunkAt address buf.length).len).length := by
    rw [take_chunk_length]
    omega
  have position : i < buf.length := by omega
  simp only [Option.map_some, MemoryPage.writeBytes, if_pos within, Nat.add_sub_cancel_left]
  rw [List.getD_eq_getElem?_getD, List.getElem?_take_of_lt inside,
    List.getElem?_eq_getElem position]
  rfl

theorem writeChunk_outside
    (found : m.pageLookupIndex (chunkAt address buf.length).pageBase = some index)
    (outside : ∀ i < (chunkAt address buf.length).len, other ≠ address + ofNat 64 i) :
    (m.writeChunk address buf index).byteAt other = m.byteAt other := by
  rw [byteAt, writeChunk, modifyPage_page found, byteAt]
  split
  · rename_i same
    have untouched : ¬ ((chunkAt address buf.length).offset ≤ (other - (other &&& memoryPageMask)).toNat ∧
        (other - (other &&& memoryPageMask)).toNat < (chunkAt address buf.length).offset +
          (buf.take (chunkAt address buf.length).len).length) := by
      rw [take_chunk_length]
      rintro ⟨lower, upper⟩
      have inside : (other - (other &&& memoryPageMask)).toNat - (chunkAt address buf.length).offset <
          (chunkAt address buf.length).len := by omega
      obtain ⟨base, offset⟩ := chunkAt_address inside
      refine outside _ inside (address_ext (same.trans base.symm) ?_)
      omega
    cases m.page (other &&& memoryPageMask) with
    | none => rfl
    | some => simp only [Option.map_some, MemoryPage.writeBytes, if_neg untouched]
  · rfl

end WriteChunk

theorem bytesFrom_congr {m t : MemoryImage}
    (same : ∀ i < len, t.byteAt (address + ofNat 64 i) = m.byteAt (address + ofNat 64 i)) :
    t.bytesFrom address len = m.bytesFrom address len :=
  map_congr_left fun i member => same i (mem_range.mp member)

theorem writeChunk_bytesFrom {m : MemoryImage}
    (found : m.pageLookupIndex (chunkAt address buf.length).pageBase = some index) :
    (m.writeChunk address buf index).bytesFrom address (chunkAt address buf.length).len =
      (buf.take (chunkAt address buf.length).len).map some := by
  apply List.ext_getElem?
  intro i
  rw [bytesFrom, List.getElem?_map, List.getElem?_map, List.getElem?_take]
  by_cases inside : i < (chunkAt address buf.length).len
  · have position : i < buf.length := lt_of_lt_of_le inside (chunkAt_len_le _ _)
    simp [inside, writeChunk_inside found inside, List.getElem?_eq_getElem position]
  · simp [inside]

/-- Offsets into a range shorter than the address space are told apart by their addresses. -/
theorem address_injective (left : i < 2 ^ 64) (right : j < 2 ^ 64)
    (same : address + ofNat 64 i = address + ofNat 64 j) : i = j := by
  have offsets := congrArg BitVec.toNat ((BitVec.add_right_inj _).mp same)
  rw [toNat_ofNat, toNat_ofNat] at offsets
  omega

/-- A chunked write replaces exactly the bytes of its range. -/
theorem writeChunks_bytes (enough : buf.length ≤ fuel) (short : buf.length ≤ 2 ^ 64)
    (wrote : (writeChunks fuel address buf : Exec MemoryImage ε Unit).run m = .ok () t) :
    t.bytesFrom address buf.length = buf.map some ∧
      ∀ other, (∀ i < buf.length, other ≠ address + ofNat 64 i) → t.byteAt other = m.byteAt other := by
  induction fuel generalizing m address buf with
  | zero =>
    obtain rfl : buf = [] := length_eq_zero_iff.mp (by omega)
    cases wrote
    exact ⟨rfl, fun _ _ => rfl⟩
  | succ fuel ih =>
    unfold writeChunks at wrote
    split at wrote
    · rename_i empty
      obtain rfl := isEmpty_iff.mp empty
      cases wrote
      exact ⟨rfl, fun _ _ => rfl⟩
    · rename_i nonempty
      rw [Exec.get_bind_run] at wrote
      cases found : m.pageLookupIndex (chunkAt address buf.length).pageBase with
      | none => simp only [found] at wrote; cases wrote
      | some index =>
        simp only [found] at wrote
        have left : buf.length ≠ 0 := by
          simpa using nonempty
        have shorter := chunkAt_len_pos address left
        have bounded := chunkAt_len_le address buf.length
        have dropped : (buf.drop (chunkAt address buf.length).len).length =
            buf.length - (chunkAt address buf.length).len := length_drop
        obtain ⟨rest, kept⟩ := ih (by omega) (by omega) wrote
        rw [dropped] at rest kept
        -- the rest of the range does not come back to the first chunk
        have first : t.bytesFrom address (chunkAt address buf.length).len =
            (m.writeChunk address buf index).bytesFrom address (chunkAt address buf.length).len := by
          refine bytesFrom_congr fun i inside => kept _ fun j later same => ?_
          rw [← address_add] at same
          have := address_injective (by omega) (by omega) same
          omega
        have split : buf.length =
            (chunkAt address buf.length).len + (buf.length - (chunkAt address buf.length).len) := by omega
        constructor
        · conv_lhs => rw [split]
          rw [bytesFrom_add, first, rest, writeChunk_bytesFrom found, ← map_append, take_append_drop]
        · intro other outside
          have later : ∀ i < buf.length - (chunkAt address buf.length).len,
              other ≠ address + ofNat 64 (chunkAt address buf.length).len + ofNat 64 i := by
            intro i bound
            rw [← address_add]
            exact outside _ (by omega)
          rw [kept other later]
          exact writeChunk_outside found fun i inside => outside i (by omega)

/-- The store loop finds every page the scan has found. -/
theorem writeChunks_returns
    (mapped : (m.scanUnmapped fuel address buf.length : Result δ _) = .ok none) :
    ∃ t, (writeChunks fuel address buf : Exec MemoryImage ε Unit).run m = .ok () t := by
  induction fuel generalizing m address buf with
  | zero => exact ⟨m, rfl⟩
  | succ fuel ih =>
    unfold writeChunks
    split
    · exact ⟨m, rfl⟩
    · rename_i nonempty
      have left : buf.length ≠ 0 := by
        simpa using nonempty
      unfold scanUnmapped at mapped
      rw [if_neg left] at mapped
      rw [Exec.get_bind_run]
      cases found : m.pageLookupIndex (chunkAt address buf.length).pageBase with
      | none =>
        simp only [page, found] at mapped
        cases mapped
      | some =>
        cases present : m.page (chunkAt address buf.length).pageBase with
        | none => simp only [present] at mapped; cases mapped
        | some =>
          simp only [present] at mapped
          split at mapped
          · apply ih
            rw [length_drop]
            exact (scanUnmapped_layout (writeChunk_layout m) _ _ _).trans mapped
          · split at mapped <;> cases mapped

end MemoryImage

/-! ## The interpreter's accessors -/

/-- A guest write goes through exactly if its bytes are accepted, and keeps the layout. -/
theorem writeGuestBytes_gated {m : MemoryImage} : Exec.Gated (·.layout = m.layout)
    (m.acceptsWrite address bytes.length) (writeGuestBytes address bytes) where
  passes {s} same accepts := by
    rw [← acceptsWrite_layout same] at accepts
    have scanned : (s.scanUnmapped bytes.length address bytes.length : Result GuestMemoryFault _) = .ok none := by
      obtain ⟨_, mapped⟩ := Bool.and_eq_true_iff.mp accepts
      split at mapped
      · assumption
      · contradiction
    obtain ⟨t, wrote⟩ := writeChunks_returns (ε := GuestMemoryFault) scanned
    have ran : (writeGuestBytes address bytes).run s = .ok () t := by
      rw [writeGuestBytes, Exec.mapError_run, guestWriteChecked_of_accepts accepts, wrote]
    exact ⟨(), t, ran, (writeGuestBytes_layout s t (by rw [ran]; rfl)).trans same⟩
  refused same refused _ t wrote := by
    rw [← acceptsWrite_layout same] at refused
    rw [writeGuestBytes, Exec.mapError_run] at wrote
    split at wrote
    · exact refused (accepts_of_guestWriteChecked ‹_›)
    · cases wrote
    · cases wrote

theorem writeMemoryValue_gated {m : MemoryImage} : Exec.Gated (·.layout = m.layout)
    (m.writable address width) (writeMemoryValue address value width) := by
  rcases writeMemoryValue_cases with ⟨eq, accepts⟩ | ⟨eq, refused⟩
  · rw [eq]
    exact .of_iff (by rw [accepts, toLeBytes_length]) writeGuestBytes_gated
  · rw [eq, refused]
    exact .throw Bool.false_ne_true

/-- A successful guest write replaces the bytes it covers and no others. -/
theorem writeMemoryValue_bytes (wrote : (writeMemoryValue address value width).run m = .ok () t) :
    t.bytesFrom address width = (toLeBytes width value).map some ∧
      ∀ other, (∀ i < width, other ≠ address + ofNat 64 i) → t.byteAt other = m.byteAt other := by
  have supported : width ≤ 2 ^ 64 := by
    by_contra large
    unfold writeMemoryValue at wrote
    split at wrote <;> first | omega | cases wrote
  have accepted : m.writable address width :=
    by_contra fun refused => writeMemoryValue_gated.refused rfl refused () t wrote
  rcases writeMemoryValue_cases with ⟨eq, accepts⟩ | ⟨_, refused⟩
  · rw [accepts, ← toLeBytes_length width value] at accepted
    rw [eq, writeGuestBytes, Exec.mapError_run, guestWriteChecked_of_accepts accepted] at wrote
    split at wrote
    · rename_i stored
      cases wrote
      have bytes := writeChunks_bytes le_rfl (by rw [toLeBytes_length]; exact supported) stored
      rw [toLeBytes_length] at bytes
      exact bytes
    · cases wrote
    · cases wrote
  · rw [refused] at accepted
    contradiction

/-- A read of the place just written returns the low `width` bytes of the value. -/
theorem read_after_write (readable : m.readable address width)
    (wrote : (writeMemoryValue address value width).run m = .ok () t) :
    readMemoryValue t address width = .ok ((value.setWidth (8 * width)).setWidth 64) := by
  have layout : t.layout = m.layout := writeMemoryValue_layout m t (by rw [wrote]; rfl)
  rw [← readable_layout layout] at readable
  obtain ⟨read, returned⟩ := Result.isOk_iff.mp readable
  obtain ⟨bytes, held, rfl⟩ := readMemoryValue_bytes returned
  rw [(writeMemoryValue_bytes wrote).1] at held
  have same : bytes = toLeBytes width value :=
    (map_inj_right fun _ _ => Option.some.inj).mp held
  rw [returned, same, fromLeBytes_toLeBytes, BitVec.setWidth_eq]

end Casa.Cpu
