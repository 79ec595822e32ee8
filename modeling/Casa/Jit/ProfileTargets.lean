import Casa.Jit.AotRecord
import Casa.Lib.OrderedMap
import Mathlib.Data.BitVec

/-! The persistent execution profile (jit/aot_profile.rs): hit counts of the addresses
that a run reached, in four ordered maps, and their encoding under a key. The number
of records is stored in 32 bits. -/
namespace Casa.Jit
open Effect MachineInt ByteCursor OrderedMap List Result
open BitVec (ofNat toNat_ofNat)
open Result (refuse refuse_of refuse_of_not)

structure ProfileKey where
  imageHash : String
  translator : U32
  cpuProfile : U64

/-- The rejections of the codec; the file errors are not modelled. -/
inductive ProfileError where
  | badMagic
  | unsupportedFormat (found expected : U32)
  | checksumMismatch (found expected : U64)
  | truncated (what : String)
  | trailingBytes
  | imageHashMismatch (found expected : String)
  | translatorMismatch (found expected : U32)
  | cpuProfileMismatch (found expected : U64)
  | invalidImageHash (hash : String)
  | unknownTargetKind (kind : U8)
  | tooManyRecords (count : Nat)

inductive ProfileTargetKind where
  | hotBlock
  | directCall
  | indirectCall
  | functionEntry

namespace ProfileTargetKind

def all : List ProfileTargetKind := [hotBlock, directCall, indirectCall, functionEntry]

def code : ProfileTargetKind → U8
  | hotBlock => 0
  | directCall => 1
  | indirectCall => 2
  | functionEntry => 3

def fromCode (code : U8) : Result ProfileError ProfileTargetKind :=
  match code.toNat with
  | 0 => .ok hotBlock
  | 1 => .ok directCall
  | 2 => .ok indirectCall
  | 3 => .ok functionEntry
  | _ => .error (.unknownTargetKind code)

theorem fromCode_code (kind : ProfileTargetKind) : fromCode kind.code = .ok kind := by
  cases kind <;> rfl

end ProfileTargetKind

/-- Hits by address, in ascending order of the addresses. -/
@[ext] structure HitMap where
  entries : List (U64 × U64)
  ascending : Ascending entries

namespace HitMap

def empty : HitMap := ⟨[], List.Pairwise.nil⟩

/-- One observation more: hits accumulate and stop at the largest count. -/
def add (hits : HitMap) (address more : U64) : HitMap where
  entries := insert address (saturatingAdd ((hits.entries.lookup address).getD 0) more) hits.entries
  ascending := insert_ascending hits.ascending

end HitMap

structure ProfileTargets where
  hotBlocks : HitMap
  directCalls : HitMap
  indirectCalls : HitMap
  functionEntries : HitMap

/-- One line of the encoding. -/
structure ProfileRecord where
  kind : ProfileTargetKind
  address : U64
  hits : U64

namespace ProfileTargets

def default : ProfileTargets := ⟨.empty, .empty, .empty, .empty⟩

def map (t : ProfileTargets) : ProfileTargetKind → HitMap
  | .hotBlock => t.hotBlocks
  | .directCall => t.directCalls
  | .indirectCall => t.indirectCalls
  | .functionEntry => t.functionEntries

def mapMut (t : ProfileTargets) (kind : ProfileTargetKind) (update : HitMap → HitMap) :
    ProfileTargets :=
  match kind with
  | .hotBlock => { t with hotBlocks := update t.hotBlocks }
  | .directCall => { t with directCalls := update t.directCalls }
  | .indirectCall => { t with indirectCalls := update t.indirectCalls }
  | .functionEntry => { t with functionEntries := update t.functionEntries }

def record (t : ProfileTargets) (kind : ProfileTargetKind) (address hits : U64) : ProfileTargets :=
  t.mapMut kind fun map => map.add address hits

def recordCount (t : ProfileTargets) : Nat :=
  (ProfileTargetKind.all.map fun kind => (t.map kind).entries.length).sum

/-- The records in the order in which they are written. -/
def records (t : ProfileTargets) : List ProfileRecord :=
  ProfileTargetKind.all.flatMap fun kind => (t.map kind).entries.map fun entry =>
    ⟨kind, entry.1, entry.2⟩

end ProfileTargets

/-! ## The format -/

def profileFormatVersion : U32 := 1
def maxImageHashLen : Nat := 255
def headerFixed : Nat := 8 + 4 + 4 + 8 + 2 + 4
def recordSize : Nat := 1 + 8 + 8
def checksumSize : Nat := 8

def isAsciiAlphanumeric (byte : U8) : Bool :=
  (0x30 ≤ byte && byte ≤ 0x39) || (0x41 ≤ byte && byte ≤ 0x5a) || (0x61 ≤ byte && byte ≤ 0x7a)

/-- Letters, digits, `-`, `_` and `.`. -/
def imageHashByte (byte : U8) : Bool :=
  isAsciiAlphanumeric byte || byte == 0x2d || byte == 0x5f || byte == 0x2e

def imageHashValid (imageHash : String) : Bool :=
  !((utf8Bytes imageHash).isEmpty || maxImageHashLen < (utf8Bytes imageHash).length ||
    (utf8Bytes imageHash).any fun byte => !imageHashByte byte)

def validateImageHash (imageHash : String) : Result ProfileError Unit :=
  refuse (imageHashValid imageHash = false) (.invalidImageHash imageHash)

namespace ProfileTargets

/-- `C1PROF` and two zero bytes. -/
def magic : List U8 := [0x43, 0x31, 0x50, 0x52, 0x4f, 0x46, 0, 0]

def encodeRecord (record : ProfileRecord) : List U8 :=
  [record.kind.code] ++ (toLeBytes 8 record.address ++ toLeBytes 8 record.hits)

def encodeHeader (t : ProfileTargets) (key : ProfileKey) : List U8 :=
  toLeBytes 4 profileFormatVersion ++ (toLeBytes 4 key.translator ++ (toLeBytes 8 key.cpuProfile ++
  (toLeBytes 2 (ofNat 16 (utf8Bytes key.imageHash).length) ++ (utf8Bytes key.imageHash ++
  toLeBytes 4 (ofNat 32 t.recordCount)))))

def payload (t : ProfileTargets) (key : ProfileKey) : List U8 :=
  magic ++ (encodeHeader t key ++ t.records.flatMap encodeRecord)

def encode (t : ProfileTargets) (key : ProfileKey) : Result ProfileError (List U8) := do
  validateImageHash key.imageHash
  pure (payload t key ++ toLeBytes 8 (fnv1a (payload t key)))

def readU8 : Reader ProfileError U8 := Reader.byte (.truncated "record")
def readU16 : Reader ProfileError U16 := Reader.number 16 2 (.truncated "u16")
def readU32 : Reader ProfileError U32 := Reader.number 32 4 (.truncated "u32")
def readU64 : Reader ProfileError U64 := Reader.number 64 8 (.truncated "u64")

def decodeRecord : Reader ProfileError ProfileRecord := do
  let code ← readU8
  let kind ← Reader.lift (ProfileTargetKind.fromCode code)
  let address ← readU64
  let hits ← readU64
  pure ⟨kind, address, hits⟩

/-- The key and the records behind the magic, in the order of the fields. -/
def decodeFields (payloadEnd : Nat) : Reader ProfileError (ProfileKey × List ProfileRecord) := do
  let format ← readU32
  let _ ← Reader.lift
    (refuse (format ≠ profileFormatVersion) (.unsupportedFormat format profileFormatVersion))
  let translator ← readU32
  let cpuProfile ← readU64
  let hashLen ← readU16
  let _ ← Reader.lift (refuse (hashLen.toNat = 0 ∨ maxImageHashLen < hashLen.toNat) (.truncated "image hash"))
  let _ ← Reader.room hashLen.toNat (.truncated "image hash")
  let hashBytes ← Reader.take hashLen.toNat (.truncated "image hash")
  let imageHash ← Reader.lift (Result.require (fromUtf8 hashBytes) (.invalidImageHash "non-UTF-8"))
  let count ← readU32
  let cursor ← Reader.room (count.toNat * recordSize) (.tooManyRecords count.toNat)
  let _ ← Reader.lift (refuse (payloadEnd < cursor + count.toNat * recordSize) (.truncated "records"))
  let records ← Reader.times count.toNat decodeRecord
  pure (⟨imageHash, translator, cpuProfile⟩, records)

/-- The readers see the payload only. The loop that reads a record and counts it is split:
all records are read and then counted in their order. -/
def decode (bytes : List U8) (expected : ProfileKey) : Result ProfileError ProfileTargets := do
  refuse (bytes.length < headerFixed + checksumSize) (.truncated "header")
  refuse (bytes.take 8 ≠ magic) .badMagic
  let payloadEnd := bytes.length - checksumSize
  let stored := fromLeBytes 64 (bytes.drop payloadEnd)
  let actual := fnv1a (bytes.take payloadEnd)
  refuse (actual ≠ stored) (.checksumMismatch actual stored)
  let ((key, records), cursor) ← (decodeFields payloadEnd).run (bytes.take payloadEnd) 8
  let targets :=
    records.foldl (fun t record => t.record record.kind record.address record.hits) default
  refuse (cursor ≠ payloadEnd) .trailingBytes
  refuse (key.imageHash ≠ expected.imageHash) (.imageHashMismatch key.imageHash expected.imageHash)
  refuse (key.translator ≠ expected.translator)
    (.translatorMismatch key.translator expected.translator)
  refuse (key.cpuProfile ≠ expected.cpuProfile)
    (.cpuProfileMismatch key.cpuProfile expected.cpuProfile)
  pure targets

/-! ## Records and maps -/

theorem records_length (t : ProfileTargets) : t.records.length = t.recordCount := by
  simp [records, recordCount]

theorem zero_saturatingAdd (hits : U64) : saturatingAdd 0 hits = hits := by
  have small : (0 : U64).toNat + hits.toNat < 2 ^ 64 := by
    simpa using hits.isLt
  rw [saturatingAdd, if_pos small]
  exact BitVec.zero_add hits

/-- Entries behind the ones that are there come in one after the other. -/
theorem foldl_add (hits : HitMap) (ascending : Ascending (hits.entries ++ rest)) :
    rest.foldl (fun hits entry => hits.add entry.1 entry.2) hits =
      ⟨hits.entries ++ rest, ascending⟩ := by
  induction rest generalizing hits with
  | nil => exact HitMap.ext (append_nil _).symm
  | cons entry rest ih =>
    have after (earlier : U64 × U64) (member : earlier ∈ hits.entries) : earlier.1 < entry.1 :=
      (pairwise_append.mp ascending).2.2 earlier member entry mem_cons_self
    have appended : (hits.add entry.1 entry.2).entries = hits.entries ++ [entry] := by
      have inserted : (hits.add entry.1 entry.2).entries =
        insert entry.1 (saturatingAdd ((hits.entries.lookup entry.1).getD 0) entry.2) hits.entries := rfl
      rw [inserted, insert_last after, lookup_last after, Option.getD_none, zero_saturatingAdd]
    have shifted : hits.entries ++ entry :: rest = (hits.add entry.1 entry.2).entries ++ rest := by
      rw [appended, append_assoc, singleton_append]
    rw [foldl_cons, ih _ (shifted ▸ ascending)]
    exact HitMap.ext shifted.symm

theorem foldl_record (t : ProfileTargets) (entries : List (U64 × U64)) :
    (entries.map fun entry => (⟨kind, entry.1, entry.2⟩ : ProfileRecord)).foldl
        (fun t record => t.record record.kind record.address record.hits) t =
      t.mapMut kind fun hits => entries.foldl (fun hits entry => hits.add entry.1 entry.2) hits := by
  rw [foldl_map]
  induction entries generalizing t with
  | nil => cases kind <;> rfl
  | cons entry entries ih =>
    rw [foldl_cons, ih]
    cases kind <;> rfl

theorem foldl_empty (hits : HitMap) :
    hits.entries.foldl (fun hits entry => hits.add entry.1 entry.2) .empty = hits :=
  foldl_add .empty hits.ascending

theorem foldl_records (t : ProfileTargets) :
    t.records.foldl (fun t record => t.record record.kind record.address record.hits) default = t := by
  simp [records, ProfileTargetKind.all, foldl_record, mapMut, default, map, foldl_empty]

/-! ## Round trip -/

theorem record_reads (record : ProfileRecord) :
    Reads bytes decodeRecord cursor (encodeRecord record) record := by
  refine .bind (.byte _ record.kind.code) (.bind_nil (.lift record.kind.fromCode_code) ?_)
  exact .bind (.number _ record.address rfl) (.map (.number _ record.hits rfl))

theorem encodeRecords_length (records : List ProfileRecord) :
    (records.flatMap encodeRecord).length = records.length * recordSize := by
  have each (record : ProfileRecord) : (encodeRecord record).length = recordSize := by
    simp only [encodeRecord, length_append, length_singleton, toLeBytes_length, recordSize]
  simp [each]

/-- The records that the stored count covers. -/
def counted (t : ProfileTargets) : List ProfileRecord := t.records.take (t.recordCount % 2 ^ 32)

theorem counted_length (t : ProfileTargets) : (counted t).length = t.recordCount % 2 ^ 32 := by
  rw [counted, length_take, records_length, Nat.min_eq_left (Nat.mod_le _ _)]

theorem counted_of_fits (fits : t.recordCount < 2 ^ 32) : counted t = t.records := by
  rw [counted, Nat.mod_eq_of_lt fits, ← records_length, take_length]

section
variable {key : ProfileKey}

variable (valid : imageHashValid key.imageHash = true)
include valid

theorem imageHash_length :
    0 < (utf8Bytes key.imageHash).length ∧ (utf8Bytes key.imageHash).length ≤ maxImageHashLen := by
  simp only [imageHashValid, Bool.not_eq_true', Bool.or_eq_false_iff, decide_eq_false_iff_not,
    isEmpty_eq_false_iff_exists_mem] at valid
  obtain ⟨⟨⟨byte, member⟩, short⟩, -⟩ := valid
  exact ⟨length_pos_of_mem member, Nat.le_of_not_lt short⟩

theorem fields_read
    (room : 8 + (encodeHeader t key).length + (counted t).length * recordSize ≤ payloadEnd) :
    Reads bytes (decodeFields payloadEnd) 8 (encodeHeader t key ++ (counted t).flatMap encodeRecord)
      (key, counted t) := by
  obtain ⟨nonempty, short⟩ := imageHash_length valid
  rw [maxImageHashLen] at short
  have hashLength :
      (utf8Bytes key.imageHash).length = (ofNat 16 (utf8Bytes key.imageHash).length).toNat := by
    rw [toNat_ofNat, Nat.mod_eq_of_lt (by omega)]
  have count : (ofNat 32 t.recordCount).toNat = (counted t).length := by
    rw [toNat_ofNat, counted_length]
  simp only [encodeHeader, append_assoc]
  refine .bind (.number _ profileFormatVersion rfl) (.bind_nil (.refuse (not_not_intro rfl)) ?_)
  refine .bind (.number _ key.translator rfl) (.bind (.number _ key.cpuProfile rfl) ?_)
  refine .bind (.number _ _ rfl) (.bind_nil (.refuse ?_) (.bind_nil (.room ?_) ?_))
  · rw [maxImageHashLen]
    omega
  · simp only [toLeBytes_length]
    omega
  refine .bind (.take hashLength) (.bind_nil (.require fromUtf8_utf8Bytes) ?_)
  refine .bind (.number _ _ rfl) (.bind_nil (.room ?_) (.bind_nil (.refuse ?_) ?_))
  · simp only [toLeBytes_length, recordSize]
    omega
  · simp only [encodeHeader, length_append, recordSize] at room ⊢
    omega
  rw [count]
  exact .map (.times fun record _ _ => record_reads record)

omit valid in
theorem payload_length (t : ProfileTargets) (key : ProfileKey) :
    (payload t key).length = 8 + (encodeHeader t key).length + t.recordCount * recordSize := by
  simp only [payload, length_append, encodeRecords_length, records_length, magic, length_cons,
    length_nil]
  omega

theorem fields_run :
    (decodeFields (payload t key).length).run (payload t key) 8 =
      .ok ((key, counted t), 8 + (encodeHeader t key).length + (counted t).length * recordSize) := by
  have fewer : (counted t).length * recordSize ≤ t.recordCount * recordSize :=
    Nat.mul_le_mul_right _ (counted_length t ▸ Nat.mod_le _ _)
  have whole := payload_length t key
  have stands : At (payload t key) 8 (encodeHeader t key ++ (counted t).flatMap encodeRecord) := by
    refine ⟨magic, (t.records.drop (t.recordCount % 2 ^ 32)).flatMap encodeRecord, ?_, rfl⟩
    rw [append_assoc, ← flatMap_append, counted, take_append_drop]
    rfl
  have read := fields_read valid (by omega : _ ≤ (payload t key).length) stands
  rwa [length_append, encodeRecords_length, ← Nat.add_assoc] at read

omit valid in
theorem encode_eq_ok : encode t key = .ok bytes ↔
    imageHashValid key.imageHash ∧
      bytes = payload t key ++ toLeBytes 8 (fnv1a (payload t key)) := by
  simp only [encode, validateImageHash, bind_eq_ok, refuse_eq_ok, pure_eq, ok.injEq,
    Bool.not_eq_false, exists_const]
  rw [eq_comm (b := bytes)]

/-- Only the checks behind the records can still fail. -/
theorem decode_payload (expected : ProfileKey) :
    decode (payload t key ++ toLeBytes 8 (fnv1a (payload t key))) expected = (do
      refuse (¬ t.recordCount < 2 ^ 32) .trailingBytes
      refuse (key.imageHash ≠ expected.imageHash) (.imageHashMismatch key.imageHash expected.imageHash)
      refuse (key.translator ≠ expected.translator) (.translatorMismatch key.translator expected.translator)
      refuse (key.cpuProfile ≠ expected.cpuProfile) (.cpuProfileMismatch key.cpuProfile expected.cpuProfile)
      pure t) := by
  have whole := payload_length t key
  have encoded : (payload t key ++ toLeBytes 8 (fnv1a (payload t key))).length =
      (payload t key).length + 8 := by
    rw [length_append, toLeBytes_length]
  have payloadEnd : (payload t key).length + 8 - checksumSize = (payload t key).length := by
    rw [checksumSize, Nat.add_sub_cancel]
  have long : ¬ (payload t key).length + 8 < headerFixed + checksumSize := by
    simp only [whole, encodeHeader, length_append, toLeBytes_length, headerFixed]
    omega
  have start : ¬ (payload t key ++ toLeBytes 8 (fnv1a (payload t key))).take 8 ≠ magic := by
    nth_rewrite 1 [payload]
    rw [append_assoc]
    exact not_not_intro (take_left' rfl)
  have checksum :
      ¬ fnv1a (payload t key) ≠ fromLeBytes 64 (toLeBytes 8 (fnv1a (payload t key))) := by
    rw [fromLeBytes_toLeBytes, BitVec.setWidth_eq, BitVec.setWidth_eq]
    exact not_not_intro rfl
  rw [decode]
  simp only [encoded, payloadEnd, take_left, drop_left, refuse, if_neg long, if_neg start,
    if_neg checksum, ok_bind, fields_run valid, counted_length]
  by_cases fits : t.recordCount < 2 ^ 32
  · have ends : ¬ 8 + (encodeHeader t key).length + t.recordCount % 2 ^ 32 * recordSize ≠ (payload t key).length := by
      rw [whole, Nat.mod_eq_of_lt fits]
      exact not_not_intro rfl
    rw [if_neg ends, if_neg (not_not_intro fits), counted_of_fits fits, foldl_records]
  · have stops : 8 + (encodeHeader t key).length + t.recordCount % 2 ^ 32 * recordSize ≠ (payload t key).length := by
      rw [whole, recordSize]
      omega
    rw [if_pos stops, if_pos fits, error_bind, error_bind]

end

/-- Hot blocks at the lowest `n` addresses. -/
def hotBlocksBelow (n : Nat) (small : n ≤ 2 ^ 64) : ProfileTargets where
  hotBlocks :=
    { entries := (List.range n).map fun index => (ofNat 64 index, 1)
      ascending := by
        refine List.pairwise_map.mpr (List.pairwise_lt_range.imp_of_mem fun {first second} left right before => ?_)
        have below := List.mem_range.mp right
        rw [BitVec.lt_def, toNat_ofNat, toNat_ofNat, Nat.mod_eq_of_lt (by omega),
          Nat.mod_eq_of_lt (by omega)]
        exact before }
  directCalls := .empty
  indirectCalls := .empty
  functionEntries := .empty

theorem hotBlocksBelow_count : (hotBlocksBelow n small).recordCount = n := by
  simp only [recordCount, ProfileTargetKind.all, map_cons, map_nil, map, hotBlocksBelow,
    HitMap.empty, length_map, length_range, length_nil, sum_cons, sum_nil, Nat.add_zero]

/-- With as many hot blocks as 32 bits can number, the stored count is zero. -/
theorem decode_encode_crowded : ∃ bytes, encode (hotBlocksBelow (2 ^ 32) (by decide)) ⟨"a", 6, 0⟩ = .ok bytes ∧
    decode bytes ⟨"a", 6, 0⟩ = .error .trailingBytes := by
  have valid : imageHashValid "a" = true := by decide
  refine ⟨_, encode_eq_ok.mpr ⟨valid, rfl⟩, ?_⟩
  rw [decode_payload valid, refuse_of]
  rw [hotBlocksBelow_count]
  exact Nat.lt_irrefl _

/-- What is encoded under a key comes back under that key and no other, if and only if the
number of records fits the 32 bits it is stored in. -/
theorem decode_encode_profile_iff (t : ProfileTargets) (key expected : ProfileKey) :
    (∀ bytes, encode t key = .ok bytes →
      (key = expected → decode bytes expected = .ok t) ∧
      (key ≠ expected → ∃ reason, decode bytes expected = .error reason)) ↔
    (imageHashValid key.imageHash = true → key = expected → t.recordCount < 2 ^ 32) := by
  constructor
  · rintro holds valid rfl
    by_contra large
    have returned := (holds _ (encode_eq_ok.mpr ⟨valid, rfl⟩)).1 rfl
    rw [decode_payload valid, refuse_of large] at returned
    cases returned
  · intro fits bytes encoded
    obtain ⟨valid, rfl⟩ := encode_eq_ok.mp encoded
    rw [decode_payload valid]
    refine ⟨?_, fun differ => ?_⟩
    · rintro rfl
      rw [refuse_of_not (not_not_intro (fits valid rfl)), refuse_of_not (not_not_intro rfl),
        refuse_of_not (not_not_intro rfl), refuse_of_not (not_not_intro rfl), Result.pure_eq]
    · by_cases large : ¬ t.recordCount < 2 ^ 32
      · exact ⟨_, refuse_of large _⟩
      rw [refuse_of_not large]
      by_cases hash : key.imageHash ≠ expected.imageHash
      · exact ⟨_, refuse_of hash _⟩
      rw [refuse_of_not hash]
      by_cases translator : key.translator ≠ expected.translator
      · exact ⟨_, refuse_of translator _⟩
      rw [refuse_of_not translator]
      have profile : key.cpuProfile ≠ expected.cpuProfile := by
        intro same
        obtain ⟨imageHash, version, cpuProfile⟩ := key
        obtain ⟨imageHash', version', cpuProfile'⟩ := expected
        refine differ ?_
        rw [ProfileKey.mk.injEq]
        exact ⟨not_not.mp hash, not_not.mp translator, same⟩
      exact ⟨_, refuse_of profile _⟩

end ProfileTargets

end Casa.Jit
