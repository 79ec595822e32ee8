import Casa.Cpu.Flags
import Casa.Lib.ByteCursor

/-! Records of the persistent translation cache (jit/aot.rs): the byte format of one
translated block and the reader that takes it back. The number of relocations is
stored in 32 bits, whatever the length of the list. -/
namespace Casa.Jit
open Casa.Cpu Effect MachineInt ByteCursor List Nat
open Result (require refuse ok_bind)

/-- Helper functions whose address is embedded in translated code. -/
inductive AotHelper where
  | load
  | store
  | executeInsn
  | segmentBase
  | setFlags
  | materializeFlags
  | lockXadd
  | shift

namespace AotHelper

def code : AotHelper → U32
  | load => 1
  | store => 2
  | executeInsn => 3
  | segmentBase => 4
  | setFlags => 5
  | materializeFlags => 6
  | lockXadd => 7
  | shift => 8

def fromCode (code : U32) : Option AotHelper :=
  match code.toNat with
  | 1 => some load
  | 2 => some store
  | 3 => some executeInsn
  | 4 => some segmentBase
  | 5 => some setFlags
  | 6 => some materializeFlags
  | 7 => some lockXadd
  | 8 => some shift
  | _ => none

end AotHelper

inductive AotRelocKind where
  | safepointFlag
  | codeEpoch
  | jumpLink
  | takenLink
  | fallthroughLink
  | callLink
  | returnEntryLink
  | helper (helper : AotHelper)

namespace AotRelocKind

def code : AotRelocKind → U32
  | safepointFlag => 0
  | codeEpoch => 1
  | jumpLink => 2
  | takenLink => 3
  | fallthroughLink => 4
  | callLink => 5
  | returnEntryLink => 6
  | helper h => 0x100 + h.code

def fromCode (code : U32) : Option AotRelocKind :=
  match code.toNat with
  | 0 => some safepointFlag
  | 1 => some codeEpoch
  | 2 => some jumpLink
  | 3 => some takenLink
  | 4 => some fallthroughLink
  | 5 => some callLink
  | 6 => some returnEntryLink
  | _ => if code.toNat < 0x100 then none else (AotHelper.fromCode (code - 0x100)).map helper

theorem fromCode_code (kind : AotRelocKind) : fromCode kind.code = some kind := by
  cases kind with
  | helper h => cases h <;> rfl
  | _ => rfl

end AotRelocKind

structure AotRelocation where
  offset : U32
  kind : AotRelocKind

/-- How the last instruction of a block leaves it. -/
inductive BlockExitInfo where
  | jump (target : U64)
  | jumpIf (condition : ConditionCode) (target fallthrough : U64)
  | return (stackAdjust : U64)
  | call (target returnAddress : U64)
  | callIndirect (returnAddress : U64)

def fnv1a (bytes : List U8) : U64 :=
  bytes.foldl (fun hash byte => (hash ^^^ byte.setWidth 64) * 0x100000001b3) 0xcbf29ce484222325

/-! ## Exit information -/

def conditionCodeTag : ConditionCode → U8
  | .equal => 0
  | .notEqual => 1
  | .overflow => 2
  | .notOverflow => 3
  | .below => 4
  | .notBelow => 5
  | .above => 6
  | .notAbove => 7
  | .sign => 8
  | .notSign => 9
  | .less => 10
  | .greaterEqual => 11
  | .lessEqual => 12
  | .greater => 13
  | .parity => 14
  | .notParity => 15

def conditionFromTag (tag : U8) : Option ConditionCode :=
  match tag.toNat with
  | 0 => some .equal
  | 1 => some .notEqual
  | 2 => some .overflow
  | 3 => some .notOverflow
  | 4 => some .below
  | 5 => some .notBelow
  | 6 => some .above
  | 7 => some .notAbove
  | 8 => some .sign
  | 9 => some .notSign
  | 10 => some .less
  | 11 => some .greaterEqual
  | 12 => some .lessEqual
  | 13 => some .greater
  | 14 => some .parity
  | 15 => some .notParity
  | _ => none

theorem conditionFromTag_tag : conditionFromTag (conditionCodeTag condition) = some condition := by
  cases condition <;> rfl

def encodeExitInfo : Option BlockExitInfo → List U8
  | none => [0]
  | some (.jump target) => [1] ++ toLeBytes 8 target
  | some (.jumpIf condition target fallthrough) =>
      [2] ++ ([conditionCodeTag condition] ++ (toLeBytes 8 target ++ toLeBytes 8 fallthrough))
  | some (.return stackAdjust) => [3] ++ toLeBytes 8 stackAdjust
  | some (.call target returnAddress) => [4] ++ (toLeBytes 8 target ++ toLeBytes 8 returnAddress)
  | some (.callIndirect returnAddress) => [5] ++ toLeBytes 8 returnAddress

def exitValue : Reader String U64 := Reader.number 64 8 "truncated exit info value"

def decodeExitInfo : Reader String (Option BlockExitInfo) := do
  let tag ← Reader.byte "truncated exit info"
  match tag.toNat with
  | 0 => pure none
  | 1 => do
    let target ← exitValue
    pure (some (.jump target))
  | 2 => do
    let tag ← Reader.byte "truncated condition"
    let condition ← Reader.lift (require (conditionFromTag tag) "unknown condition")
    let target ← exitValue
    let fallthrough ← exitValue
    pure (some (.jumpIf condition target fallthrough))
  | 3 => do
    let stackAdjust ← exitValue
    pure (some (.return stackAdjust))
  | 4 => do
    let target ← exitValue
    let returnAddress ← exitValue
    pure (some (.call target returnAddress))
  | 5 => do
    let returnAddress ← exitValue
    pure (some (.callIndirect returnAddress))
  | _ => Reader.lift (.error "unknown exit info tag")

/-! ## Records -/

structure AotRecord where
  format : U32
  translator : U32
  machine : U64
  cpuProfile : U64
  imageHash : String
  optimizationProfile : U32
  guestAddress : U64
  codeHash : U64
  logicalCodeHash : U64
  instructionCount : U64
  codeSize : U32
  workerSafe : Bool
  exitInfo : Option BlockExitInfo
  code : List U8
  relocations : List AotRelocation

namespace AotRecord

/-- `C1AOTC` and two zero bytes. -/
def magic : List U8 := [0x43, 0x31, 0x41, 0x4f, 0x54, 0x43, 0, 0]

def encodeRelocation (relocation : AotRelocation) : List U8 :=
  toLeBytes 4 relocation.offset ++ toLeBytes 4 relocation.kind.code

/-- The fields between the magic and the relocations. -/
def encodeFields (r : AotRecord) : List U8 :=
  toLeBytes 4 r.format ++
    (toLeBytes 4 r.translator ++ (toLeBytes 8 r.machine ++ (toLeBytes 8 r.cpuProfile ++
  (toLeBytes 2 (BitVec.ofNat 16 (utf8Bytes r.imageHash).length) ++ (utf8Bytes r.imageHash ++
  (toLeBytes 4 r.optimizationProfile ++ (toLeBytes 8 r.guestAddress ++ (toLeBytes 8 r.codeHash ++
  (toLeBytes 8 r.logicalCodeHash ++ (toLeBytes 8 r.instructionCount ++ (toLeBytes 4 r.codeSize ++
  ([if r.workerSafe then 1 else 0] ++ (encodeExitInfo r.exitInfo ++
  (toLeBytes 4 (BitVec.ofNat 32 r.relocations.length) ++ r.code))))))))))))))

def payload (r : AotRecord) : List U8 :=
  magic ++ (encodeFields r ++ r.relocations.flatMap encodeRelocation)

def encode (r : AotRecord) : List U8 := payload r ++ toLeBytes 8 (fnv1a (payload r))

def readU16 : Reader String U16 := Reader.number 16 2 "truncated u16"
def readU32 : Reader String U32 := Reader.number 32 4 "truncated u32"
def readU64 : Reader String U64 := Reader.number 64 8 "truncated u64"

def decodeRelocation : Reader String AotRelocation := do
  let offset ← readU32
  let code ← readU32
  let kind ← Reader.lift (require (AotRelocKind.fromCode code) "unknown reloc")
  pure ⟨offset, kind⟩

/-- Everything behind the magic, in the order of the fields. -/
def decodeFields (payloadEnd : Nat) : Reader String AotRecord := do
  let format ← readU32
  let translator ← readU32
  let machine ← readU64
  let cpuProfile ← readU64
  let imageHashLen ← readU16
  let _ ← Reader.room imageHashLen.toNat "image hash overflow"
  let imageHashBytes ← Reader.take imageHashLen.toNat "truncated image hash"
  let imageHash ← Reader.lift (require (fromUtf8 imageHashBytes) "invalid image hash encoding")
  let optimizationProfile ← readU32
  let guestAddress ← readU64
  let codeHash ← readU64
  let logicalCodeHash ← readU64
  let instructionCount ← readU64
  let codeSize ← readU32
  let flag ← Reader.byte "truncated flag"
  let exitInfo ← decodeExitInfo
  let relocationCount ← readU32
  let _ ← Reader.room codeSize.toNat "code size overflow"
  let code ← Reader.take codeSize.toNat "truncated code"
  let cursor ← Reader.room (relocationCount.toNat * 8) "relocation overflow"
  let _ ← Reader.lift (refuse (payloadEnd < cursor + relocationCount.toNat * 8) "truncated relocation table")
  let relocations ← Reader.times relocationCount.toNat decodeRelocation
  pure { format, translator, machine, cpuProfile, imageHash, optimizationProfile, guestAddress,
         codeHash, logicalCodeHash, instructionCount, codeSize,
         workerSafe := decide (flag ≠ 0), exitInfo, code, relocations }

def decode (bytes : List U8) : Result String AotRecord := do
  refuse (bytes.length < 8 + 4 * 10 + 1 + 2 + 1 + 4 + 8) "truncated record header"
  refuse (bytes.take 8 ≠ magic) "bad magic"
  let payloadEnd := bytes.length - 8
  refuse (fnv1a (bytes.take payloadEnd) ≠ fromLeBytes 64 (bytes.drop payloadEnd)) "checksum mismatch"
  let (record, cursor) ← (decodeFields payloadEnd).run bytes 8
  refuse (cursor ≠ payloadEnd) "trailing bytes"
  pure record

/-! ## Round trip -/

theorem exitInfo_reads : Reads bytes decodeExitInfo cursor (encodeExitInfo info) info := by
  rcases info with - | (target | ⟨condition, target, fallthrough⟩ | stackAdjust | ⟨target, returnAddress⟩ |
    returnAddress)
  case none => exact .bind (.byte _ 0) (.pure none)
  case some.jump => exact .bind (.byte _ 1) (.map (.number _ target rfl))
  case some.jumpIf =>
    refine .bind (.byte _ 2) (.bind (.byte _ (conditionCodeTag condition)) ?_)
    refine .bind_nil (.require conditionFromTag_tag) ?_
    exact .bind (.number _ target rfl) (.map (.number _ fallthrough rfl))
  case some.return => exact .bind (.byte _ 3) (.map (.number _ stackAdjust rfl))
  case some.call =>
    exact .bind (.byte _ 4) (.bind (.number _ target rfl) (.map (.number _ returnAddress rfl)))
  case some.callIndirect => exact .bind (.byte _ 5) (.map (.number _ returnAddress rfl))

theorem relocation_reads :
    Reads bytes decodeRelocation cursor (encodeRelocation relocation) relocation := by
  refine .bind (.number _ relocation.offset rfl) (.bind (.number _ relocation.kind.code rfl) ?_)
  exact .bind_nil (.require relocation.kind.fromCode_code) (.pure relocation)

theorem encodeRelocation_length : (encodeRelocation relocation).length = 8 := by
  simp [encodeRelocation, toLeBytes_length]

theorem encodeRelocations_length (relocations : List AotRelocation) :
    (relocations.flatMap encodeRelocation).length = relocations.length * 8 := by
  simp [encodeRelocation_length, map_const']

/-- The relocations that the stored count covers. -/
def counted (r : AotRecord) : List AotRelocation :=
  r.relocations.take (r.relocations.length % 2 ^ 32)

theorem exitInfo_length (info : Option BlockExitInfo) : (encodeExitInfo info).length ≤ 18 := by
  rcases info with - | (target | ⟨condition, target, fallthrough⟩ | stackAdjust | ⟨target, returnAddress⟩ |
    returnAddress) <;>
    simp only [encodeExitInfo, length_append, length_singleton, toLeBytes_length] <;> decide

theorem fields_read (sized : r.code.length = r.codeSize.toNat)
    (short : (utf8Bytes r.imageHash).length < 65536)
    (room : 8 + (encodeFields r).length + (counted r).length * 8 ≤ payloadEnd) :
    Reads bytes (decodeFields payloadEnd) 8 (encodeFields r ++ (counted r).flatMap encodeRelocation)
      { r with relocations := counted r } := by
  have hashLength :
      (utf8Bytes r.imageHash).length = (BitVec.ofNat 16 (utf8Bytes r.imageHash).length).toNat := by
    rw [BitVec.toNat_ofNat, mod_eq_of_lt short]
  have count : (BitVec.ofNat 32 r.relocations.length).toNat = (counted r).length := by
    rw [BitVec.toNat_ofNat, counted, length_take, min_eq_left (mod_le _ _)]
  have flag : decide ((if r.workerSafe then 1 else 0 : U8) ≠ 0) = r.workerSafe := by
    cases r.workerSafe <;> rfl
  have exitLength := exitInfo_length r.exitInfo
  simp only [encodeFields, append_assoc]
  refine .bind (.number _ r.format rfl) (.bind (.number _ r.translator rfl) ?_)
  refine .bind (.number _ r.machine rfl) (.bind (.number _ r.cpuProfile rfl) ?_)
  refine .bind (.number _ _ rfl) (.bind_nil (.room ?_) ?_)
  · simp only [toLeBytes_length]
    omega
  refine .bind (.take hashLength) (.bind_nil (.require fromUtf8_utf8Bytes) ?_)
  refine .bind (.number _ r.optimizationProfile rfl) (.bind (.number _ r.guestAddress rfl) ?_)
  refine .bind (.number _ r.codeHash rfl) (.bind (.number _ r.logicalCodeHash rfl) ?_)
  refine .bind (.number _ r.instructionCount rfl) (.bind (.number _ r.codeSize rfl) ?_)
  refine .bind (.byte _ _) (.bind exitInfo_reads ?_)
  refine .bind (.number _ _ rfl) (.bind_nil (.room ?_) ?_)
  · simp only [toLeBytes_length, length_singleton]
    omega
  refine .bind (.take sized) (.bind_nil (.room ?_) ?_)
  · simp only [toLeBytes_length, length_singleton]
    omega
  refine .bind_nil (.refuse ?_) ?_
  · simp only [encodeFields, length_append] at room ⊢
    omega
  rw [count, flag]
  exact .map (.times fun relocation _ _ => relocation_reads)

theorem payload_length (r : AotRecord) :
    (payload r).length = 8 + (encodeFields r).length + r.relocations.length * 8 := by
  simp only [payload, length_append, encodeRelocations_length, magic, length_cons, length_nil]
  omega

theorem encode_length (r : AotRecord) : (encode r).length = (payload r).length + 8 := by
  rw [encode, length_append, toLeBytes_length]

theorem counted_length (r : AotRecord) : (counted r).length = r.relocations.length % 2 ^ 32 := by
  rw [counted, length_take, min_eq_left (mod_le _ _)]

theorem counted_of_fits (fits : r.relocations.length < 2 ^ 32) : counted r = r.relocations := by
  rw [counted, mod_eq_of_lt fits, take_length]

/-- The fields end before the relocations that the count leaves out. -/
theorem fields_run (sized : r.code.length = r.codeSize.toNat)
    (short : (utf8Bytes r.imageHash).length < 65536) :
    (decodeFields (payload r).length).run (encode r) 8 =
      .ok ({ r with relocations := counted r }, 8 + (encodeFields r).length + (counted r).length * 8) := by
  have fewer : (counted r).length ≤ r.relocations.length := counted_length r ▸ mod_le _ _
  have whole := payload_length r
  have stands : At (encode r) 8 (encodeFields r ++ (counted r).flatMap encodeRelocation) := by
    refine ⟨magic, (r.relocations.drop (r.relocations.length % 2 ^ 32)).flatMap encodeRelocation ++
      toLeBytes 8 (fnv1a (payload r)), ?_, rfl⟩
    have split : (counted r).flatMap encodeRelocation ++
        (r.relocations.drop (r.relocations.length % 2 ^ 32)).flatMap encodeRelocation =
          r.relocations.flatMap encodeRelocation := by
      rw [← flatMap_append, counted, take_append_drop]
    rw [encode, append_assoc (encodeFields r), ← append_assoc ((counted r).flatMap _), split]
    nth_rewrite 1 [payload]
    simp
  have read := fields_read sized short (by omega : _ ≤ (payload r).length) stands
  rwa [length_append, encodeRelocations_length, ← add_assoc] at read

theorem decode_encode (sized : r.code.length = r.codeSize.toNat)
    (short : (utf8Bytes r.imageHash).length < 65536) :
    decode (encode r) = if r.relocations.length < 2 ^ 32 then .ok r else .error "trailing bytes" := by
  have whole := payload_length r
  have payloadEnd : (encode r).length - 8 = (payload r).length := by
    rw [encode_length, Nat.add_sub_cancel]
  have long : ¬ (encode r).length < 8 + 4 * 10 + 1 + 2 + 1 + 4 + 8 := by
    have fields : 71 ≤ (encodeFields r).length := by
      simp only [encodeFields, length_append, toLeBytes_length, length_singleton]
      omega
    omega
  have start : ¬ (encode r).take 8 ≠ magic := by
    rw [encode, payload, append_assoc]
    exact not_not_intro (take_left' rfl)
  have checksum : ¬ fnv1a ((encode r).take (payload r).length) ≠ fromLeBytes 64 ((encode r).drop (payload r).length) := by
    rw [encode, take_left, drop_left, fromLeBytes_toLeBytes, BitVec.setWidth_eq, BitVec.setWidth_eq]
    exact not_not_intro rfl
  rw [decode]
  simp only [payloadEnd, refuse, if_neg long, if_neg start, if_neg checksum, ok_bind,
    fields_run sized short, Result.pure_eq]
  rw [counted_length, whole]
  by_cases fits : r.relocations.length < 2 ^ 32
  · rw [if_pos fits, mod_eq_of_lt fits, if_neg (not_not_intro rfl), ok_bind, counted_of_fits fits]
  · have stops : 8 + (encodeFields r).length + r.relocations.length % 2 ^ 32 * 8 ≠
        8 + (encodeFields r).length + r.relocations.length * 8 := by omega
    rw [if_neg fits, if_pos stops, Result.error_bind]

/-- A record of an empty block with the given relocations. -/
def bare (relocations : List AotRelocation) : AotRecord :=
  ⟨2, 6, 0, 0, "", 1, 0, 0, 0, 0, 0, false, none, [], relocations⟩

/-- With as many relocations as 32 bits can number, the stored count is zero. -/
theorem decode_encode_overflow :
    decode (encode (bare (List.replicate (2 ^ 32) ⟨0, .safepointFlag⟩))) = .error "trailing bytes" := by
  rw [decode_encode rfl (by decide), if_neg]
  simp only [bare, List.length_replicate, Nat.lt_irrefl, not_false_eq_true]

/-- Decoding gives the record back and stops at the checksum if and only if the number of
relocations fits the 32 bits it is stored in. -/
theorem decode_encode_iff (r : AotRecord) (sized : r.code.length = r.codeSize.toNat)
    (short : (utf8Bytes r.imageHash).length < 65536) :
    (decode (encode r) = .ok r ∧
      (decodeFields ((encode r).length - 8)).run (encode r) 8 = .ok (r, (encode r).length - 8)) ↔
      r.relocations.length < 2 ^ 32 := by
  rw [decode_encode sized short]
  constructor
  · rintro ⟨decoded, -⟩
    by_contra large
    rw [if_neg large] at decoded
    cases decoded
  · intro fits
    refine ⟨if_pos fits, ?_⟩
    rw [encode_length, Nat.add_sub_cancel, fields_run sized short, counted_of_fits fits,
      ← payload_length]

theorem decode_encode_iff_bare :
    (decode (encode (bare [⟨0, .codeEpoch⟩])) = .ok (bare [⟨0, .codeEpoch⟩]) ∧
      (decodeFields ((encode (bare [⟨0, .codeEpoch⟩])).length - 8)).run (encode (bare [⟨0, .codeEpoch⟩])) 8 =
        .ok (bare [⟨0, .codeEpoch⟩], (encode (bare [⟨0, .codeEpoch⟩])).length - 8)) ↔
      (bare [⟨0, .codeEpoch⟩]).relocations.length < 2 ^ 32 :=
  decode_encode_iff (bare [⟨0, .codeEpoch⟩]) rfl (by decide)

end AotRecord

end Casa.Jit
