import Casa.Lib.LeBytes

/-! Bytes that are kept in 8-byte words. A field is a run of bytes inside one word; it
is taken out with a mask and put back with a mask, and the bytes around it stay. -/
namespace WordMemory
open MachineInt BitVec
open BitVec (ofNat eq_of_getLsbD_eq shiftLeft_zero zero_or add_zero)

/-- Words by their aligned address. -/
abbrev Words := U64 → U64

abbrev Bytes := U64 → U8

def wordBase (address : U64) : U64 := address &&& ~~~7

def wordOffset (address : U64) : Nat := (address - wordBase address).toNat

def Words.set (words : Words) (base value : U64) : Words :=
  fun other => if other = base then value else words other

def byte (value : U64) (index : Nat) : U8 := (value >>> (8 * index)).setWidth 8

def bytes (words : Words) : Bytes :=
  fun address => byte (words (wordBase address)) (wordOffset address)

/-- The little-endian value of a run of bytes. -/
def read (m : Bytes) (address : U64) (len : Nat) : U64 :=
  fromLeBytes 64 ((List.range len).map fun index => m (address + ofNat 64 index))

/-- The bytes of the value from one index up to another, at an address. -/
def overwrite (m : Bytes) (address : U64) (start stop : Nat) (value : U64) : Bytes :=
  fun other =>
    if start ≤ (other - address).toNat ∧ (other - address).toNat < stop then byte value (other - address).toNat
    else m other

def lowMask (len : Nat) : U64 :=
  if len = 8 then BitVec.allOnes 64 else ((1 : U64) <<< (len * 8)) - 1

def field (word : U64) (offset len : Nat) : U64 := (word >>> (offset * 8)) &&& lowMask len

def putField (word : U64) (offset len : Nat) (value : U64) : U64 :=
  (word &&& ~~~(lowMask len <<< (offset * 8))) ||| ((value &&& lowMask len) <<< (offset * 8))

/-! ## Bits -/

theorem getLsbD_byte :
    (byte value index).getLsbD bit = (decide (bit < 8) && value.getLsbD (8 * index + bit)) := by
  rw [byte, getLsbD_setWidth, getLsbD_ushiftRight]

theorem getLsbD_lowMask (fits : len ≤ 8) : (lowMask len).getLsbD bit = decide (bit < 8 * len) := by
  rw [lowMask]
  split
  case isTrue whole =>
    subst whole
    exact getLsbD_allOnes
  case isFalse part =>
    rw [Nat.mul_comm]
    exact getLsbD_ones (by omega) bit

theorem getLsbD_field (fits : len ≤ 8) :
    (field word offset len).getLsbD bit =
      (word.getLsbD (offset * 8 + bit) && decide (bit < 8 * len)) := by
  rw [field, getLsbD_and, getLsbD_ushiftRight, getLsbD_lowMask fits]

theorem byte_putField (fits : offset + len ≤ 8) (inside : index < 8) :
    byte (putField word offset len value) index =
      if offset ≤ index ∧ index < offset + len then byte value (index - offset) else byte word index := by
  apply eq_of_getLsbD_eq
  intro bit small
  have low : 8 * index + bit < 64 := by omega
  rw [getLsbD_byte, putField, getLsbD_or, getLsbD_and, getLsbD_not, getLsbD_shiftLeft,
    getLsbD_shiftLeft, getLsbD_and, getLsbD_lowMask (by omega)]
  split
  case isTrue covered =>
    have above : ¬ 8 * index + bit < offset * 8 := by omega
    have position : 8 * index + bit - offset * 8 = 8 * (index - offset) + bit := by omega
    have below : 8 * (index - offset) + bit < 8 * len := by omega
    rw [getLsbD_byte]
    simp [low, above, below, position]
  case isFalse outside =>
    have missed : 8 * index + bit < offset * 8 ∨ ¬ 8 * index + bit - offset * 8 < 8 * len :=
      by omega
    rw [getLsbD_byte]
    rcases missed with before | after
    · simp [low, before]
    · simp [low, after]

theorem byte_ushiftRight (value : U64) :
    byte (value >>> (skip * 8)) index = byte value (skip + index) := by
  apply eq_of_getLsbD_eq
  intro bit small
  rw [getLsbD_byte, getLsbD_byte, getLsbD_ushiftRight]
  congr 2
  omega

theorem and_lowMask (fits : len ≤ 8) :
    value &&& lowMask len = (value.setWidth (8 * len)).setWidth 64 := by
  have mask : lowMask len = (allOnes (8 * len)).setWidth 64 := by
    apply eq_of_getLsbD_eq
    intro bit inside
    rw [getLsbD_lowMask fits]
    simp [inside]
  rw [mask, and_lowBits]

/-- A sum inside the field needs the low part of the addend only. -/
theorem add_and_lowMask (fits : len ≤ 8) :
    (left + (right &&& lowMask len)) &&& lowMask len = (left + right) &&& lowMask len := by
  have narrow : 8 * len ≤ 64 := by omega
  rw [and_lowMask fits, and_lowMask fits, and_lowMask fits, setWidth_add _ _ narrow,
    setWidth_add _ _ narrow, setWidth_setWidth_of_le _ narrow, setWidth_eq]

theorem putField_whole : putField word 0 8 value = value := by
  rw [putField, lowMask, if_pos rfl, shiftLeft_zero, shiftLeft_zero, and_allOnes,
    not_allOnes, and_zero, zero_or]

theorem field_whole : field word 0 8 = word := by
  rw [field, lowMask, if_pos rfl, ushiftRight_zero, and_allOnes]

/-! ## Places -/

theorem wordBase_toNat (address : U64) : (wordBase address).toNat = address.toNat / 8 * 8 :=
  toNat_and_highBits address 3

theorem wordOffset_eq : wordOffset address = address.toNat % 8 := by
  have base := wordBase_toNat address
  have below : wordBase address ≤ address := by
    rw [le_def, base]
    exact Nat.div_mul_le_self _ _
  rw [wordOffset, toNat_sub_of_le below]
  omega

theorem wordOffset_lt (address : U64) : wordOffset address < 8 := by
  rw [wordOffset_eq]
  exact Nat.mod_lt _ (by decide)

theorem wordBase_eq_iff : wordBase left = wordBase right ↔ left.toNat / 8 = right.toNat / 8 := by
  rw [← toNat_inj, wordBase_toNat, wordBase_toNat]
  omega

theorem toNat_add_ofNat (fits : address.toNat + index < 2 ^ 64) :
    (address + ofNat 64 index).toNat = address.toNat + index := by
  rw [toNat_add, toNat_ofNat]
  omega

/-- The next bytes of a word. -/
theorem bytes_same_word (inside : wordOffset address + index < 8) :
    bytes words (address + ofNat 64 index) =
      byte (words (wordBase address)) (wordOffset address + index) := by
  rw [wordOffset_eq] at inside
  have place : (address + ofNat 64 index).toNat = address.toNat + index :=
    toNat_add_ofNat (by omega)
  have base : wordBase (address + ofNat 64 index) = wordBase address := by
    rw [wordBase_eq_iff]
    omega
  have offset : wordOffset (address + ofNat 64 index) = wordOffset address + index := by
    rw [wordOffset_eq, wordOffset_eq]
    omega
  rw [bytes, base, offset]

/-! ## One word of a run of bytes -/

section Piece
variable {address : U64} {len index : Nat}

/-- How many bytes of the run the word at an index still has. -/
def span (address : U64) (len index : Nat) : Nat :=
  min (8 - wordOffset (address + ofNat 64 index)) (len - index)

theorem span_le (inside : index < len) : index + span address len index ≤ len := by
  rw [span]
  omega

theorem span_fits : wordOffset (address + ofNat 64 index) + span address len index ≤ 8 := by
  have offset := wordOffset_lt (address + ofNat 64 index)
  rw [span]
  omega

/-- The bytes of the run in that word. -/
theorem in_span (fits : address.toNat + len ≤ 2 ^ 64) (inside : index < len) :
    (index ≤ (other - address).toNat ∧ (other - address).toNat < index + span address len index) ↔
      wordBase other = wordBase (address + ofNat 64 index) ∧
        wordOffset (address + ofNat 64 index) ≤ wordOffset other ∧
        wordOffset other < wordOffset (address + ofNat 64 index) + span address len index := by
  have place : (address + ofNat 64 index).toNat = address.toNat + index :=
    toNat_add_ofNat (by omega)
  rw [wordBase_eq_iff, span, wordOffset_eq, wordOffset_eq, toNat_sub]
  rcases Nat.le_total address.toNat other.toNat with above | below
  · omega
  · omega

theorem span_index (fits : address.toNat + len ≤ 2 ^ 64) (inside : index < len)
    (covered : index ≤ (other - address).toNat ∧
      (other - address).toNat < index + span address len index) :
    (other - address).toNat =
      index + (wordOffset other - wordOffset (address + ofNat 64 index)) := by
  have place : (address + ofNat 64 index).toNat = address.toNat + index :=
    toNat_add_ofNat (by omega)
  obtain ⟨base, above, below⟩ := (in_span fits inside).mp covered
  rw [wordBase_eq_iff] at base
  rw [wordOffset_eq, wordOffset_eq] at *
  rw [toNat_sub] at *
  omega

/-- Storing one word's part of a run. -/
theorem bytes_set_putField (fits : address.toNat + len ≤ 2 ^ 64) (inside : index < len)
    (words : Words) (value : U64) :
    bytes (words.set (wordBase (address + ofNat 64 index))
        (putField (words (wordBase (address + ofNat 64 index))) (wordOffset (address + ofNat 64 index))
          (span address len index) (value >>> (index * 8)))) =
      overwrite (bytes words) address index (index + span address len index) value := by
  funext other
  rw [bytes, Words.set, overwrite]
  by_cases covered : index ≤ (other - address).toNat ∧
    (other - address).toNat < index + span address len index
  · obtain ⟨base, above, below⟩ := (in_span fits inside).mp covered
    rw [if_pos covered, if_pos base, byte_putField span_fits (wordOffset_lt other),
      if_pos ⟨above, below⟩, byte_ushiftRight, ← span_index fits inside covered]
  · split
    case isTrue base =>
      have outside := fun range => covered ((in_span fits inside).mpr ⟨base, range⟩)
      rw [byte_putField span_fits (wordOffset_lt other), if_neg outside, bytes, base]
    case isFalse => rfl

theorem getLsbD_read : (read m address len).getLsbD bit =
      (decide (bit < 64) && (decide (bit / 8 < len) && (m (address + ofNat 64 (bit / 8))).getLsbD (bit % 8))) := by
  rw [read, getLsbD_fromLeBytes_byte]
  by_cases inside : bit / 8 < len
  · simp [inside]
  · simp [inside]

/-- Reading one word's part of a run. -/
theorem read_span (words : Words) :
    read (bytes words) address index |||
        (field (words (wordBase (address + ofNat 64 index))) (wordOffset (address + ofNat 64 index))
          (span address len index)) <<< (index * 8) =
      read (bytes words) address (index + span address len index) := by
  have room : wordOffset (address + ofNat 64 index) + span address len index ≤ 8 := span_fits
  apply eq_of_getLsbD_eq
  intro bit low
  rw [getLsbD_or, getLsbD_shiftLeft, getLsbD_field (by omega), getLsbD_read, getLsbD_read]
  by_cases early : bit / 8 < index
  · have before : bit < index * 8 := by omega
    have within : bit / 8 < index + span address len index := by omega
    simp [early, before, within]
  · have after : ¬ bit < index * 8 := by omega
    by_cases here : bit / 8 < index + span address len index
    · have covered : bit - index * 8 < 8 * span address len index := by omega
      have split : address + ofNat 64 (bit / 8) =
          address + ofNat 64 index + ofNat 64 (bit / 8 - index) := by
        rw [BitVec.add_assoc, ← BitVec.ofNat_add, Nat.add_sub_cancel' (by omega)]
      have position : wordOffset (address + ofNat 64 index) * 8 + (bit - index * 8) =
          8 * (wordOffset (address + ofNat 64 index) + (bit / 8 - index)) + bit % 8 := by omega
      have small : bit % 8 < 8 := Nat.mod_lt _ (by decide)
      rw [split, bytes_same_word (by omega), getLsbD_byte, ← position]
      simp [low, after, here, covered, small]
    · have past : ¬ bit - index * 8 < 8 * span address len index := by omega
      simp [early, here, past]

end Piece

/-! ## Runs of bytes -/

section Within
variable {address : U64} {len : Nat}

theorem span_within (within : wordOffset address + len ≤ 8) : span address len 0 = len := by
  rw [span, add_zero]
  omega

/-- A run inside one word is a field of the word. -/
theorem read_within (within : wordOffset address + len ≤ 8) :
    field (words (wordBase address)) (wordOffset address) len = read (bytes words) address len := by
  have whole := @read_span address len 0 words
  rw [span_within within, add_zero, shiftLeft_zero, Nat.zero_add] at whole
  exact zero_or.symm.trans whole

theorem bytes_set_within (fits : address.toNat + len ≤ 2 ^ 64) (nonempty : 0 < len)
    (within : wordOffset address + len ≤ 8) :
    bytes (words.set (wordBase address) (putField (words (wordBase address)) (wordOffset address) len value)) =
      overwrite (bytes words) address 0 len value := by
  have whole := bytes_set_putField fits nonempty words value
  rw [span_within within, add_zero, Nat.zero_add] at whole
  exact whole

end Within

theorem read_congr
    (same : ∀ index < len, m (address + ofNat 64 index) = m' (address + ofNat 64 index)) :
    read m address len = read m' address len := by
  rw [read]
  congr 1
  exact List.map_congr_left fun index member => same index (List.mem_range.mp member)

theorem overwrite_congr
    (same : ∀ index, start ≤ index → index < stop → byte value index = byte value' index) :
    overwrite m address start stop value = overwrite m address start stop value' := by
  funext other
  rw [overwrite, overwrite]
  split
  case isTrue covered => exact same _ covered.1 covered.2
  case isFalse => rfl

/-- A run written in two parts. -/
theorem overwrite_overwrite (first : start ≤ middle) (second : middle ≤ stop) :
    overwrite (overwrite m address start middle value) address middle stop value =
      overwrite m address start stop value := by
  funext other
  rw [overwrite, overwrite, overwrite]
  by_cases early : (other - address).toNat < middle
  · have notSecond : ¬ (middle ≤ (other - address).toNat ∧ (other - address).toNat < stop) :=
      by omega
    rw [if_neg notSecond]
    exact if_congr (by omega) rfl rfl
  · have notFirst : ¬ (start ≤ (other - address).toNat ∧ (other - address).toNat < middle) :=
      by omega
    rw [if_neg notFirst]
    exact if_congr (by omega) rfl rfl

def Apart (address : U64) (start stop : Nat) (address' : U64) (start' stop' : Nat) : Prop :=
  (stop ≤ start ∨ stop' ≤ start') ∨
    address.toNat + stop ≤ address'.toNat + start' ∨ address'.toNat + stop' ≤ address.toNat + start

section Apart
variable {address address' : U64} {start stop start' stop' : Nat}

instance : Decidable (Apart address start stop address' start' stop') := inferInstanceAs (Decidable (_ ∨ _))

section
variable (apart : Apart address start stop address' start' stop')
include apart

theorem Apart.symm : Apart address' start' stop' address start stop :=
  apart.imp Or.symm Or.symm

theorem Apart.not_both (fits : address.toNat + stop ≤ 2 ^ 64)
    (fits' : address'.toNat + stop' ≤ 2 ^ 64)
    (covered : start ≤ (other - address).toNat ∧ (other - address).toNat < stop) :
    ¬ (start' ≤ (other - address').toNat ∧ (other - address').toNat < stop') := by
  rw [Apart] at apart
  rw [toNat_sub] at *
  omega

theorem overwrite_comm (fits : address.toNat + stop ≤ 2 ^ 64)
    (fits' : address'.toNat + stop' ≤ 2 ^ 64) (m : Bytes) (value value' : U64) :
    overwrite (overwrite m address start stop value) address' start' stop' value' =
      overwrite (overwrite m address' start' stop' value') address start stop value := by
  funext other
  simp only [overwrite]
  by_cases covered : start ≤ (other - address).toNat ∧ (other - address).toNat < stop
  · rw [if_neg (apart.not_both fits fits' covered), if_pos covered, if_pos covered]
  · rw [if_neg covered, if_neg covered]

end

theorem read_overwrite (apart : Apart address 0 stop address' start' stop')
    (fits : address.toNat + stop ≤ 2 ^ 64) (fits' : address'.toNat + stop' ≤ 2 ^ 64) (m : Bytes)
    (value : U64) :
    read (overwrite m address' start' stop' value) address stop = read m address stop := by
  refine read_congr fun index inside => ?_
  have back : (address + ofNat 64 index - address).toNat = index := by
    rw [toNat_sub, toNat_add, toNat_ofNat]
    omega
  have covered : 0 ≤ (address + ofNat 64 index - address).toNat ∧
      (address + ofNat 64 index - address).toNat < stop := by omega
  exact if_neg (apart.not_both fits fits' covered)

end Apart

end WordMemory
