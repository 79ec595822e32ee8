import Mathlib.Data.BitVec
import Casa.Lib.MachineInt

/-! A fragment of the A64 instruction set: wide moves, AND and SUB of 64-bit
registers with flags, and the conditional branch, decoded from their words. -/
namespace Arm64
open BitVec

structure Nzcv where
  n : Bool
  z : Bool
  c : Bool
  v : Bool

/-- Bits 3 to 1 of a condition choose a test, and bit 0 inverts it. -/
def Nzcv.holds (flags : Nzcv) (cond : BitVec 4) : Bool :=
  let test : Bool :=
    match (cond >>> 1).toNat with
    | 0 => flags.z
    | 1 => flags.c
    | 2 => flags.n
    | 3 => flags.v
    | 4 => flags.c && !flags.z
    | 5 => flags.n == flags.v
    | 6 => flags.n == flags.v && !flags.z
    | _ => true
  if cond.getLsbD 0 && cond != 15 then !test else test

theorem Nzcv.holds_eq (flags : Nzcv) : flags.holds 0 = flags.z := rfl

theorem Nzcv.holds_ne (flags : Nzcv) : flags.holds 1 = !flags.z := rfl

theorem Nzcv.holds_cs (flags : Nzcv) : flags.holds 2 = flags.c := rfl

theorem Nzcv.holds_cc (flags : Nzcv) : flags.holds 3 = !flags.c := rfl

/-- Sum and flags of `x + y + carry`. -/
def addWithCarry (x y : U64) (carry : Bool) : U64 × Nzcv :=
  let unsignedSum := x.toNat + y.toNat + carry.toNat
  let signedSum := x.toInt + y.toInt + carry.toNat
  let result := BitVec.ofNat 64 unsignedSum
  (result, ⟨result.msb, result = 0, result.toNat ≠ unsignedSum, result.toInt ≠ signedSum⟩)

/-- A subtraction adds the complement; it carries where it does not borrow. -/
theorem addWithCarry_not (x y : U64) :
    addWithCarry x (~~~y) true =
      (x - y, ⟨(x - y).msb, x - y = 0, y.toNat ≤ x.toNat, (x - y).toInt ≠ x.toInt - y.toInt⟩) := by
  have complement : (~~~y).toNat = 2 ^ 64 - 1 - y.toNat := BitVec.toNat_not
  have difference : (x - y).toNat = (2 ^ 64 - y.toNat + x.toNat) % 2 ^ 64 := BitVec.toNat_sub x y
  have sum : x.toNat + (~~~y).toNat + true.toNat = 2 ^ 64 - y.toNat + x.toNat := by
    rw [Bool.toNat_true]
    omega
  have result : BitVec.ofNat 64 (x.toNat + (~~~y).toNat + true.toNat) = x - y := by
    apply BitVec.eq_of_toNat_eq
    rw [BitVec.toNat_ofNat, sum, difference]
  have signed : x.toInt + (~~~y).toInt + true.toNat = x.toInt - y.toInt := by
    rw [BitVec.toInt_eq_toNat_cond (~~~y), BitVec.toInt_eq_toNat_cond y]
    omega
  have carried : (x - y).toNat ≠ x.toNat + (~~~y).toNat + true.toNat ↔ y.toNat ≤ x.toNat := by
    omega
  simp only [addWithCarry, result, signed, carried]

inductive Instruction where
  | movz (rd : BitVec 5) (imm : U16) (hw : BitVec 2)
  | movk (rd : BitVec 5) (imm : U16) (hw : BitVec 2)
  | ands (rd rn rm : BitVec 5)
  | subs (rd rn rm : BitVec 5)
  | branchIf (cond : BitVec 4) (offset : BitVec 19)

def decode (word : U32) : Option Instruction :=
  let opcode := word.extractLsb' 24 8
  let rd := word.extractLsb' 0 5
  let rn := word.extractLsb' 5 5
  let rm := word.extractLsb' 16 5
  -- A register operand that is not shifted.
  let plain := word.extractLsb' 21 3 = 0 ∧ word.extractLsb' 10 6 = 0
  if opcode = 0xd2 ∧ word.extractLsb' 23 1 = 1 then
    some (.movz rd (word.extractLsb' 5 16) (word.extractLsb' 21 2))
  else if opcode = 0xf2 ∧ word.extractLsb' 23 1 = 1 then
    some (.movk rd (word.extractLsb' 5 16) (word.extractLsb' 21 2))
  else if opcode = 0xea ∧ plain then some (.ands rd rn rm)
  else if opcode = 0xeb ∧ plain then some (.subs rd rn rm)
  else if opcode = 0x54 ∧ word.extractLsb' 4 1 = 0 then
    some (.branchIf (word.extractLsb' 0 4) (word.extractLsb' 5 19))
  else none

/-! ## Fields of an instruction word -/

section Fields
variable {N l : Nat} (x : BitVec l) {k start len : Nat}

theorem field_placed (inside : k + l ≤ N) : (x.setWidth N <<< k).extractLsb' k l = x := by
  apply eq_of_getLsbD_eq
  intro i bound
  have position : k + i < N := by omega
  simp [bound, position]

theorem field_below (above : k + l ≤ start) : (x.setWidth N <<< k).extractLsb' start len = 0 := by
  apply eq_of_getLsbD_eq
  intro i bound
  have outside : l ≤ start + i - k := by omega
  simp [getLsbD_of_ge x _ outside]

theorem field_above (below : start + len ≤ k) : (x.setWidth N <<< k).extractLsb' start len = 0 := by
  apply eq_of_getLsbD_eq
  intro i bound
  have outside : start + i < k := by omega
  simp [outside]

end Fields

section Decode
variable (rd rn rm : BitVec 5) (imm : U16) (hw : BitVec 2)

theorem decode_movz :
    decode (0xd2800000#32 ||| (hw.setWidth 32 <<< 21) ||| (imm.setWidth 32 <<< 5) ||| (rd.setWidth 32 <<< 0)) =
      some (.movz rd imm hw) := by
  simp (disch := decide) only [decode, extractLsb'_or, field_placed, field_below, field_above]
  simp

theorem decode_movk :
    decode (0xf2800000#32 ||| (hw.setWidth 32 <<< 21) ||| (imm.setWidth 32 <<< 5) ||| (rd.setWidth 32 <<< 0)) =
      some (.movk rd imm hw) := by
  simp (disch := decide) only [decode, extractLsb'_or, field_placed, field_below, field_above]
  simp

theorem decode_ands :
    decode (0xea000000#32 ||| (rm.setWidth 32 <<< 16) ||| (rn.setWidth 32 <<< 5) ||| (rd.setWidth 32 <<< 0)) =
      some (.ands rd rn rm) := by
  simp (disch := decide) only [decode, extractLsb'_or, field_placed, field_below, field_above]
  simp

theorem decode_subs :
    decode (0xeb000000#32 ||| (rm.setWidth 32 <<< 16) ||| (rn.setWidth 32 <<< 5) ||| (rd.setWidth 32 <<< 0)) =
      some (.subs rd rn rm) := by
  simp (disch := decide) only [decode, extractLsb'_or, field_placed, field_below, field_above]
  simp

theorem decode_branchIf (cond : BitVec 4) (offset : BitVec 19) :
    decode (0x54000000#32 ||| (offset.setWidth 32 <<< 5) ||| (cond.setWidth 32 <<< 0)) =
      some (.branchIf cond offset) := by
  simp (disch := decide) only [decode, extractLsb'_or, field_placed, field_below, field_above]
  simp

end Decode

/-! ## Branches by their fields -/

inductive Branch where
  | b
  | bl
  | bcond (cond : BitVec 4)
  | cbz (rt : BitVec 5)
  | cbnz (rt : BitVec 5)

namespace Branch

/-- Offsets lie below the reach and not below its negative. -/
def reach : Branch → Int
  | .b | .bl => 2 ^ 27
  | _ => 2 ^ 20

/-- The opcode and operand of a word are those of the branch, and its offset
field, which counts words, stands for the distance. -/
def Encodes (word : U32) (distance : Int) : Branch → Prop
  | .b => word.extractLsb' 26 6 = 0x05 ∧ 4 * (word.extractLsb' 0 26).toInt = distance
  | .bl => word.extractLsb' 26 6 = 0x25 ∧ 4 * (word.extractLsb' 0 26).toInt = distance
  | .bcond cond => word.extractLsb' 24 8 = 0x54 ∧ word.extractLsb' 0 5 = cond.setWidth 5 ∧
      4 * (word.extractLsb' 5 19).toInt = distance
  | .cbz rt => word.extractLsb' 24 8 = 0xb4 ∧ word.extractLsb' 0 5 = rt ∧ 4 * (word.extractLsb' 5 19).toInt = distance
  | .cbnz rt => word.extractLsb' 24 8 = 0xb5 ∧ word.extractLsb' 0 5 = rt ∧ 4 * (word.extractLsb' 5 19).toInt = distance

end Branch

/-- A field holds every aligned offset of its range. -/
theorem toInt_wordOffset {offset : U32} (aligned : 4 ∣ offset.toInt)
    (low : -(4 * 2 ^ n) ≤ offset.toInt) (high : offset.toInt < 4 * 2 ^ n) (narrow : n + 1 ≤ 32) :
    4 * ((offset.sshiftRight 2).setWidth (n + 1)).toInt = offset.toInt := by
  have quotient : offset.toInt >>> (2 : Nat) = offset.toInt / 4 := Int.shiftRight_eq_div_pow _ 2
  have width : ((2 ^ (n + 1) : Nat) : Int) = 2 * 2 ^ n := by
    rw [Nat.pow_succ']
    push_cast
    rfl
  rw [toInt_setWidth, ← Int.bmod_bmod_of_dvd (Nat.pow_dvd_pow 2 narrow), ← toInt_eq_toNat_bmod,
    toInt_sshiftRight, quotient, Int.bmod_eq_of_le]
  · omega
  · omega
  · omega

structure State where
  x : BitVec 5 → U64
  nzcv : Nzcv

namespace State

/-- Register 31 reads as zero. -/
def read (s : State) (reg : BitVec 5) : U64 := if reg = 31 then 0 else s.x reg

def write (s : State) (reg : BitVec 5) (value : U64) : State :=
  if reg = 31 then s else { s with x := Function.update s.x reg value }

theorem read_write_self (s : State) (named : reg ≠ 31) : (s.write reg value).read reg = value := by
  simp only [read, write, if_neg named, Function.update_self]

theorem read_write_of_ne (s : State) (distinct : other ≠ reg) :
    (s.write reg value).read other = s.read other := by
  rw [write]
  split
  · rfl
  · simp [read, Function.update_of_ne distinct]

theorem write_write (s : State) : (s.write reg first).write reg second = s.write reg second := by
  by_cases zero : reg = 31
  · simp only [write, if_pos zero]
  · simp only [write, if_neg zero, Function.update_idem]

def insertHalf (x : U64) (imm : U16) (hw : Nat) : U64 :=
  (x &&& ~~~((BitVec.allOnes 16).setWidth 64 <<< (16 * hw))) ||| (imm.setWidth 64 <<< (16 * hw))

def lowHalves (x : U64) (k : Nat) : U64 := (x.setWidth (16 * k)).setWidth 64

theorem lowHalves_all (x : U64) : lowHalves x 4 = x := by
  rw [lowHalves, setWidth_eq, setWidth_eq]

theorem insertHalf_lowHalves (x : U64) (k : Nat) :
    insertHalf (lowHalves x k) ((x >>> (16 * k)).setWidth 16) k = lowHalves x (k + 1) := by
  apply eq_of_getLsbD_eq
  intro i bound
  rw [insertHalf, lowHalves, lowHalves, getLsbD_or, getLsbD_and, getLsbD_not, getLsbD_shiftLeft,
    getLsbD_shiftLeft]
  simp only [getLsbD_setWidth, bound]
  by_cases low : i < 16 * k
  · have inside : i < 16 * (k + 1) := by omega
    simp [low, inside]
  · have position : 16 * k + (i - 16 * k) = i := by omega
    have narrow : i - 16 * k < 64 := by omega
    by_cases field : i - 16 * k < 16
    · have inside : i < 16 * (k + 1) := by omega
      simp [low, inside, field, position, narrow]
    · have outside : ¬ i < 16 * (k + 1) := by omega
      simp [low, outside, field]

theorem lowHalves_skip {x : U64} (zero : (x >>> (16 * k)).setWidth 16 = 0) :
    lowHalves x (k + 1) = lowHalves x k := by
  apply eq_of_getLsbD_eq
  intro i bound
  rw [lowHalves, lowHalves]
  by_cases low : i < 16 * k
  · have inside : i < 16 * (k + 1) := by omega
    simp [low, inside]
  · by_cases inside : i < 16 * (k + 1)
    · have bit := congrArg (·.getLsbD (i - 16 * k)) zero
      have position : 16 * k + (i - 16 * k) = i := by omega
      have field : i - 16 * k < 16 := by omega
      simp only [getLsbD_setWidth, getLsbD_ushiftRight, position, field, decide_true, Bool.true_and] at bit
      simp [bit]
    · simp [low, inside]

end State

/-- Where control is after some code: behind it, or at the target of a branch. -/
inductive Flow where
  | next (s : State)
  | branch (offset : BitVec 19) (s : State)

def step (instruction : Instruction) (s : State) : Flow :=
  match instruction with
  | .movz rd imm hw => .next (s.write rd (imm.setWidth 64 <<< (16 * hw.toNat)))
  | .movk rd imm hw => .next (s.write rd (State.insertHalf (s.read rd) imm hw.toNat))
  | .ands rd rn rm =>
    let result := s.read rn &&& s.read rm
    .next { s.write rd result with nzcv := ⟨result.msb, result = 0, false, false⟩ }
  | .subs rd rn rm =>
    let (result, flags) := addWithCarry (s.read rn) (~~~s.read rm) true
    .next { s.write rd result with nzcv := flags }
  | .branchIf cond offset => if s.nzcv.holds cond then .branch offset s else .next s

/-- Run code up to its end or to the first branch it takes. -/
def exec : List U32 → State → Option Flow
  | [], s => some (.next s)
  | word :: rest, s =>
    match decode word with
    | none => none
    | some instruction =>
      match step instruction s with
      | .next t => exec rest t
      | .branch offset t => some (.branch offset t)

def taken (code : List U32) (s : State) : Option Bool :=
  (exec code s).map fun flow =>
    match flow with
    | .next _ => false
    | .branch _ _ => true

theorem exec_append (ran : exec first s = some (.next t)) :
    exec (first ++ second) s = exec second t := by
  induction first generalizing s with
  | nil =>
    cases ran
    rfl
  | cons word rest ih =>
    simp only [List.cons_append, exec] at ran ⊢
    cases decoded : decode word with
    | none =>
      rw [decoded] at ran
      cases ran
    | some instruction =>
      rw [decoded] at ran
      dsimp only at ran ⊢
      cases stepped : step instruction s with
      | next u =>
        rw [stepped] at ran
        exact ih ran
      | branch =>
        rw [stepped] at ran
        cases ran

end Arm64
