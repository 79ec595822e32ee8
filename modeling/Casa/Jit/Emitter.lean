import Casa.Cpu.State
import Casa.Lib.Arm64

/-! The A64 emitter of the JIT (jit/arm64_emitter.rs), as far as native
comparisons need it, and its branches. Code is kept as instruction words; the source stores their
little-endian bytes. -/
namespace Casa.Jit
open Arm64 MachineInt
open BitVec (ofNat shiftLeft_zero)

abbrev Emitter := List U32

namespace Emitter

def emit (e : Emitter) (insn : U32) : Emitter := e ++ [insn]

def movz (e : Emitter) (rd : U32) (imm16 : U16) (shift : U32) : Emitter :=
  let hw := shift / 16
  e.emit (0xd2800000#32 ||| (hw <<< 21) ||| (imm16.setWidth 32 <<< 5) ||| rd)

def movk (e : Emitter) (rd : U32) (imm16 : U16) (shift : U32) : Emitter :=
  let hw := shift / 16
  e.emit (0xf2800000#32 ||| (hw <<< 21) ||| (imm16.setWidth 32 <<< 5) ||| rd)

/-- A wide move, then one more for each of the other halfwords that is not zero. -/
def movImm64 (e : Emitter) (rd : U32) (value : U64) : Emitter :=
  let chunk (shift : Nat) : U16 := ((value >>> shift) &&& 0xffff).setWidth 16
  [16, 32, 48].foldl
    (fun e shift => if chunk shift ≠ 0 then e.movk rd (chunk shift) (ofNat 32 shift) else e)
    (e.movz rd (chunk 0) 0)

def andsReg (e : Emitter) (rd rn rm : U32) : Emitter :=
  e.emit (0xea000000#32 ||| (rm <<< 16) ||| (rn <<< 5) ||| rd)

def subsReg (e : Emitter) (rd rn rm : U32) : Emitter :=
  e.emit (0xeb000000#32 ||| (rm <<< 16) ||| (rn <<< 5) ||| rd)

/-- Only the low four bits of the condition are encoded. -/
def bcond (e : Emitter) (cond offset : U32) : Emitter :=
  e.emit (0x54000000#32 ||| ((offset.sshiftRight 2 &&& 0x7ffff) <<< 5) ||| (cond &&& 0xf))

/-- The offset is masked to thirty bits. -/
def b (e : Emitter) (offset : U32) : Emitter :=
  e.emit (0x14000000#32 ||| (offset.sshiftRight 2 &&& 0x3fffffff))

def bl (e : Emitter) (offset : U32) : Emitter :=
  e.emit (0x94000000#32 ||| (offset.sshiftRight 2 &&& 0x3fffffff))

def cbz (e : Emitter) (rn offset : U32) : Emitter :=
  e.emit (0xb4000000#32 ||| ((offset.sshiftRight 2 &&& 0x7ffff) <<< 5) ||| rn)

def cbnz (e : Emitter) (rn offset : U32) : Emitter :=
  e.emit (0xb5000000#32 ||| ((offset.sshiftRight 2 &&& 0x7ffff) <<< 5) ||| rn)

/-- The method for each kind of branch. -/
def branch (e : Emitter) (offset : U32) : Branch → Emitter
  | .b => e.b offset
  | .bl => e.bl offset
  | .bcond cond => e.bcond (cond.setWidth 32) offset
  | .cbz rt => e.cbz (rt.setWidth 32) offset
  | .cbnz rt => e.cbnz (rt.setWidth 32) offset

end Emitter

/-! ## Registers of the host -/

namespace Regmap

def guestToArm (guestIndex : Nat) : U32 :=
  match guestIndex with
  | 0 => 4
  | 1 => 5
  | 2 => 6
  | 3 => 7
  | 4 => 8
  | 5 => 9
  | 6 => 10
  | 7 => 11
  | 8 => 12
  | 9 => 13
  | 10 => 14
  | 11 => 15
  | 12 => 16
  | 13 => 17
  | 14 => 19
  | 15 => 20
  | _ => 4

def x21 : U32 := 21

def x22 : U32 := 22

def xzr : U32 := 31

end Regmap

/-! ## What the emitted words do -/

section Words
variable {e : Emitter} (ran : exec e s = some (.next t)) (rd rn rm : BitVec 5)
include ran

theorem exec_emit (decoded : decode word = some instruction)
    (stepped : step instruction t = .next u) : exec (e.emit word) s = some (.next u) := by
  rw [Emitter.emit, exec_append ran]
  simp [exec, decoded, stepped]

theorem exec_movz (imm : U16) :
    exec (e.movz (rd.setWidth 32) imm 0) s = some (.next (t.write rd (imm.setWidth 64))) := by
  have decoded := decode_movz rd imm 0
  rw [shiftLeft_zero] at decoded
  exact exec_emit ran decoded
    (congrArg (fun value => Flow.next (t.write rd value)) (shiftLeft_zero _))

theorem exec_movk (imm : U16) (field : k < 4) :
    exec (e.movk (rd.setWidth 32) imm (ofNat 32 (16 * k))) s =
      some (.next (t.write rd (State.insertHalf (t.read rd) imm k))) := by
  have shift : ∀ k < 4, ofNat 32 (16 * k) / 16 = (ofNat 2 k).setWidth 32 := by decide
  have index : (ofNat 2 k).toNat = k := Nat.mod_eq_of_lt field
  have decoded := decode_movk rd imm (ofNat 2 k)
  rw [shiftLeft_zero, ← shift k field] at decoded
  refine exec_emit ran decoded ?_
  rw [step, index]

theorem exec_andsReg :
    exec (e.andsReg (rd.setWidth 32) (rn.setWidth 32) (rm.setWidth 32)) s =
      some (.next { t.write rd (t.read rn &&& t.read rm) with
        nzcv := ⟨(t.read rn &&& t.read rm).msb, t.read rn &&& t.read rm = 0, false, false⟩ }) := by
  have decoded := decode_ands rd rn rm
  rw [shiftLeft_zero] at decoded
  exact exec_emit ran decoded rfl

theorem exec_subsReg :
    exec (e.subsReg (rd.setWidth 32) (rn.setWidth 32) (rm.setWidth 32)) s =
      some (.next { t.write rd (addWithCarry (t.read rn) (~~~t.read rm) true).1 with
        nzcv := (addWithCarry (t.read rn) (~~~t.read rm) true).2 }) := by
  have decoded := decode_subs rd rn rm
  rw [shiftLeft_zero] at decoded
  exact exec_emit ran decoded rfl

/-- The branch tests the low four bits of the condition. -/
theorem taken_bcond (cond offset : U32) :
    taken (e.bcond cond offset) s = some (t.nzcv.holds (cond.setWidth 4)) := by
  have low : cond &&& 0xf = (cond.setWidth 4).setWidth 32 := and_lowBits cond 4
  have reach :
      offset.sshiftRight 2 &&& 0x7ffff = ((offset.sshiftRight 2).setWidth 19).setWidth 32 :=
    and_lowBits _ 19
  have decoded := decode_branchIf (cond.setWidth 4) ((offset.sshiftRight 2).setWidth 19)
  rw [shiftLeft_zero, ← low, ← reach] at decoded
  rw [taken, Emitter.bcond, Emitter.emit, exec_append ran]
  simp only [exec, decoded, step]
  cases t.nzcv.holds (cond.setWidth 4) <;> rfl

variable {rd}

/-- One further halfword of an immediate. -/
theorem exec_chunk (named : rd ≠ 31) (value : U64) (field : k < 4) {u : State}
    (loaded : t = u.write rd (State.lowHalves value k)) :
    exec (if (value >>> (16 * k)).setWidth 16 ≠ 0 then
        e.movk (rd.setWidth 32) ((value >>> (16 * k)).setWidth 16) (ofNat 32 (16 * k)) else e) s =
      some (.next (u.write rd (State.lowHalves value (k + 1)))) := by
  split
  case isTrue nonzero =>
    rw [exec_movk ran rd _ field, loaded, State.read_write_self _ named, State.insertHalf_lowHalves,
      State.write_write]
  case isFalse zero => rw [ran, loaded, State.lowHalves_skip (not_not.mp zero)]

theorem exec_movImm64 (named : rd ≠ 31) (value : U64) :
    exec (e.movImm64 (rd.setWidth 32) value) s = some (.next (t.write rd value)) := by
  have chunk (shift : Nat) :
      ((value >>> shift) &&& 0xffff).setWidth 16 = (value >>> shift).setWidth 16 := by
    have mask : (0xffff : U64).setWidth 16 = BitVec.allOnes 16 := by decide
    rw [BitVec.setWidth_and, mask, BitVec.and_allOnes]
  simp only [Emitter.movImm64, chunk]
  have first := exec_movz ran rd ((value >>> 0).setWidth 16)
  have second := exec_chunk first named value (k := 1) (by decide) rfl
  have third := exec_chunk second named value (k := 2) (by decide) rfl
  have fourth := exec_chunk third named value (k := 3) (by decide) rfl
  rwa [State.lowHalves_all] at fourth

end Words

/-! ## Branch words -/

section Branches
variable {offset : U32} (aligned : 4 ∣ offset.toInt)
include aligned

theorem near_encoded (opcode : U8) (operand : BitVec 5) (low : -(4 * 2 ^ 18) ≤ offset.toInt)
    (high : offset.toInt < 4 * 2 ^ 18) :
    let word := (opcode.setWidth 32 <<< 24) ||| ((offset.sshiftRight 2 &&& 0x7ffff) <<< 5) ||| operand.setWidth 32
    word.extractLsb' 24 8 = opcode ∧ word.extractLsb' 0 5 = operand ∧
      4 * (word.extractLsb' 5 19).toInt = offset.toInt := by
  intro word
  have fields : word = (opcode.setWidth 32 <<< 24) |||
      (((offset.sshiftRight 2).setWidth 19).setWidth 32 <<< 5) ||| (operand.setWidth 32 <<< 0) := by
    rw [BitVec.shiftLeft_zero, ← and_lowBits]
    rfl
  simp (disch := decide) only [fields, BitVec.extractLsb'_or, field_placed, field_below,
    field_above, BitVec.ofNat_eq_ofNat, BitVec.or_zero, BitVec.zero_or,
    toInt_wordOffset aligned low high (by decide), and_self]

/-- A backward offset of a far branch reaches bit 29 of the word, which is clear in the opcodes. -/
theorem far_encoded_iff (opcode : BitVec 6) (clear : opcode.getLsbD 3 = false)
    (low : -(4 * 2 ^ 25) ≤ offset.toInt) (high : offset.toInt < 4 * 2 ^ 25) :
    let word := (opcode.setWidth 32 <<< 26) ||| (offset.sshiftRight 2 &&& 0x3fffffff)
    word.extractLsb' 26 6 = opcode ∧ 4 * (word.extractLsb' 0 26).toInt = offset.toInt ↔
      0 ≤ offset.toInt := by
  intro word
  constructor
  · rintro ⟨same, -⟩
    by_contra backward
    have sign : offset.msb := BitVec.msb_eq_toInt.trans (decide_eq_true (by omega))
    rw [BitVec.msb_eq_getLsbD_last] at sign
    have bit : opcode.getLsbD 3 := by
      rw [← same]
      simp [word, sign, BitVec.getLsbD_sshiftRight]
    rw [clear] at bit
    cases bit
  · intro forward
    have masked : offset.sshiftRight 2 &&& 0x3fffffff = ((offset.sshiftRight 2).setWidth 30).setWidth 32 :=
      and_lowBits _ 30
    have quotient := BitVec.toInt_sshiftRight (x := offset) (n := 2)
    rw [Int.shiftRight_eq_div_pow, BitVec.toInt_eq_toNat_cond] at quotient
    have fields : word = (opcode.setWidth 32 <<< 26) |||
        (((offset.sshiftRight 2).setWidth 26).setWidth 32 <<< 0) := by
      refine congrArg (opcode.setWidth 32 <<< 26 ||| ·) (BitVec.eq_of_toNat_eq ?_)
      simp only [masked, BitVec.toNat_setWidth, BitVec.shiftLeft_zero]
      omega
    simp (disch := decide) only [fields, BitVec.extractLsb'_or, field_placed, field_below,
      field_above, BitVec.ofNat_eq_ofNat, BitVec.or_zero, BitVec.zero_or,
      toInt_wordOffset aligned low high (by decide), and_self]

end Branches

/-- The word of a branch is its encoding, except for the far branches that go backward. -/
theorem branch_encoded_iff (e : Emitter) (branch : Branch) (offset : U32)
    (aligned : 4 ∣ offset.toInt) (low : -branch.reach ≤ offset.toInt)
    (high : offset.toInt < branch.reach) :
    (∃ word, (e.branch offset branch).getLast? = some word ∧ branch.Encodes word offset.toInt) ↔
      (branch = .b ∨ branch = .bl → 0 ≤ offset.toInt) := by
  have last (insn : U32) : (e.emit insn).getLast? = some insn := List.getLast?_concat
  cases branch with
  | b =>
    simp only [Emitter.branch, Emitter.b, last, Option.some.injEq, exists_eq_left', true_or,
      true_implies]
    exact far_encoded_iff aligned 0x05 rfl low high
  | bl =>
    simp only [Emitter.branch, Emitter.bl, last, Option.some.injEq, exists_eq_left', or_true,
      true_implies]
    exact far_encoded_iff aligned 0x25 rfl low high
  | cbz rt => exact iff_of_true ⟨_, last _, near_encoded aligned 0xb4 rt low high⟩ (by simp)
  | cbnz rt => exact iff_of_true ⟨_, last _, near_encoded aligned 0xb5 rt low high⟩ (by simp)
  | bcond cond =>
    have masked : ∀ cond : BitVec 4, cond.setWidth 32 &&& 0xf = (cond.setWidth 5).setWidth 32 :=
      by decide
    refine iff_of_true ⟨_, last _, ?_⟩ (by simp)
    rw [masked]
    exact near_encoded aligned 0x54 (cond.setWidth 5) low high

theorem branch_encoded_cbnz : ∃ word, (Emitter.branch [] (-8) (.cbnz 3)).getLast? = some word ∧
    (Branch.cbnz 3).Encodes word (-8) :=
  (branch_encoded_iff [] (.cbnz 3) (-8) (by decide) (by decide) (by decide)).mpr (by simp)

/-- A branch to the word before it gets another opcode. -/
theorem b_backward_not_encoded :
    ¬ ∃ word, (Emitter.branch [] (-4) .b).getLast? = some word ∧ Branch.b.Encodes word (-4) := by
  rintro ⟨word, emitted, opcode, -⟩
  cases emitted
  revert opcode
  decide

end Casa.Jit
