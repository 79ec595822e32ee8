import Casa.Cpu.Bare
import Casa.Cpu.Operand
import Casa.Lib.Signedness

/-! Division of a double-width dividend. The dividend is in AX for bytes and in
the pair of RDX and RAX at the other widths, and so are remainder and quotient. -/
namespace Casa.Cpu
open Effect MachineInt CpuState Signedness List
open BitVec (ofInt getLsbD_shiftLeft ofNat_toNat slt toInt toInt_inj toNat_setWidth_of_le ult)
open BitVec (eq_of_getLsbD_eq getLsbD_or getLsbD_setWidth setWidth_eq)
open OperandWidth (bytes dword)

/-! ## The register pair -/

namespace CpuState

/-- The half that holds the low part of a dividend, and then the quotient. -/
def lower (s : CpuState) (width : OperandWidth) : BitVec width.bits := s.operand .rax width

/-- The half that holds the high part of a dividend, and then the remainder. -/
def upper (s : CpuState) : (width : OperandWidth) → BitVec width.bits
  | .byte => s.getByte .ah
  | .word => s.operand .rdx .word
  | .dword => s.operand .rdx .dword
  | .qword => s.operand .rdx .qword

def dividend (s : CpuState) (width : OperandWidth) : BitVec (width.bits + width.bits) :=
  s.upper width ++ s.lower width

end CpuState

/-- Two halves put together in a word wide enough for both. -/
theorem join_words (upper lower : BitVec b) :
    (upper.setWidth N <<< b) ||| lower.setWidth N = (upper ++ lower).setWidth N := by
  apply eq_of_getLsbD_eq
  intro i bound
  rw [getLsbD_or, getLsbD_shiftLeft, getLsbD_setWidth, getLsbD_setWidth,
    getLsbD_setWidth, BitVec.getLsbD_append]
  by_cases low : i < b
  · simp [low]
  · have inside : i - b < N := by omega
    simp [low, inside, BitVec.getLsbD_of_ge lower i (by omega)]

/-- A word taken apart. -/
theorem split_words (x : BitVec N) (b : Nat) :
    (x >>> b).setWidth b ++ x.setWidth b = x.setWidth (b + b) := by
  apply eq_of_getLsbD_eq
  intro i bound
  rw [BitVec.getLsbD_append]
  by_cases low : i < b
  · simp [low, bound]
  · have position : b + (i - b) = i := by omega
    have high : i - b < b := by omega
    simp [low, bound, position, high]

section Pair
variable (s : CpuState)

theorem setWidth_and_widthMask (width : OperandWidth) (x : U64) :
    (x &&& widthMask width.bytes).setWidth width.bits = x.setWidth width.bits := by
  rw [and_widthMask, setWidth_setWidth]

theorem and_ffff (x : U64) : x &&& 0xffff = (x.setWidth 16).setWidth 64 := and_widthMask .word x

theorem and_ffffffff (x : U64) :
    x &&& 0xffffffff = (x.setWidth 32).setWidth 64 := and_widthMask .dword x

theorem upper_byte : s.upper .byte = (s.get .rax >>> 8).setWidth 8 := setWidth_and_widthMask .byte _

theorem dividend_ax : s.dividend .byte = (s.get .rax).setWidth 16 := by
  rw [dividend, upper_byte]
  exact split_words (s.get .rax) 8

theorem dividend_byte : s.get .rax &&& 0xffff = (s.dividend .byte).setWidth 64 := by
  rw [and_ffff, dividend_ax]

theorem dividend_word : ((s.get .rdx &&& 0xffff) <<< 16) ||| (s.get .rax &&& 0xffff) =
    (s.dividend .word).setWidth 64 := by
  rw [and_ffff, and_ffff]
  exact join_words (N := 64) _ _

theorem dividend_dword : ((s.get .rdx &&& 0xffffffff) <<< 32) ||| (s.get .rax &&& 0xffffffff) =
    (s.dividend .dword).setWidth 64 := by
  rw [and_ffffffff, and_ffffffff]
  exact join_words (N := 64) _ _

theorem dividend_words : s.dividend .qword = s.get .rdx ++ s.get .rax :=
  congrArg₂ (· ++ ·) (setWidth_eq _) (setWidth_eq _)

theorem dividend_qword : ((s.get .rdx).setWidth 128 <<< 64) ||| (s.get .rax).setWidth 128 =
    (s.dividend .qword).setWidth 128 := by
  exact join_words (N := 128) _ _

end Pair

section Written
variable {s : CpuState}

theorem lower_set (holds : s.holds width) (x : U64) :
    (s.set .rax x).lower width = x.setWidth width.bits := by
  rw [lower, operand, get_set_self, setWidth_and_registerMask holds]

theorem pair_set (holds : s.holds width) (wide : width ≠ .byte) (x y : U64) :
    ((s.set .rax x).set .rdx y).lower width = x.setWidth width.bits ∧
      ((s.set .rax x).set .rdx y).upper width = y.setWidth width.bits := by
  constructor
  · exact lower_set holds x
  · have written : ((s.set .rax x).set .rdx y).operand .rdx width = y.setWidth width.bits := by
      rw [operand, get_set_self]
      exact setWidth_and_registerMask holds y
    cases width with
    | byte => exact absurd rfl wide
    | word | dword | qword => exact written

theorem upper_set_byte (x : U64) : (s.set .rax x).upper .byte = (x >>> 8).setWidth 8 := by
  have kept : (s.arch.registerMask >>> 8).setWidth 8 = BitVec.allOnes 8 := by
    cases s.arch <;> decide
  rw [upper_byte, get_set_self, BitVec.ushiftRight_and_distrib, BitVec.setWidth_and, kept,
    BitVec.and_allOnes]

/-- AX with a quotient in its low byte and a remainder in its high byte. -/
theorem ax_written (original : U64) (quotient remainder : U8) :
    let written :=
      (original &&& ~~~0xffff#64) ||| (remainder.setWidth 64 <<< 8) ||| quotient.setWidth 64
    written.setWidth 8 = quotient ∧ (written >>> 8).setWidth 8 = remainder := by
  constructor
  · apply eq_of_getLsbD_eq
    intro i bound
    simp
  · have cleared : ∀ i < 8, (~~~0xffff#64).getLsbD (8 + i) = false := by decide
    apply eq_of_getLsbD_eq
    intro i bound
    have inside : 8 + i < 64 := by omega
    rw [getLsbD_setWidth, BitVec.getLsbD_ushiftRight, getLsbD_or, getLsbD_or, BitVec.getLsbD_and,
      cleared i bound]
    simp [bound, inside]

end Written

/-! ## What a division should do -/

def divideErrors : List AppError :=
  [⟨.rcUnimplInsn, "integer divide by zero", []⟩, ⟨.rcUnimplInsn, "integer divide overflow", []⟩]

section Exact
variable (sign : Signedness) (width : OperandWidth) (divisor : BitVec width.bits) (m : Machine P)

def quotientOf : Int := (sign.value (m.cpu.dividend width)).tdiv (sign.value divisor)

def remainderOf : Int := (sign.value (m.cpu.dividend width)).tmod (sign.value divisor)

/-- A divide error exactly for a zero divisor or a quotient that does not fit,
and else the exact quotient and remainder. -/
def DivideExact (outcome : Outcome (Machine P) AppError Unit) : Prop :=
  if divisor = 0 ∨ ¬ sign.Fits width.bits (quotientOf sign width divisor m) then
    ∃ reason ∈ divideErrors, ∃ t, outcome = .error reason t
  else
    ∃ t, outcome = .ok () t ∧ sign.value (t.cpu.lower width) = quotientOf sign width divisor m ∧
      sign.value (t.cpu.upper width) = remainderOf sign width divisor m

end Exact

section Unsigned
variable (x : BitVec n) (y : BitVec b)

theorem tdiv_unsigned : (unsigned.value x).tdiv (unsigned.value y) =
    ((x.toNat / y.toNat : Nat) : Int) := (Int.ofNat_tdiv _ _).symm

theorem tmod_unsigned : (unsigned.value x).tmod (unsigned.value y) =
    ((x.toNat % y.toNat : Nat) : Int) := (Int.ofNat_tmod _ _).symm

variable (wide : n ≤ N) (narrow : b ≤ N)
include wide narrow

/-- A quotient computed in a word wide enough for both operands. -/
theorem udiv_toNat : (x.setWidth N / y.setWidth N).toNat = x.toNat / y.toNat := by
  rw [BitVec.toNat_udiv, toNat_setWidth_of_le wide, toNat_setWidth_of_le narrow]

theorem umod_toNat : (x.setWidth N % y.setWidth N).toNat = x.toNat % y.toNat := by
  rw [BitVec.toNat_umod, toNat_setWidth_of_le wide, toNat_setWidth_of_le narrow]

theorem udiv_value : (x.setWidth N / y.setWidth N).setWidth b =
    ofInt b ((unsigned.value x).tdiv (unsigned.value y)) := by
  rw [tdiv_unsigned, ← udiv_toNat x y wide narrow]
  exact (ofNat_toNat ..).symm

theorem umod_value : (x.setWidth N % y.setWidth N).setWidth b =
    ofInt b ((unsigned.value x).tmod (unsigned.value y)) := by
  rw [tmod_unsigned, ← umod_toNat x y wide narrow]
  exact (ofNat_toNat ..).symm

/-- The overflow check of the source, against the largest quotient. -/
theorem udiv_overflows {limit : BitVec N} (largest : limit.toNat = 2 ^ b - 1) :
    limit.ult (x.setWidth N / y.setWidth N) = true ↔
      ¬ unsigned.Fits b ((unsigned.value x).tdiv (unsigned.value y)) := by
  rw [ult, decide_eq_true_iff, udiv_toNat x y wide narrow, tdiv_unsigned, Signedness.Fits]
  have positive := Nat.two_pow_pos b
  have power : ((2 : Int) ^ b) = ((2 ^ b : Nat) : Int) := (Int.natCast_pow 2 b).symm
  generalize x.toNat / y.toNat = quotient
  omega

end Unsigned

section Division
variable {m : Machine P} {width : OperandWidth}

/-- What a division of either kind has to deliver. -/
theorem divideExact_of (zero : divisor = 0 → ∃ reason ∈ divideErrors, ∃ t, outcome = .error reason t)
    (overflow : divisor ≠ 0 → ¬ sign.Fits width.bits (quotientOf sign width divisor m) →
      ∃ reason ∈ divideErrors, ∃ t, outcome = .error reason t)
    (written : divisor ≠ 0 → sign.Fits width.bits (quotientOf sign width divisor m) →
      ∃ t, outcome = .ok () t ∧ t.cpu.lower width = ofInt _ (quotientOf sign width divisor m) ∧
      t.cpu.upper width = ofInt _ (remainderOf sign width divisor m)) :
    DivideExact sign width divisor m outcome := by
  have positive : 0 < width.bits := by
    have := width.bits_ge
    omega
  unfold DivideExact
  by_cases nonzero : divisor = 0
  · rw [if_pos (.inl nonzero)]
    exact zero nonzero
  · by_cases fits : sign.Fits width.bits (quotientOf sign width divisor m)
    · rw [if_neg fun failed => failed.elim nonzero fun outside => outside fits]
      obtain ⟨t, ended, quotient, remainder⟩ := written nonzero fits
      refine ⟨t, ended, ?_, ?_⟩
      · rw [quotient, value_ofInt positive fits]
      · rw [remainder]
        exact value_ofInt positive (fits_tmod positive nonzero)
    · rw [if_pos (.inr fits)]
      exact overflow nonzero fits

theorem divisor_zero (divisor : BitVec width.bits) : divisor.setWidth 64 = 0 ↔ divisor = 0 := by
  have tested := zero_operand width divisor
  rwa [Bool.eq_iff_iff, beq_iff_eq, decide_eq_true_iff] at tested

/-- A store behind an overflow check. -/
theorem checked_run {written : Machine P → Prop} (check : overflows = true ↔ ¬ fits)
    (stored : fits → ∃ t, store.run m = .ok () t ∧ written t) :
    (¬ fits → (if overflows then divideOverflow else store).run m = divideOverflow.run m) ∧
      (fits → ∃ t, (if overflows then divideOverflow else store).run m = .ok () t ∧ written t) := by
  constructor
  · intro outside
    rw [if_pos (check.mpr outside)]
  · intro fits
    rw [if_neg fun overflows => check.mp overflows fits]
    exact stored fits

theorem divStore_run (holds : m.cpu.holds width) (divisor : BitVec width.bits) :
    (¬ unsigned.Fits width.bits (quotientOf .unsigned width divisor m) →
      (divStore (divisor.setWidth 64) width.bytes).run m = divideOverflow.run m) ∧
    (unsigned.Fits width.bits (quotientOf .unsigned width divisor m) →
      ∃ t, (divStore (divisor.setWidth 64) width.bytes).run m = .ok () t ∧
        t.cpu.lower width = ofInt _ (quotientOf .unsigned width divisor m) ∧
        t.cpu.upper width = ofInt _ (remainderOf .unsigned width divisor m)) := by
  have same (divisor : U64) : divisor.setWidth 64 = divisor := setWidth_eq _
  rw [divStore, cpu, Exec.read_bind_run]
  cases width
  case' byte => simp only [bytes, dividend_byte]
  case' word => simp only [bytes, dividend_word]
  case' dword => simp only [bytes, dividend_dword]
  case' qword => simp only [bytes, dividend_qword, same]
  all_goals
    refine checked_run (udiv_overflows _ divisor (by decide) (by decide) (by decide)) fun _ => ?_
  case byte =>
    have masked (x : U64) : x &&& 0xff = (x.setWidth 8).setWidth 64 := and_widthMask .byte x
    rw [masked, masked]
    obtain ⟨low, high⟩ :=
      ax_written (m.cpu.get .rax) (ofInt 8 (quotientOf .unsigned .byte divisor m))
      (ofInt 8 (remainderOf .unsigned .byte divisor m))
    exact ⟨_, rfl, (lower_set holds _).trans low, (upper_set_byte _).trans high⟩
  all_goals
    obtain ⟨low, high⟩ := pair_set holds (by decide) _ _
    refine ⟨_, rfl, low.trans ?_, high.trans ?_⟩
  case word.refine_1 =>
    exact (setWidth_merge _ _ (by decide)).trans (udiv_value _ divisor (by decide) (by decide))
  case word.refine_2 =>
    exact (setWidth_merge _ _ (by decide)).trans (umod_value _ divisor (by decide) (by decide))
  case dword.refine_1 =>
    exact (setWidth_and_widthMask .dword _).trans (udiv_value _ divisor (by decide) (by decide))
  case dword.refine_2 =>
    exact (setWidth_and_widthMask .dword _).trans (umod_value _ divisor (by decide) (by decide))
  case qword.refine_1 => exact (setWidth_eq _).trans (udiv_value _ divisor (by decide) (by decide))
  case qword.refine_2 => exact (setWidth_eq _).trans (umod_value _ divisor (by decide) (by decide))

theorem div_exact (holds : m.cpu.holds width)
    (read : readCompareOperand m src width.bytes = .ok raw) :
    DivideExact .unsigned width (raw.setWidth width.bits) m ((div src width.bytes).run m) := by
  obtain ⟨overflow, written⟩ := divStore_run holds (raw.setWidth width.bits)
  rw [div, readOperand_bind read]
  rw [and_widthMask]
  apply divideExact_of
  · intro zero
    rw [if_pos ((divisor_zero _).mpr zero)]
    exact ⟨_, mem_cons_self, m, rfl⟩
  · intro nonzero outside
    rw [if_neg fun zero => nonzero ((divisor_zero _).mp zero), overflow outside]
    exact ⟨_, mem_cons_of_mem _ mem_cons_self, m, rfl⟩
  · intro nonzero fits
    rw [if_neg fun zero => nonzero ((divisor_zero _).mp zero)]
    exact written fits

/-! ## Signed division -/

theorem idivDivisor_operand (width : OperandWidth) (raw : U64) :
    idivDivisor raw width.bytes = some ((raw.setWidth width.bits).signExtend 128) := by
  cases width with
  | byte | word | dword => rfl
  | qword => exact congrArg (fun word : U64 => some (word.signExtend 128)) (setWidth_eq raw).symm

theorem join_signed (high low : U64) :
    (high.signExtend 128 <<< 64) ||| low.setWidth 128 = (high ++ low).signExtend 128 := by
  have wide : high.signExtend 128 <<< 64 = high.setWidth 128 <<< 64 := by
    apply eq_of_getLsbD_eq
    intro i bound
    have inside : i - 64 < 64 := by omega
    rw [getLsbD_shiftLeft, getLsbD_shiftLeft, BitVec.getLsbD_signExtend, getLsbD_setWidth,
      if_pos inside]
  rw [wide, join_words, BitVec.signExtend_eq_setWidth_of_le _ (by decide)]

theorem idivDividend_pair (s : CpuState) (width : OperandWidth) :
    idivDividend s width.bytes = (s.dividend width).signExtend 128 := by
  cases width with
  | byte => exact congrArg (BitVec.signExtend 128) (dividend_ax s).symm
  | word =>
    have combined := congrArg (BitVec.setWidth 32) (dividend_word s)
    rw [BitVec.setWidth_setWidth_of_le _ (by decide)] at combined
    exact congrArg (BitVec.signExtend 128) (combined.trans (setWidth_eq _))
  | dword => exact congrArg (BitVec.signExtend 128) ((dividend_dword s).trans (setWidth_eq _))
  | qword =>
    exact (join_signed _ _).trans (congrArg (BitVec.signExtend 128) (dividend_words s).symm)

/-- The range check of the source. -/
theorem outOfSignedRange_iff (positive : 0 < bits) (narrow : bits ≤ 128) (quotient : BitVec 128) :
    outOfSignedRange quotient bits ↔ ¬ signed.Fits bits quotient.toInt := by
  simp only [outOfSignedRange, slt, Bool.or_eq_true, decide_eq_true_iff, Signedness.Fits,
    BitVec.toInt_signExtend_of_le narrow, BitVec.toInt_intMin_of_pos positive, BitVec.toInt_intMax]
  omega

theorem idivStore_overflow (narrow : width ≠ .qword)
    (outside : outOfSignedRange quotient width.bits) (remainder : BitVec 128) :
    (idivStore quotient remainder width.bytes).run m = divideOverflow.run m := by
  rw [idivStore, cpu, Exec.read_bind_run]
  cases width with
  | byte | word | dword => exact congrArg (Exec.run · m) (if_pos outside)
  | qword => exact absurd rfl narrow

theorem idivStore_written (holds : m.cpu.holds width)
    (fits : width ≠ .qword →
      outOfSignedRange quotient width.bits = false) (remainder : BitVec 128) :
    ∃ t, (idivStore quotient remainder width.bytes).run m = .ok () t ∧
      t.cpu.lower width = quotient.setWidth width.bits ∧ t.cpu.upper width = remainder.setWidth width.bits := by
  have zeroExtended (width : OperandWidth) (x : BitVec width.bits) :
      (zeroExtend (x.setWidth 64) width.bytes).setWidth width.bits = x :=
    (setWidth_and_widthMask width _).trans (setWidth_setWidth width x)
  rw [idivStore, cpu, Exec.read_bind_run]
  cases width with
  | byte =>
    obtain ⟨low, high⟩ := ax_written (m.cpu.get .rax) (quotient.setWidth 8) (remainder.setWidth 8)
    simp only [bytes]
    rw [if_neg (ne_true_of_eq_false (fits (by decide)))]
    exact ⟨_, rfl, (lower_set holds _).trans low, (upper_set_byte _).trans high⟩
  | word | dword =>
    obtain ⟨low, high⟩ := pair_set holds (by decide) _ _
    rw [if_neg (ne_true_of_eq_false (fits (by decide)))]
    exact ⟨_, rfl, low.trans (zeroExtended _ _), high.trans (zeroExtended _ _)⟩
  | qword =>
    obtain ⟨low, high⟩ := pair_set holds (by decide) _ _
    exact ⟨_, rfl, low.trans (setWidth_eq _), high.trans (setWidth_eq _)⟩

section Signed
variable (width) (divisor : BitVec width.bits) (m)

/-- The one division whose quotient does not fit 128 bits. -/
def DivideAborts : Prop :=
  (m.cpu.dividend width).signExtend 128 = BitVec.intMin 128 ∧
    divisor.signExtend 128 = BitVec.allOnes 128

instance : Decidable (DivideAborts m width divisor) := inferInstanceAs (Decidable (_ ∧ _))

variable {width divisor m}

theorem signExtended (width : OperandWidth) (x : BitVec width.bits) :
    (x.signExtend 128).toInt = x.toInt :=
  BitVec.toInt_signExtend_of_le (Nat.le_trans width.bits_le (by decide))

theorem dividend_extended (s : CpuState) (width : OperandWidth) :
    ((s.dividend width).signExtend 128).toInt = (s.dividend width).toInt := by
  have narrow := width.bits_le
  exact BitVec.toInt_signExtend_of_le (by omega)

theorem signExtend_zero : divisor.signExtend 128 = 0 ↔ divisor = 0 := by
  rw [← toInt_inj, ← toInt_inj, signExtended]
  simp

theorem aborts_qword (aborts : DivideAborts m width divisor) : width = .qword := by
  have smallest := congrArg toInt aborts.1
  rw [dividend_extended] at smallest
  have bound := BitVec.le_toInt (m.cpu.dividend width)
  rw [smallest] at bound
  cases width with
  | byte | word | dword => exact absurd bound (by decide)
  | qword => rfl

theorem aborts_overflows (aborts : DivideAborts m width divisor) :
    ¬ signed.Fits width.bits (quotientOf .signed width divisor m) := by
  have smallest := congrArg toInt aborts.1
  have minusOne := congrArg toInt aborts.2
  rw [dividend_extended] at smallest
  rw [signExtended] at minusOne
  obtain rfl := aborts_qword aborts
  rw [quotientOf, value, value, smallest, minusOne]
  decide

theorem sdiv_value (returns : ¬ DivideAborts m width divisor) :
    (((m.cpu.dividend width).signExtend 128).sdiv (divisor.signExtend 128)).toInt =
      quotientOf .signed width divisor m := by
  rw [BitVec.toInt_sdiv_of_ne_or_ne _ _ (Decidable.not_and_iff_or_not.mp returns),
    dividend_extended, signExtended]
  rfl

theorem srem_value : (((m.cpu.dividend width).signExtend 128).srem (divisor.signExtend 128)).toInt =
    remainderOf .signed width divisor m := by
  rw [BitVec.toInt_srem, dividend_extended, signExtended]
  rfl

end Signed

theorem idiv_run (read : readCompareOperand m src width.bytes = .ok raw) :
    (idiv src width.bytes).run m =
      (if raw.setWidth width.bits = 0 then divideByZero
       else if DivideAborts m width (raw.setWidth width.bits) then Exec.panic
       else idivStore (((m.cpu.dividend width).signExtend 128).sdiv ((raw.setWidth width.bits).signExtend 128))
        (((m.cpu.dividend width).signExtend 128).srem ((raw.setWidth width.bits).signExtend 128))
        width.bytes).run m := by
  rw [idiv, readOperand_bind read, cpu, Exec.read_bind_run, idivDivisor_operand]
  dsimp only
  rw [idivDividend_pair]
  simp only [signExtend_zero]
  rfl

theorem idiv_exact_iff (holds : m.cpu.holds width)
    (read : readCompareOperand m src width.bytes = .ok raw) :
    DivideExact .signed width (raw.setWidth width.bits) m ((idiv src width.bytes).run m) ↔
      (width = .qword → raw.setWidth width.bits ≠ 0 →
        signed.Fits width.bits (quotientOf .signed width (raw.setWidth width.bits) m)) := by
  have positive : 0 < width.bits := Nat.lt_of_lt_of_le (by decide) width.bits_ge
  have narrow : width.bits ≤ 128 := Nat.le_trans width.bits_le (by decide)
  rw [idiv_run read]
  generalize raw.setWidth width.bits = divisor
  constructor
  · intro exact full nonzero
    by_contra outside
    unfold DivideExact at exact
    rw [if_pos (.inr outside), if_neg nonzero] at exact
    obtain ⟨reason, -, t, failed⟩ := exact
    by_cases aborts : DivideAborts m width divisor
    · rw [if_pos aborts] at failed
      exact nomatch failed
    · rw [if_neg aborts] at failed
      obtain ⟨stored, ended, -⟩ := idivStore_written holds (fun below => absurd full below) _
      exact nomatch ended.symm.trans failed
  · intro checked
    apply divideExact_of
    · intro zero
      rw [if_pos zero]
      exact ⟨_, mem_cons_self, m, rfl⟩
    · intro nonzero outside
      have below : width ≠ .qword := fun full => outside (checked full nonzero)
      have returns : ¬ DivideAborts m width divisor := fun aborts => below (aborts_qword aborts)
      rw [if_neg nonzero, if_neg returns, idivStore_overflow below]
      · exact ⟨_, mem_cons_of_mem _ mem_cons_self, m, rfl⟩
      · rwa [outOfSignedRange_iff positive narrow, sdiv_value returns]
    · intro nonzero fits
      have returns : ¬ DivideAborts m width divisor := fun aborts => aborts_overflows aborts fits
      rw [if_neg nonzero, if_neg returns]
      have inside : ¬ outOfSignedRange _ width.bits := fun outside =>
        (outOfSignedRange_iff positive narrow _).mp outside ((sdiv_value returns).symm ▸ fits)
      obtain ⟨t, ended, low, high⟩ := idivStore_written holds (fun _ => eq_false_of_ne_true inside) _
      refine ⟨t, ended, low.trans ?_, high.trans ?_⟩
      · rw [← sdiv_value returns]
        exact (ofInt_value .signed _ narrow).symm
      · rw [← srem_value]
        exact (ofInt_value .signed _ narrow).symm

theorem settle_dividend (m : Machine P) (width : OperandWidth) :
    m.settle.cpu.dividend width = m.cpu.dividend width := by
  cases width <;> simp only [dividend, upper, lower, settle_operand, settle_getByte]

theorem settle_quotientOf (sign : Signedness) (divisor : BitVec width.bits) (m : Machine P) :
    quotientOf sign width divisor m.settle = quotientOf sign width divisor m := by
  rw [quotientOf, settle_dividend, quotientOf]

theorem settle_divideExact :
    DivideExact sign width divisor m.settle outcome ↔ DivideExact sign width divisor m outcome := by
  have remainder : remainderOf sign width divisor m.settle = remainderOf sign width divisor m := by
    rw [remainderOf, settle_dividend, remainderOf]
  rw [DivideExact, settle_quotientOf, remainder, DivideExact]

end Division

def divideInstruction (sign : Signedness) (src : CompareOperand) (width : OperandWidth) :
    IrInstruction P :=
  match sign with
  | .unsigned => .div src width.bytes
  | .signed => .idiv src width.bytes

theorem executeIr_div_exact (host : Host P) (holds : m.cpu.holds width)
    (read : readCompareOperand m src width.bytes = .ok raw) :
    DivideExact .unsigned width (raw.setWidth width.bits) m
      ((executeIr host [divideInstruction .unsigned src width]).run m) := by
  have ran : (executeIr host [divideInstruction .unsigned src width]).run m =
      (div src width.bytes).run m.settle := executeIr_single (fun _ => rfl)
  rw [← settle_readCompareOperand] at read
  rw [ran, ← settle_divideExact]
  exact div_exact ((settle_holds width).mpr holds) read

theorem executeIr_idiv_exact_iff (host : Host P) (holds : m.cpu.holds width)
    (read : readCompareOperand m src width.bytes = .ok raw) :
    DivideExact .signed width (raw.setWidth width.bits) m
        ((executeIr host [divideInstruction .signed src width]).run m) ↔
      (width = .qword → raw.setWidth width.bits ≠ 0 →
        signed.Fits width.bits (quotientOf .signed width (raw.setWidth width.bits) m)) := by
  have ran : (executeIr host [divideInstruction .signed src width]).run m =
      (idiv src width.bytes).run m.settle := executeIr_single (fun _ => rfl)
  rw [← settle_readCompareOperand] at read
  rw [ran, ← settle_divideExact, idiv_exact_iff ((settle_holds width).mpr holds) read,
    settle_quotientOf]

/-- Division is exact at every width, apart from a signed 64-bit quotient that
does not fit: it is stored without a check, or aborts the interpreter. -/
theorem divide_exact_iff (host : Host P) (sign : Signedness) (src : CompareOperand)
    (width : OperandWidth) (m : Machine P) (raw : U64) (holds : m.cpu.holds width)
    (read : readCompareOperand m src width.bytes = .ok raw) :
    DivideExact sign width (raw.setWidth width.bits) m
        ((executeIr host [divideInstruction sign src width]).run m) ↔
      ¬ (sign = .signed ∧ width = .qword ∧ raw.setWidth width.bits ≠ 0 ∧
        ¬ sign.Fits width.bits (quotientOf sign width (raw.setWidth width.bits) m)) := by
  cases sign with
  | unsigned =>
    exact iff_of_true (executeIr_div_exact host holds read) fun failed => nomatch failed.1
  | signed =>
    rw [executeIr_idiv_exact_iff host holds read]
    simp only [true_and, not_and, not_not]

def dividing (rdx rax rbx : U64) : Machine barePlatform :=
  bareMachine .x64 (fun | .rdx => rdx | .rax => rax | .rbx => rbx | _ => 0) []

/-- `-7 / 2` on 32 bits, which is `-3` with remainder `-1`. -/
theorem divide_exact_at_dword :
    let m := dividing 0xffffffff 0xfffffff9 2
    quotientOf .signed .dword 2 m = -3 ∧ remainderOf .signed .dword 2 m = -1 ∧
      (DivideExact .signed .dword 2 m ((executeIr bareHost [divideInstruction .signed (.register .rbx) .dword]).run m) ↔
        ¬ (Signedness.signed = .signed ∧ dword = .qword ∧ (2 : U32) ≠ 0 ∧
          ¬ Signedness.signed.Fits 32 (quotientOf .signed .dword 2 m))) :=
  ⟨by decide, by decide,
    divide_exact_iff bareHost .signed (.register .rbx) .dword (dividing 0xffffffff 0xfffffff9 2) 2 nofun rfl⟩

/-- `2 ^ 64 / 1` leaves the quotient `0`, and `-2 ^ 127 / -1` aborts. -/
theorem idiv_quotient_unchecked :
    (∃ t, (executeIr bareHost [.idiv (.register .rbx) 8]).run (dividing 1 0 1) = .ok () t ∧
        quotientOf .signed .qword 1 (dividing 1 0 1) = 2 ^ 64 ∧ t.cpu.get .rax = 0) ∧
      (executeIr bareHost [.idiv (.register .rbx) 8]).run
        (dividing (BitVec.intMin 64) 0 (BitVec.allOnes 64)) = .panic :=
  ⟨⟨_, rfl, by decide, by decide⟩, rfl⟩

end Casa.Cpu
