import Casa.Cpu.Division

/-! A multiplication of the accumulator and the division that undoes it. -/
namespace Casa.Cpu
open Effect MachineInt CpuState BitVec Signedness
open BitVec (ofInt)

/-! ## The product -/

section Product
variable (width : OperandWidth)

theorem lowMask_bytes : lowMask width.bytes = (allOnes width.bits).setWidth 128 := by
  cases width <;> decide

theorem and_lowMask (x : BitVec 128) :
    (x &&& lowMask width.bytes).setWidth 64 = (x.setWidth width.bits).setWidth 64 := by
  rw [lowMask_bytes, and_lowBits, BitVec.setWidth_setWidth_of_le _ (by decide)]

theorem productLow_eq (product : BitVec 128) :
    productLow product width.bytes = (product.setWidth width.bits).setWidth 64 :=
      and_lowMask width product

theorem productHigh_eq (product : BitVec 128) :
    productHigh product width.bytes =
      ((product >>> width.bits).setWidth width.bits).setWidth 64 := by
  have narrow := width.bits_le
  rw [productHigh, widthBits_bytes, shr_of_lt (by omega)]
  exact and_lowMask width _

theorem wideSigned_operand (x : U64) :
    wideSigned x width.bytes = ofInt 128 (signed.value (x.setWidth width.bits)) := by
  have extended : (signExtend x width.bytes).toInt = (x.setWidth width.bits).toInt := by
    cases width with
    | byte | word | dword => exact toInt_signExtend_of_le (by decide)
    | qword => exact congrArg BitVec.toInt (setWidth_eq x).symm
  exact congrArg (ofInt 128) extended

theorem wideUnsigned_operand (x : U64) :
    (x &&& widthMask width.bytes).setWidth 128 =
      ofInt 128 (unsigned.value (x.setWidth width.bits)) := by
  have narrow := width.bits_le
  apply eq_of_toNat_eq
  rw [and_widthMask, toNat_setWidth_of_le (by decide), toNat_operand]
  have small := (x.setWidth width.bits).isLt
  have room : 2 ^ width.bits ≤ 2 ^ 128 := Nat.pow_le_pow_right (by decide) (by omega)
  exact (Nat.mod_eq_of_lt (Nat.lt_of_lt_of_le small room)).symm

end Product

def productOf (sign : Signedness) (width : OperandWidth) (multiplier : BitVec width.bits)
    (m : Machine P) : BitVec (width.bits + width.bits) :=
  ofInt _ (sign.value (m.cpu.lower width) * sign.value multiplier)

/-- The half of a double-width word that belongs in the upper register. -/
def upperHalf {b : Nat} (word : BitVec (b + b)) : BitVec b := (word >>> b).setWidth b

/-- The machine with the upper half of a product in RDX. -/
def Machine.withHigh (width : OperandWidth) (product : BitVec (width.bits + width.bits))
    (m : Machine P) : Machine P :=
  let rdx := mergeRegisterResult (m.cpu.get .rdx) ((upperHalf product).setWidth 64) width.bytes
  { m with cpu := m.cpu.set .rdx rdx }

/-- The machine after a multiplication: the halves of the product are in RAX
and RDX, also for bytes. -/
structure Multiplied (width : OperandWidth) (product : BitVec (width.bits + width.bits)) (m t : Machine P) :
    Prop where
  low : t.cpu.lower width = product.setWidth width.bits
  high : t.cpu.operand .rdx width = upperHalf product
  ah : width = .byte → t.cpu.upper width = m.cpu.upper width
  registers : ∀ reg, reg ≠ .rax → t.cpu.get reg = (m.withHigh width product).cpu.get reg
  arch : t.cpu.arch = m.cpu.arch
  segments : t.cpu.segmentBases = m.cpu.segmentBases
  memory : t.memory = m.memory

theorem upper_merge_byte (s : CpuState) (value : U64) :
    (s.set .rax (mergeRegisterResult (s.get .rax) value 1)).upper .byte = s.upper .byte := by
  have kept : (~~~widthMask 1 >>> 8).setWidth 8 = allOnes 8 := by decide
  have dropped : (widthMask 1 >>> 8).setWidth 8 = 0#8 := by decide
  rw [upper_set_byte, upper_byte, mergeRegisterResult, ushiftRight_or_distrib, setWidth_or,
    ushiftRight_and_distrib, setWidth_and, kept, and_allOnes,
    ushiftRight_and_distrib, setWidth_and, dropped, and_zero, or_zero]

theorem halves_of_wide (narrow : b + b ≤ N) (product : Int) :
    (ofInt N product).setWidth b = (ofInt (b + b) product).setWidth b ∧
      (ofInt N product >>> b).setWidth b = upperHalf (ofInt (b + b) product) := by
  rw [← setWidth_ofInt narrow]
  constructor
  · rw [BitVec.setWidth_setWidth_of_le _ (by omega)]
  · apply BitVec.eq_of_getLsbD_eq
    intro i bound
    simp [upperHalf]

theorem writeProduct_run (holds : m.cpu.holds width) :
    ∃ t, (writeProduct (ofInt 128 product) overflow width.bytes).run m = .ok () t ∧
      Multiplied width (ofInt _ product) m t := by
  have narrow := width.bits_le
  obtain ⟨low, high⟩ := halves_of_wide (N := 128) (b := width.bits) (by omega) product
  rw [writeProduct, productLow_eq, productHigh_eq, low, high]
  refine ⟨_, rfl, ?low, ?high, ?ah, ?registers, rfl, rfl, rfl⟩
  case low =>
    refine Eq.trans ?_ (operand_set_merge holds .rax (m.cpu.get .rax) _)
    exact congrArg (BitVec.setWidth width.bits) (get_set_of_ne _ _ _ (by decide))
  case high => exact operand_set_merge holds .rdx _ _
  case ah =>
    rintro rfl
    have kept := upper_merge_byte m.cpu
    simp only [upper_byte] at kept ⊢
    refine Eq.trans ?_ (kept ((ofInt 16 product).setWidth 8 |>.setWidth 64))
    exact congrArg (fun rax : U64 => (rax >>> 8).setWidth 8) (get_set_of_ne _ _ _ (by decide))
  case registers =>
    intro reg notRax
    by_cases rdx : reg = .rdx
    · rw [rdx, Machine.withHigh, get_set_self]
      exact get_set_self _ _ _
    · rw [Machine.withHigh, get_set_of_ne _ _ _ rdx]
      exact (get_set_of_ne _ _ _ rdx).trans (get_set_of_ne _ _ _ notRax)

def multiplyInstruction (sign : Signedness) (src : CompareOperand) (width : OperandWidth) :
    IrInstruction P :=
  match sign with
  | .unsigned => .mulAcc src width.bytes
  | .signed => .imulAcc src width.bytes

theorem mulAcc_run (holds : m.cpu.holds width)
    (read : readCompareOperand m src width.bytes = .ok raw) :
    ∃ t, (mulAcc src width.bytes).run m = .ok () t ∧
      Multiplied width (productOf .unsigned width (raw.setWidth width.bits) m) m t := by
  rw [mulAcc, cpu, Exec.read_bind_run]
  dsimp only
  rw [readOperand_bind read, wideUnsigned_operand, wideUnsigned_operand, ← ofInt_mul]
  exact writeProduct_run holds

theorem imulAcc_run (holds : m.cpu.holds width)
    (read : readCompareOperand m src width.bytes = .ok raw) :
    ∃ t, (imulAcc src width.bytes).run m = .ok () t ∧
      Multiplied width (productOf .signed width (raw.setWidth width.bits) m) m t := by
  rw [imulAcc, cpu, Exec.read_bind_run]
  dsimp only
  rw [readOperand_bind read, wideSigned_operand, wideSigned_operand, ← ofInt_mul]
  exact writeProduct_run holds

theorem productOf_settle (multiplier : BitVec width.bits) :
    productOf sign width multiplier m.settle = productOf sign width multiplier m := by
  simp [productOf, lower]

theorem settle_upper (m : Machine P) (width : OperandWidth) :
    m.settle.cpu.upper width = m.cpu.upper width := by
  cases width <;> simp only [upper, settle_operand, settle_getByte]

theorem settle_withHigh_get (m : Machine P) (width : OperandWidth)
    (product : BitVec (width.bits + width.bits)) (reg : Register) :
    (m.settle.withHigh width product).cpu.get reg = (m.withHigh width product).cpu.get reg := by
  have same : m.settle.cpu.get .rdx = m.cpu.get .rdx := m.cpu.materializeFlags_get .rdx
  rw [Machine.withHigh, Machine.withHigh, same]
  by_cases rdx : reg = .rdx
  · rw [rdx, get_set_self, get_set_self]
    exact congrArg (_ &&& ·.registerMask) m.cpu.materializeFlags_arch
  · rw [get_set_of_ne _ _ _ rdx, get_set_of_ne _ _ _ rdx]
    exact m.cpu.materializeFlags_get reg

theorem Multiplied.of_settle (multiplied : Multiplied width product m.settle t) :
    Multiplied width product m t where
  low := multiplied.low
  high := multiplied.high
  ah byte := (multiplied.ah byte).trans (settle_upper m width)
  registers reg notRax := by
    rw [multiplied.registers reg notRax, settle_withHigh_get]
  arch := multiplied.arch.trans m.cpu.materializeFlags_arch
  segments := multiplied.segments.trans (by rw [Machine.settle, materializeFlags_eq])
  memory := multiplied.memory

theorem executeIr_multiply (host : Host P) (sign : Signedness) (holds : m.cpu.holds width)
    (read : readCompareOperand m src width.bytes = .ok raw) :
    ∃ t, (executeIr host [multiplyInstruction sign src width]).run m = .ok () t ∧
      Multiplied width (productOf sign width (raw.setWidth width.bits) m) m t := by
  rw [← settle_readCompareOperand] at read
  have settled : m.settle.cpu.holds width := (settle_holds width).mpr holds
  cases sign with
  | unsigned =>
    obtain ⟨t, ran, multiplied⟩ := mulAcc_run settled read
    rw [productOf_settle] at multiplied
    exact ⟨t, (executeIr_single fun _ => rfl).trans ran, multiplied.of_settle⟩
  | signed =>
    obtain ⟨t, ran, multiplied⟩ := imulAcc_run settled read
    rw [productOf_settle] at multiplied
    exact ⟨t, (executeIr_single fun _ => rfl).trans ran, multiplied.of_settle⟩

section Divided
variable {width : OperandWidth} {product : BitVec (width.bits + width.bits)} {m t : Machine P} {src : CompareOperand}

/-- The division of more than a byte finds the product. -/
theorem Multiplied.dividend (multiplied : Multiplied width product m t) (wide : width ≠ .byte) :
    t.cpu.dividend width = product := by
  have high : t.cpu.upper width = upperHalf product := by
    cases width with
    | byte => exact absurd rfl wide
    | word | dword | qword => exact multiplied.high
  rw [CpuState.dividend, multiplied.low, high]
  exact (split_words product width.bits).trans (setWidth_eq product)

/-- An operand that avoids RAX is read with the upper half in RDX. -/
theorem Multiplied.reads (multiplied : Multiplied width product m t) (avoids : src.Avoids .rax)
    (bytes : Nat) :
    readCompareOperand t src bytes = readCompareOperand (m.withHigh width product) src bytes :=
  readCompareOperand_congr multiplied.arch multiplied.segments multiplied.memory fun reg reads =>
    multiplied.registers reg fun rax => reads (rax ▸ avoids)

theorem withHigh_reads (avoids : src.Avoids .rdx) (bytes : Nat) :
    readCompareOperand (m.withHigh width product) src bytes = readCompareOperand m src bytes :=
  readCompareOperand_congr rfl rfl rfl fun _ reads => get_set_of_ne _ _ _ fun rdx =>
    reads (rdx ▸ avoids)

end Divided

/-- An exact division restores a factor exactly when the dividend is its
product with the divisor. -/
theorem divideExact_restores_iff (exact : DivideExact sign width divisor m outcome)
    (factor : BitVec width.bits) :
    (∃ t, outcome = .ok () t ∧ t.cpu.lower width = factor ∧ t.cpu.upper width = 0) ↔
      divisor ≠ 0 ∧ sign.value (m.cpu.dividend width) = sign.value factor * sign.value divisor := by
  have zero : sign.value (0 : BitVec width.bits) = 0 := by
    cases sign <;> simp [value]
  unfold DivideExact at exact
  constructor
  · rintro ⟨t, ended, quotient, remainder⟩
    split at exact
    case isTrue =>
      obtain ⟨reason, -, t', failed⟩ := exact
      cases ended.symm.trans failed
    case isFalse divides =>
      obtain ⟨t', ended', quotient', remainder'⟩ := exact
      cases ended.symm.trans ended'
      rw [quotient] at quotient'
      rw [remainder, zero] at remainder'
      refine ⟨fun vanishes => divides (.inl vanishes), ?_⟩
      rw [quotient', ← Int.add_zero (_ * _), remainder', Int.mul_comm]
      exact (Int.mul_tdiv_add_tmod _ _).symm
  · rintro ⟨nonzero, product⟩
    have divides : sign.value divisor ≠ 0 :=
      fun vanishes => nonzero (value_injective (vanishes.trans zero.symm))
    have quotient : quotientOf sign width divisor m = sign.value factor := by
      rw [quotientOf, product, Int.mul_tdiv_cancel _ divides]
    have remainder : remainderOf sign width divisor m = 0 := by
      rw [remainderOf, product, Int.mul_tmod_left]
    rw [quotient, remainder,
      if_neg fun failed => failed.elim nonzero fun outside => outside (fits_value _)]
      at exact
    obtain ⟨t, ended, lower, upper⟩ := exact
    exact ⟨t, ended, value_injective lower, value_injective (upper.trans zero.symm)⟩

theorem divide_reads {host : Host P}
    (ran : (executeIr host [divideInstruction sign src width]).run m = .ok () t) :
    ∃ raw, readCompareOperand m src width.bytes = .ok raw := by
  have first {next : U64 → Step P Unit}
      (ran : (readOperand src width.bytes >>= next).run m.settle = .ok () t) :
      ∃ raw, readCompareOperand m src width.bytes = .ok raw := by
    obtain ⟨raw, m', read, -⟩ := Exec.bind_eq_ok.mp ran
    rw [← settle_readCompareOperand]
    exact ⟨raw, (Exec.read_eq_ok.mp read).1⟩
  cases sign with
  | unsigned | signed => exact first ((executeIr_single fun _ => rfl).symm.trans ran)

/-- At 64 bits a signed division is exact only if its quotient fits. -/
theorem divide_exact (host : Host P) (sign : Signedness) (holds : m.cpu.holds width)
    (read : readCompareOperand m src width.bytes = .ok raw)
    (safe : width = .qword → raw.setWidth width.bits ≠ 0 →
      sign.Fits width.bits (quotientOf sign width (raw.setWidth width.bits) m)) :
    DivideExact sign width (raw.setWidth width.bits) m
      ((executeIr host [divideInstruction sign src width]).run m) := by
  cases sign with
  | unsigned => exact executeIr_div_exact host holds read
  | signed => exact (executeIr_idiv_exact_iff host holds read).mpr safe

/-- The multiplication and the division give back the accumulator, with remainder zero. -/
def Restores (host : Host P) (sign : Signedness) (width : OperandWidth)
    (src divisor : CompareOperand) (m : Machine P) : Prop :=
  ∃ t, (executeIr host [multiplyInstruction sign src width,
    divideInstruction sign divisor width]).run m =
      .ok () t ∧ t.cpu.lower width = m.cpu.lower width ∧ t.cpu.upper width = 0

/-- What the byte division sees: the divisor with the upper half of the product in DL, and a dividend
whose upper half is the old AH. -/
def ByteRestores (sign : Signedness) (divisor : CompareOperand) (raw : U64) (m : Machine P) :
    Prop :=
  let product := productOf sign .byte (raw.setWidth _) m
  ∃ other, readCompareOperand (m.withHigh .byte product) divisor 1 = .ok other ∧
    other.setWidth OperandWidth.byte.bits ≠ 0 ∧
    sign.value (m.cpu.upper .byte ++ product.setWidth OperandWidth.byte.bits) =
      sign.value (m.cpu.lower .byte) * sign.value (other.setWidth OperandWidth.byte.bits)

theorem productOf_value (sign : Signedness) (width : OperandWidth) (multiplier : BitVec width.bits)
    (m : Machine P) :
    sign.value (productOf sign width multiplier m) =
      sign.value (m.cpu.lower width) * sign.value multiplier := by
  have positive : 0 < width.bits := Nat.lt_of_lt_of_le (by decide) width.bits_ge
  exact Signedness.value_ofInt (by omega) (Signedness.fits_mul positive _ _)

/-- For a divisor elsewhere AH has to hold the upper half already. -/
theorem byteRestores_iff (avoids : divisor.Avoids .rdx)
    (again : readCompareOperand m divisor 1 = .ok raw)
    (nonzero : raw.setWidth OperandWidth.byte.bits ≠ 0) :
    ByteRestores sign divisor raw m ↔
      m.cpu.upper .byte = upperHalf (productOf sign .byte (raw.setWidth _) m) := by
  have whole := (split_words (productOf sign .byte (raw.setWidth _) m) _).trans (setWidth_eq _)
  have value := productOf_value sign .byte (raw.setWidth _) m
  rw [ByteRestores, withHigh_reads avoids, again]
  constructor
  · rintro ⟨other, same, -, restored⟩
    cases same
    have found := Signedness.value_injective (restored.trans value.symm)
    exact (append_left_inj _).mp (found.trans whole.symm)
  · intro held
    refine ⟨raw, rfl, nonzero, ?_⟩
    rw [held, ← value]
    exact congrArg sign.value whole

/-- A multiplication and the division by the same multiplier restore the accumulator, except for
bytes: there the multiplication writes the upper half to DL, where the divisor may be, and the
division reads AH. -/
theorem multiply_divide_restores_iff (host : Host P) (sign : Signedness) (width : OperandWidth)
    (src divisor : CompareOperand) (m : Machine P) (raw : U64) (holds : m.cpu.holds width)
    (read : readCompareOperand m src width.bytes = .ok raw)
    (again : readCompareOperand m divisor width.bytes = .ok raw)
    (kept : divisor.Avoids .rax ∧ (width ≠ .byte → divisor.Avoids .rdx))
    (nonzero : raw.setWidth width.bits ≠ 0) :
    (Restores host sign width src divisor m ↔ (width = .byte → ByteRestores sign divisor raw m)) ∧
    (divisor.Avoids .rdx → (Restores host sign width src divisor m ↔
      (width = .byte → m.cpu.upper width = upperHalf (productOf sign width (raw.setWidth width.bits) m)))) := by
  obtain ⟨t, multiplies, multiplied⟩ := executeIr_multiply host sign holds read
  have ran : (executeIr host [multiplyInstruction sign src width, divideInstruction sign divisor width]).run m =
      (executeIr host [divideInstruction sign divisor width]).run t :=
    (executeIr_append [_] [_] m).trans (Exec.bind_of_ok multiplies)
  have holdsStill : t.cpu.holds width := fun full => multiplied.arch.trans (holds full)
  have restores : Restores host sign width src divisor m ↔
      (width = .byte → ByteRestores sign divisor raw m) := by
    rw [Restores, ran]
    by_cases byte : width = .byte
    · subst byte
      have dividend : t.cpu.dividend .byte =
          m.cpu.upper .byte ++ (productOf sign .byte (raw.setWidth _) m).setWidth _ := by
        rw [CpuState.dividend, multiplied.low, multiplied.ah rfl]
      have restored {other : U64} (reread : readCompareOperand t divisor 1 = .ok other) :=
        divideExact_restores_iff (divide_exact host sign holdsStill reread fun full => absurd full (by decide)) (m.cpu.lower .byte)
      rw [dividend] at restored
      rw [ByteRestores, ← multiplied.reads kept.1]
      constructor
      · intro ended _
        obtain ⟨other, reread⟩ := divide_reads ended.choose_spec.1
        exact ⟨other, reread, (restored reread).mp ended⟩
      · intro condition
        obtain ⟨other, reread, divides⟩ := condition rfl
        exact (restored reread).mpr divides
    · have reread : readCompareOperand t divisor width.bytes = .ok raw := by
        rw [multiplied.reads kept.1, withHigh_reads (kept.2 byte), again]
      have product : sign.value (t.cpu.dividend width) = _ :=
        (congrArg sign.value (multiplied.dividend byte)).trans (productOf_value sign width _ m)
      have factor : sign.value (raw.setWidth width.bits) ≠ 0 := fun vanishes =>
        nonzero (value_injective (vanishes.trans (by cases sign <;> simp [value])))
      have exact := divide_exact host sign holdsStill reread fun _ _ => by
        rw [quotientOf, product, Int.mul_tdiv_cancel _ factor]
        exact Signedness.fits_value _
      exact iff_of_true ((divideExact_restores_iff exact _).mpr ⟨nonzero, product⟩) fun is => absurd is byte
  refine ⟨restores, fun avoids => restores.trans ?_⟩
  cases width with
  | byte => exact forall_congr' fun _ => byteRestores_iff avoids again nonzero
  | word | dword | qword =>
    exact iff_of_true (fun is => absurd is (by decide)) fun is => absurd is (by decide)

def multiplying (rax rbx rdx : U64) : Machine barePlatform :=
  bareMachine .x64 (fun | .rax => rax | .rbx => rbx | .rdx => rdx | _ => 0) []

/-- `-5 * 7` on words and back, and `3 * 5` on bytes with the multiplier in DL. -/
theorem multiply_divide_restores_word :
    Restores bareHost .signed .word (.register .rbx) (.register .rbx) (multiplying 0xfffb 7 0) ∧
    (Restores bareHost .unsigned .byte (.register .rdx) (.register .rdx) (multiplying 3 0 5) ↔
      (OperandWidth.byte = .byte → ByteRestores .unsigned (.register .rdx) 5 (multiplying 3 0 5))) :=
  ⟨(multiply_divide_restores_iff bareHost .signed .word (.register .rbx) (.register .rbx) (multiplying 0xfffb 7 0) 7
      nofun rfl rfl ⟨nofun, nofun⟩ (by decide)).1.mpr fun is => absurd is (by decide),
    (multiply_divide_restores_iff bareHost .unsigned .byte (.register .rdx) (.register .rdx) (multiplying 3 0 5) 5
      nofun rfl rfl ⟨nofun, fun wide => absurd rfl wide⟩ (by decide)).1⟩

/-- `0x40 * 8` on bytes: the division sees only the low byte of `0x200`. And `3 * 5` with the
multiplier in DL, where the high byte 0 of the product then is. -/
theorem byte_product_lost :
    (∃ t, (executeIr bareHost [.mulAcc (.register .rbx) 1, .div (.register .rbx) 1]).run (multiplying 0x40 8 0) =
        .ok () t ∧ (multiplying 0x40 8 0).cpu.lower .byte = 0x40 ∧ t.cpu.lower .byte = 0) ∧
    ∃ t, (executeIr bareHost [.mulAcc (.register .rdx) 1, .div (.register .rdx) 1]).run (multiplying 3 0 5) =
        .error ⟨.rcUnimplInsn, "integer divide by zero", []⟩ t :=
  ⟨⟨_, rfl, by decide, by decide⟩, _, rfl⟩

end Casa.Cpu
