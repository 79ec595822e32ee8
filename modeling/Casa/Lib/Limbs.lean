import Mathlib.Data.Nat.Digits.Lemmas
import Mathlib.Tactic.Ring

/-! Addition of numbers held as lists of limbs, least significant limb first.
A limb adds the flag that the limb below it left; the rule by which it sets its
own flag is a parameter, so that a wrong rule can be compared with the right one. -/
namespace Limbs
open Nat
variable {B : Nat} {out : Nat → Nat → Bool → Bool} {c d : Bool} {ps : List (Nat × Nat)} {zs : List Nat}

def carryOut (B x y : Nat) (c : Bool) : Bool := B ≤ x + y + c.toNat

/-- A run over the limbs of two numbers, from the flag `c` to the flag `d`. -/
inductive AddRun (B : Nat) (out : Nat → Nat → Bool → Bool) :
    Bool → List (Nat × Nat) → List Nat → Bool → Prop where
  | nil (c : Bool) : AddRun B out c [] [] c
  | cons {x y : Nat} {c d : Bool} {ps : List (Nat × Nat)} {zs : List Nat} :
      AddRun B out (out x y c) ps zs d → AddRun B out c ((x, y) :: ps) ((x + y + c.toNat) % B :: zs) d

/-- The number that two lists of limbs and an incoming carry add up to. -/
def total (B : Nat) (ps : List (Nat × Nat)) (c : Bool) : Nat :=
  Nat.ofDigits B (ps.map (·.1)) + Nat.ofDigits B (ps.map (·.2)) + c.toNat

/-- The limbs are the sum modulo the word, and the flag is its carry. -/
def Exact (B : Nat) (ps : List (Nat × Nat)) (c : Bool) (zs : List Nat) (d : Bool) : Prop :=
  Nat.ofDigits B zs = total B ps c % B ^ ps.length ∧ d = decide (B ^ ps.length ≤ total B ps c)

/-- The rule sets the true carry at every limb of the sum. -/
def Agrees (B : Nat) (out : Nat → Nat → Bool → Bool) : Bool → List (Nat × Nat) → Prop
  | _, [] => True
  | c, (x, y) :: ps => out x y c = carryOut B x y c ∧ Agrees B out (carryOut B x y c) ps

theorem agrees_carryOut (c : Bool) (ps : List (Nat × Nat)) : Agrees B (carryOut B) c ps := by
  induction ps generalizing c with
  | nil => trivial
  | cons p ps ih => exact ⟨rfl, ih _⟩

/-- The lowest limb and the carry it passes on. -/
theorem limb_split (left : x < B) (right : y < B) (c : Bool) :
    x + y + c.toNat = (x + y + c.toNat) % B + B * (carryOut B x y c).toNat := by
  have bit := c.toNat_le
  by_cases carries : B ≤ x + y + c.toNat
  · simp only [carryOut, carries, decide_true, Bool.toNat_true]
    rw [mod_eq_sub_mod carries, mod_eq_of_lt (by omega)]
    omega
  · simp only [carryOut, carries, decide_false, Bool.toNat_false]
    rw [mod_eq_of_lt (by omega)]
    omega

theorem total_cons (left : x < B) (right : y < B) (ps : List (Nat × Nat)) (c : Bool) :
    total B ((x, y) :: ps) c = (x + y + c.toNat) % B + B * total B ps (carryOut B x y c) := by
  have limb := limb_split left right c
  simp only [total, List.map_cons, ofDigits_cons, mul_add]
  omega

theorem exact_cons (left : x < B) (right : y < B) :
    Exact B ((x, y) :: ps) c ((x + y + c.toNat) % B :: zs) d ↔
      Exact B ps (carryOut B x y c) zs d := by
  have positive : 0 < B := by omega
  have low := mod_lt (x + y + c.toNat) positive
  rw [Exact, Exact, total_cons left right, List.length_cons, pow_succ', ofDigits_cons]
  generalize total B ps (carryOut B x y c) = rest
  generalize (x + y + c.toNat) % B = z at low
  have split : (z + B * rest) % (B * B ^ ps.length) = z + B * (rest % B ^ ps.length) := by
    rw [mod_mul, add_mul_mod_self_left, mod_eq_of_lt low, add_mul_div_left _ _ positive,
      div_eq_of_lt low, zero_add]
  have carry : B * B ^ ps.length ≤ z + B * rest ↔ B ^ ps.length ≤ rest := by
    rw [mul_comm B (B ^ _), ← le_div_iff_mul_le positive, add_mul_div_left _ _ positive,
      div_eq_of_lt low, zero_add]
  rw [split, add_left_cancel_iff, Nat.mul_right_inj positive.ne', decide_eq_decide.mpr carry]

/-- An exact result determines the flag that its run started from. -/
theorem AddRun.start_eq (base : 1 < B) (run : AddRun B out o ps zs d) (exact : Exact B ps c zs d) :
    o = c := by
  obtain ⟨limbs, carry⟩ := exact
  cases run with
  | nil => cases c <;> simpa [total] using carry
  | @cons x y _ _ ps zs rest =>
    have sum : total B ((x, y) :: ps) c = x + y + c.toNat + B * total B ps false := by
      simp only [total, List.map_cons, ofDigits_cons, mul_add, Bool.toNat_false]
      omega
    -- both lowest limbs are the lowest limb of the number the limbs stand for
    have lowest : (x + y + o.toNat) % B = (x + y + c.toNat) % B := by
      have digit := congrArg (· % B) limbs
      simpa only [sum, ofDigits_cons, List.length_cons, pow_succ', mod_mul_right_mod,
        add_mul_mod_self_left, mod_mod] using digit
    have flags : o.toNat % B = c.toNat % B := Nat.ModEq.add_left_cancel' (x + y) lowest
    cases o <;> cases c <;> simp_all

/-- A run is exact if and only if its rule sets the true carry at every limb. -/
theorem AddRun.exact_iff (base : 1 < B) (run : AddRun B out c ps zs d)
    (digits : ∀ p ∈ ps, p.1 < B ∧ p.2 < B) : Exact B ps c zs d ↔ Agrees B out c ps := by
  induction run with
  | nil c =>
    simp only [Agrees, iff_true]
    exact ⟨by simp [mod_one], by cases c <;> simp [total]⟩
  | @cons x y c d ps zs rest ih =>
    obtain ⟨left, right⟩ := digits (x, y) List.mem_cons_self
    have lower := ih fun p member => digits p (List.mem_cons_of_mem _ member)
    rw [exact_cons left right]
    constructor
    · intro exact
      have flag : out x y c = carryOut B x y c := rest.start_eq base exact
      rw [flag] at lower
      exact ⟨flag, lower.mp exact⟩
    · rintro ⟨flag, agrees⟩
      rw [flag] at lower
      exact lower.mpr agrees

theorem AddRun.exact (base : 1 < B) (run : AddRun B (carryOut B) c ps zs d)
    (digits : ∀ p ∈ ps, p.1 < B ∧ p.2 < B) : Exact B ps c zs d :=
  (run.exact_iff base digits).mpr (agrees_carryOut c ps)

theorem ofDigits_map_lt (base : 1 < B) (digits : ∀ p ∈ ps, f p < B) :
    ofDigits B (ps.map f) < B ^ ps.length := by
  rw [← List.length_map f]
  refine ofDigits_lt_base_pow_length base fun x member => ?_
  obtain ⟨p, found, rfl⟩ := List.mem_map.mp member
  exact digits p found

/-- Modular addition undone: it carries where the difference borrows. -/
theorem difference_of_sum {r y k modulus a : Nat} (left : r < modulus) (right : y < modulus)
    (bit : k ≤ 1) (sum : a = (r + y + k) % modulus) :
    (r : Int) = (a - y - k : Int) % modulus ∧ (modulus ≤ r + y + k ↔ a < y + k) := by
  by_cases carries : modulus ≤ r + y + k
  · rw [mod_eq_sub_mod carries, mod_eq_of_lt (by omega)] at sum
    have difference : (a - y - k : Int) = r + modulus * (-1) := by omega
    rw [difference, Int.add_mul_emod_self_left, Int.emod_eq_of_lt (by omega) (by omega)]
    exact ⟨rfl, by omega⟩
  · rw [mod_eq_of_lt (by omega)] at sum
    have difference : (a - y - k : Int) = r := by omega
    rw [difference, Int.emod_eq_of_lt (by omega) (by omega)]
    exact ⟨rfl, by omega⟩

/-- Read from its results, an addition is a subtraction: the flag is the borrow. -/
theorem Exact.difference (base : 1 < B) (exact : Exact B ps c zs d)
    (digits : ∀ p ∈ ps, p.1 < B ∧ p.2 < B) :
    ((ofDigits B (ps.map (·.1)) : Nat) : Int) =
        (ofDigits B zs - ofDigits B (ps.map (·.2)) - c.toNat : Int) % (B ^ ps.length : Nat) ∧
      d = decide (ofDigits B zs < ofDigits B (ps.map (·.2)) + c.toNat) := by
  obtain ⟨limbs, carry⟩ := exact
  have left := ofDigits_map_lt base fun p member => (digits p member).1
  have right := ofDigits_map_lt base fun p member => (digits p member).2
  obtain ⟨difference, borrow⟩ := difference_of_sum left right c.toNat_le limbs
  exact ⟨difference, carry.trans (decide_eq_decide.mpr borrow)⟩

end Limbs
