import Casa.Lib.MachineInt

/-! The little-endian bytes of a word: each bit of the word is a bit of one byte, and
the word comes back from its bytes. -/
namespace MachineInt
open BitVec

theorem toLeBytes_length (n : Nat) (x : BitVec w) : (toLeBytes n x).length = n := by
  simp [toLeBytes]

/-- Each bit of a little-endian value is a bit of one byte. -/
theorem getLsbD_fromLeBytes_byte :
    (fromLeBytes W bytes).getLsbD i =
      (decide (i < W) && (bytes.getD (i / 8) 0).getLsbD (i % 8)) := by
  induction bytes generalizing i with
  | nil => simp [fromLeBytes]
  | cons byte rest ih =>
    have step : fromLeBytes W (byte :: rest) = (fromLeBytes W rest <<< 8) ||| byte.setWidth W := rfl
    rw [step, getLsbD_or, getLsbD_shiftLeft, ih, getLsbD_setWidth]
    by_cases low : i < 8
    · have first : i / 8 = 0 := by omega
      have bit : i % 8 = i := by omega
      simp [low, first, bit]
    · have later : i / 8 = (i - 8) / 8 + 1 := by omega
      have bit : i % 8 = (i - 8) % 8 := by omega
      have outside : byte.getLsbD i = false := getLsbD_of_ge _ _ (by omega)
      rw [later, bit, outside]
      by_cases fits : i < W
      · have fits' : i - 8 < W := by omega
        simp [low, fits']
      · simp [fits]

theorem getLsbD_fromLeBytes :
    (fromLeBytes W (toLeBytes n x)).getLsbD i =
      (decide (i < W) && decide (i < 8 * n) && x.getLsbD i) := by
  rw [getLsbD_fromLeBytes_byte, Bool.and_assoc]
  congr 1
  have position : 8 * (i / 8) + i % 8 = i := Nat.div_add_mod i 8
  have bit : i % 8 < 8 := Nat.mod_lt _ (by decide)
  by_cases inside : i < 8 * n
  · have within : i / 8 < n := by omega
    simp [toLeBytes, within, inside, bit, position]
  · have past : n ≤ i / 8 := by omega
    simp [toLeBytes, past, inside]

theorem fromLeBytes_toLeBytes :
    fromLeBytes W (toLeBytes n x) = (x.setWidth (8 * n)).setWidth W := by
  apply eq_of_getLsbD_eq
  intro i _
  rw [getLsbD_fromLeBytes, getLsbD_setWidth, getLsbD_setWidth, Bool.and_assoc]

theorem toLeBytes_fromLeBytes (fits : 8 * bytes.length ≤ W) :
    toLeBytes bytes.length (fromLeBytes W bytes) = bytes := by
  apply List.ext_getElem
  · simp [toLeBytes]
  intro i _ inside
  simp only [toLeBytes, List.getElem_map, List.getElem_range]
  apply eq_of_getLsbD_eq
  intro j bound
  have position : (8 * i + j) / 8 = i := by omega
  have bit : (8 * i + j) % 8 = j := by omega
  have below : 8 * i + j < W := by omega
  rw [getLsbD_setWidth, getLsbD_ushiftRight, getLsbD_fromLeBytes_byte, position, bit,
    List.getD_eq_getElem _ _ inside]
  simp [bound, below]

end MachineInt
