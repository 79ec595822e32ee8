import Casa.Lib.Exec

/-! Error values of the emulator (error.rs, reason.rs). Only the reason codes
that the modelled functions raise are listed. -/
namespace Casa

inductive ReasonCode where
  | rcUnimplInsn
  | rcInvalidState
  | rcBufferLimitExceeded
  | halted

structure AppError where
  code : ReasonCode
  message : String
  reproductionHints : List String := []

/-- The `#x` number format: lowercase hexadecimal digits after `0x`. -/
def hex (value : BitVec w) : String := "0x" ++ String.ofList (Nat.toDigits 16 value.toNat)

end Casa
