import Mathlib.Data.List.TakeWhile

/-! Byte strings: literals, decimal numerals and the NUL-terminated view. -/

set_option autoImplicit false

namespace CoroMultiplex.Foundations

abbrev Bytes := List UInt8

/-- Bytes of a literal whose characters all lie below 256. -/
def bytes (text : String) : Bytes := text.toList.map fun char => UInt8.ofNat char.toNat

/-- Base-ten numeral without sign or padding. -/
def decimal (number : Nat) : Bytes :=
  (Nat.toDigits 10 number).map fun char => UInt8.ofNat char.toNat

example : decimal 1024 = bytes "1024" := by decide

/-- A byte with a letter of the ASCII alphabet in lower case. -/
def lower (byte : UInt8) : UInt8 := if 65 ≤ byte ∧ byte ≤ 90 then byte + 32 else byte

example : (bytes "Accept-Encoding").map lower = bytes "accept-encoding" := by decide

/-- What a callee that stops at the first NUL reads of a byte string. -/
def cStr (text : Bytes) : Bytes := text.takeWhile (· != 0)

theorem cStr_append {front : Bytes} (clean : 0 ∉ front) (rest : Bytes) :
    cStr (front ++ rest) = front ++ cStr rest := by
  apply List.takeWhile_append_of_pos
  intro byte member
  have nonzero : byte ≠ 0 := fun same => clean (same ▸ member)
  simpa using nonzero

/-- A NUL inside the front part hides everything behind it. -/
theorem cStr_length_lt {front : Bytes} (dirty : 0 ∈ front) (rest : Bytes) :
    (cStr (front ++ rest)).length < front.length := by
  induction front with
  | nil => cases dirty
  | cons head front ih =>
    by_cases zero : head = 0
    · simp [cStr, zero]
    · have inner : 0 ∈ front := by simpa [Ne.symm zero] using dirty
      have shorter := ih inner
      simp only [cStr] at shorter
      simp [cStr, zero, shorter]

end CoroMultiplex.Foundations
