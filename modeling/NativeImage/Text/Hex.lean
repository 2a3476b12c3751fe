/-!
# Hexadecimal

Numbers in lowercase hexadecimal digits.

## Main definitions

- `Hex.digit`, `Hex.digits` — a number of fixed width
- `Hex.value?` — the number of a digit

## Main statements

- `Hex.value?_digit` — a written digit reads back
-/

namespace NativeImage.Hex

/-- The lowercase hexadecimal digit of a number below sixteen. -/
def digit (value : Nat) : Char :=
  if value < 10 then Char.ofNat (48 + value) else Char.ofNat (87 + value)

/-- The last `width` hexadecimal digits of a number, the most significant first. -/
def digits : (width value : Nat) → List Char
  | 0, _ => []
  | width + 1, value => digits width (value / 16) ++ [digit (value % 16)]

@[simp] theorem length_digits (width value : Nat) : (digits width value).length = width := by
  induction width generalizing value with
  | zero => rfl
  | succ width ih => simp [digits, ih]

/-- The number of a lowercase hexadecimal digit. -/
def value? (c : Char) : Option Nat :=
  if '0' ≤ c ∧ c ≤ '9' then some (c.toNat - 48)
  else if 'a' ≤ c ∧ c ≤ 'f' then some (c.toNat - 87)
  else none

theorem value?_digit {value : Nat} (small : value < 16) : value? (digit value) = some value := by
  have all : ∀ value : Fin 16, value? (digit value) = some value.val := by decide
  exact all ⟨value, small⟩

end NativeImage.Hex
