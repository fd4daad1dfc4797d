/-!
# Decimals

A decimal is a coefficient times a power of ten. The selection of digits (`Decimal.Digits`) ends in
a decimal without trailing zeros, and `Decimal.Layout` writes it.
-/

namespace MarkovLogic

/-- A power of two. -/
def twos (e : Nat) : Nat :=
  Nat.pow 2 e

/-- A power of ten. -/
def tens (e : Nat) : Nat :=
  Nat.pow 10 e

/-- The number `coefficient * 10 ^ exponent`. -/
structure Decimal where
  coefficient : Nat
  exponent : Int
deriving DecidableEq, Repr

namespace Decimal

/-- Zeros at the end of a coefficient moved into the exponent, at most `fuel` of them. -/
def stripZeros : Nat → Nat → Int → Decimal
  | 0, c, e => ⟨c, e⟩
  | fuel + 1, c, e => if c % 10 = 0 then stripZeros fuel (c / 10) (e + 1) else ⟨c, e⟩

/-- The same number with no zero at the end of the coefficient; zero is `0 * 10 ^ 0`. -/
def canonical (d : Decimal) : Decimal :=
  if d.coefficient = 0 then ⟨0, 0⟩
  else stripZeros (Nat.toDigits 10 d.coefficient).length d.coefficient d.exponent

/-- The digits of the coefficient. -/
def digits (d : Decimal) : List Char :=
  Nat.toDigits 10 d.coefficient

/-- The power of ten of the leading digit. -/
def leading (d : Decimal) : Int :=
  d.exponent + d.digits.length - 1

end Decimal

/-- The power of ten of the leading digit of a positive fraction: the largest `e` with
`10 ^ e ≤ numerator / denominator`. -/
def leadingPower (numerator denominator : Nat) : Int :=
  let quotient := numerator / denominator
  if quotient ≠ 0 then (Nat.toDigits 10 quotient).length - 1
  else
    let inverse := (denominator + numerator - 1) / numerator
    Int.negOfNat (Nat.toDigits 10 (inverse - 1)).length

end MarkovLogic
