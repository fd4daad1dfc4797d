import MarkovLogic.Number

/-!
# Weight arithmetic

Grounding and reweighting add weights, multiply them by frequencies and compare them with zero, and
do no other arithmetic. `WeightArith` names these operations, so that the same definitions run on
`Number` and can be studied over exact numbers. The operations that may need a whole number as a
floating-point value can fail.
-/

namespace MarkovLogic

/-- The arithmetic of weights. -/
class WeightArith (α : Type) where
  /-- The weight that sums start from. -/
  zero : α
  one : α
  isNegative : α → Bool
  neg : α → α
  abs : α → α
  add : α → α → Except Overflow α
  /-- A weight times a frequency. -/
  scale : α → Int → Except Overflow α
  /-- The weight in the form in which networks keep hard weights and learned weights. -/
  settle : α → Except Overflow α

namespace Number

/-- The sum; it is whole only if both numbers are. -/
def add : Number → Number → Except Overflow Number
  | .int m, .int n => .ok (.int (m + n))
  | m, n => do
    let x ← m.toReal
    let y ← n.toReal
    return .real (x + y)

/-- The number times a frequency. -/
def scale : Number → Int → Except Overflow Number
  | .int m, n => .ok (.int (m * n))
  | .real x, n => do return .real (x * (← realOfInt n))

/-- The number is below zero; not a number is not. -/
def isNegative : Number → Bool
  | .int n => n < 0
  | .real x => x < 0.0

/-- The number is above zero; not a number is not. -/
def isPositive : Number → Bool
  | .int n => 0 < n
  | .real x => 0.0 < x

instance : WeightArith Number where
  zero := .real 0.0
  one := .real 1.0
  isNegative := isNegative
  neg
    | .int n => .int (-n)
    | .real x => .real (-x)
  abs
    | .int n => .int n.natAbs
    | .real x => .real x.abs
  add := add
  scale := scale
  settle n := .real <$> n.toReal

end Number

end MarkovLogic
