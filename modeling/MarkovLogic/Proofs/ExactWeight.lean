import MarkovLogic.Weight
import Mathlib.Algebra.Order.Ring.Defs
import Mathlib.Algebra.Order.Group.Abs

/-!
# Exact weights

The elements of an ordered ring, such as the integers or the rational numbers, are weights whose
arithmetic is exact and never fails. What holds of grounding and reweighting over all such rings
holds of them up to rounding.
-/

namespace MarkovLogic

variable {R : Type} [CommRing R] [LinearOrder R]

/-- The weights of an ordered ring. -/
instance exactWeight : WeightArith R where
  zero := 0
  one := 1
  isNegative w := decide (w < 0)
  neg w := -w
  abs w := |w|
  add v w := .ok (v + w)
  scale w n := .ok (w * n)
  settle w := .ok w

namespace WeightArith

theorem exact_zero : (zero : R) = 0 := rfl

theorem exact_neg (w : R) : neg w = -w := rfl

theorem exact_add (v w : R) : add v w = .ok (v + w) := rfl

theorem exact_settle (w : R) : settle w = .ok w := rfl

end WeightArith

end MarkovLogic
