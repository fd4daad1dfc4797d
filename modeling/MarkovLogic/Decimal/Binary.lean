import MarkovLogic.Decimal.Basic

/-!
# Binary floating-point values

A finite value is a whole significand times a power of two. `Binary.ofFloat?` reads both off the
bits, and `Binary.fraction` is the value as a quotient of whole numbers.
-/

namespace MarkovLogic

/-- The magnitude `significand * 2 ^ power` of a finite value. -/
structure Binary where
  significand : Nat
  power : Int
  /-- The gap to the value below is half the gap to the value above. -/
  narrowBelow : Bool
deriving DecidableEq, Repr

namespace Binary

/-- The magnitude of a value given by its 64 bits, if it is finite. -/
def ofBits? (bits : Nat) : Option Binary :=
  let field : Nat := bits / twos 52 % twos 11
  let tail : Nat := bits % twos 52
  if field = 2047 then none
  else if field = 0 then some ⟨tail, -1074, false⟩
  else some ⟨twos 52 + tail, (field : Int) - 1075, tail = 0 && field ≠ 1⟩

/-- The magnitude of a finite value. -/
def ofFloat? (x : Float) : Option Binary :=
  ofBits? x.toBits.toNat

/-- Numerator and denominator of the magnitude. -/
def fraction (b : Binary) : Nat × Nat :=
  (b.significand * twos b.power.toNat, twos (-b.power).toNat)

end Binary

/-- The sign bit is set; minus zero has it too. -/
def signBit (x : Float) : Bool :=
  x.toBits.toNat / twos 63 = 1

end MarkovLogic
