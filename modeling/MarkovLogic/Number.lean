import MarkovLogic.Decimal.Digits
import MarkovLogic.Decimal.Layout

/-!
# Numbers

Weights are given as whole numbers of any size or as floating-point values, and a whole number stays
one until it meets a floating-point value. Converting one that is too large fails with `Overflow`.

A number has a full text, which reads back to it, and a short text of six significant digits for
reports.
-/

namespace MarkovLogic

/-- A whole number too large for a floating-point value. -/
inductive Overflow where
  | tooLarge
deriving DecidableEq, Repr

/-- A whole number or a floating-point value. -/
inductive Number where
  | int (value : Int)
  | real (value : Float)

namespace Number

/-- The nearest floating-point value of a whole number. -/
def realOfInt (n : Int) : Except Overflow Float :=
  let x := Float.ofInt n
  if x.isFinite then .ok x else .error .tooLarge

/-- The number as a floating-point value. -/
def toReal : Number → Except Overflow Float
  | .int n => realOfInt n
  | .real x => .ok x

/-! ## Texts -/

/-- The full text shows the fewest digits that read back, positionally below `10 ^ 16`; a whole
value of the floating-point kind keeps its point. -/
def fullLayout : Layout := ⟨16, true⟩

/-- The short text shows a leading digit below `10 ^ 6` positionally. -/
def shortLayout : Layout := ⟨6, false⟩

/-- The full text of a floating-point value. -/
def realChars (x : Float) : List Char :=
  fullLayout.writeFloat Binary.shortest x

/-- The full text. -/
def chars : Number → List Char
  | .int n => (toString n).toList
  | .real x => realChars x

/-- The full text as a string. -/
def text (n : Number) : String :=
  String.ofList n.chars

/-- The floating-point value at six significant digits. -/
def shortReal (x : Float) : String :=
  String.ofList (shortLayout.writeFloat (·.rounded 6) x)

/-- The text of reports, at six significant digits. -/
def shortText (n : Number) : Except Overflow String :=
  shortReal <$> n.toReal

/-! ## Comparison -/

/-- The whole number and the floating-point value are the same number. -/
def intEqReal (n : Int) (x : Float) : Bool :=
  match Binary.ofFloat? x with
  | none => false
  | some b =>
    let (numerator, denominator) := b.fraction
    n.natAbs * denominator = numerator && (n = 0 || (n < 0) = signBit x)

/-- The numbers are equal in value. Not a number equals nothing, and the zeros are equal. -/
def eqValue : Number → Number → Bool
  | .int m, .int n => m = n
  | .int m, .real x => intEqReal m x
  | .real x, .int n => intEqReal n x
  | .real x, .real y => x == y

instance : BEq Number := ⟨eqValue⟩

/-- Zero of the floating-point kind. -/
def zero : Number := .real 0.0

/-- The value that is no number. -/
def undefined : Number := .real (0.0 / 0.0)

end Number

end MarkovLogic
