import MarkovLogic.Decimal.Binary

/-!
# How decimals are laid out

A `Layout` records the decisions that two formats of the same digits differ in. Numbers whose
leading digit lies between `10 ^ -4` and the layout's bound are written positionally, the others
with an exponent of at least two digits.
-/

namespace MarkovLogic

/-- The decisions of a number format. -/
structure Layout where
  /-- Leading digits from this power of ten on are written with an exponent. -/
  positionalBelow : Int
  /-- A whole number ends in a point and a zero. -/
  pointZero : Bool

namespace Layout

/-- The exponent with its sign and at least two digits. -/
def exponentPart (e : Int) : List Char :=
  let digits := Nat.toDigits 10 e.natAbs
  'e' :: (if e < 0 then '-' else '+') :: List.replicate (2 - digits.length) '0' ++ digits

/-- The digits of a canonical decimal with point or exponent. -/
def write (layout : Layout) (d : Decimal) : List Char :=
  let digits := d.digits
  let e := d.leading
  if -4 ≤ e && e < layout.positionalBelow then
    if e < 0 then '0' :: '.' :: List.replicate (-e - 1).toNat '0' ++ digits
    else
      let whole := e.toNat + 1
      if digits.length ≤ whole then
        digits ++ List.replicate (whole - digits.length) '0' ++
          (if layout.pointZero then ['.', '0'] else [])
      else digits.take whole ++ '.' :: digits.drop whole
  else
    digits.take 1 ++ (if digits.length ≤ 1 then [] else '.' :: digits.drop 1) ++ exponentPart e

/-- A floating-point value under a layout, its digits chosen by `select`. -/
def writeFloat (layout : Layout) (select : Binary → Decimal) (x : Float) : List Char :=
  match Binary.ofFloat? x with
  | none =>
    if x.isNaN then ['n', 'a', 'n']
    else (if signBit x then ['-'] else []) ++ ['i', 'n', 'f']
  | some b => (if signBit x then ['-'] else []) ++ layout.write (select b)

end Layout

end MarkovLogic
