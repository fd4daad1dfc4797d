import MarkovLogic.Decimal.Binary

/-!
# The selection of digits

The reals nearer to a binary value than to its neighbours form an interval around it, whose ends
belong to it exactly when the significand is even. `shortest` finds the coarsest decimal grid with a
point in that interval and takes the point closest to the value, so that as few digits as possible
are left that read back.

`rounded` rounds the exact value once, to the nearest decimal with the given number of digits; a
half goes to the even neighbour.
-/

namespace MarkovLogic

/-- The whole number nearest to a quotient; a half goes to the even neighbour. -/
def roundHalfEven (numerator denominator : Nat) : Nat :=
  let quotient := numerator / denominator
  let twice := 2 * (numerator % denominator)
  if twice < denominator then quotient
  else if denominator < twice then quotient + 1
  else if quotient % 2 = 0 then quotient else quotient + 1

namespace Binary

/-! ## The fewest digits that read back -/

/-- The interval of a value in units of a quarter of its last place: low end, value, high end. -/
def quarters (b : Binary) : Nat × Nat × Nat :=
  (4 * b.significand - (if b.narrowBelow then 1 else 2), 4 * b.significand, 4 * b.significand + 2)

/-- The common scale of a grid of step `10 ^ k` and of the quarters of a value: a grid point `n` and
a number `t` of quarters compare as `n * first` and `t * second`. -/
def scales (b : Binary) (k : Int) : Nat × Nat :=
  let unit := b.power - 2
  (tens k.toNat * twos (-unit).toNat, twos unit.toNat * tens (-k).toNat)

/-- The point `n * 10 ^ k` rounds to the value. -/
def readsBack (b : Binary) (n : Nat) (k : Int) : Bool :=
  let (low, _, high) := b.quarters
  let (step, quarter) := b.scales k
  let point := n * step
  if b.significand % 2 = 0 then low * quarter ≤ point && point ≤ high * quarter
  else low * quarter < point && point < high * quarter

/-- The point of the grid `10 ^ k` that is closest to the value among those that round to it. A
tie goes to the even point. -/
def onGrid? (b : Binary) (k : Int) : Option Nat :=
  let (step, quarter) := b.scales k
  let value := 4 * b.significand * quarter
  let below := value / step
  match b.readsBack below k, b.readsBack (below + 1) k with
  | true, false => some below
  | false, true => some (below + 1)
  | false, false => none
  | true, true =>
    let twice := 2 * value
    let middle := (2 * below + 1) * step
    if twice < middle then some below
    else if middle < twice then some (below + 1)
    else some (if below % 2 = 0 then below else below + 1)

/-- The exact value as a decimal. -/
def exact (b : Binary) : Decimal :=
  ⟨b.significand * twos b.power.toNat * Nat.pow 5 (-b.power).toNat, -((-b.power).toNat : Int)⟩

/-- The decimal with the fewest digits that rounds to the value, and the closest of those. -/
def shortest (b : Binary) : Decimal :=
  if b.significand = 0 then ⟨0, 0⟩
  else
    let (numerator, denominator) := b.fraction
    let lead := leadingPower numerator denominator
    let found := (List.range 17).findSome? fun (further : Nat) =>
      let k := lead - further
      (b.onGrid? k).map fun n => Decimal.canonical ⟨n, k⟩
    found.getD b.exact.canonical

/-! ## A number of significant digits -/

/-- The value rounded to `places` significant digits. -/
def rounded (b : Binary) (places : Nat) : Decimal :=
  if b.significand = 0 then ⟨0, 0⟩
  else
    let (numerator, denominator) := b.fraction
    let k := leadingPower numerator denominator + 1 - places
    let n := roundHalfEven (numerator * tens (-k).toNat) (denominator * tens k.toNat)
    Decimal.canonical ⟨n, k⟩

end Binary

end MarkovLogic
