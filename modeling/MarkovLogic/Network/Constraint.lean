import MarkovLogic.Weight
import MarkovLogic.Text.Display

/-!
# Ground atoms and constraints

A ground atom has a number and a truth value. A literal is a signed atom number: `7` is atom 7 and
`-7` its negation. A constraint is a weighted disjunction of literals. Atoms and constraints are
equal when their numbers are.
-/

namespace MarkovLogic

/-- A numbered atom with the truth value that a search assigns to it. -/
structure GroundAtom where
  id : Int
  state : Bool
deriving DecidableEq, Repr

/-- A weighted disjunction of signed atom numbers. -/
structure Constraint (α : Type) where
  id : Int
  literals : List Int
  weight : α
  isHard : Bool
deriving DecidableEq, Repr

namespace GroundAtom

/-- The atoms have the same number. -/
def same (a b : GroundAtom) : Bool :=
  a.id = b.id

/-- The atom as reports show it. -/
def text (a : GroundAtom) : String :=
  s!"GroundAtom({a.id})"

/-- The atom that stands for every unknown one. -/
def absent : GroundAtom := ⟨0, false⟩

end GroundAtom

namespace Constraint

variable {α : Type}

/-- The constraints have the same number. -/
def same (c d : Constraint α) : Bool :=
  c.id = d.id

/-- The number of literals. -/
def size (c : Constraint α) : Nat :=
  c.literals.length

/-- There is exactly one literal. -/
def isUnit (c : Constraint α) : Bool :=
  c.literals.length = 1

/-- A literal is true under an assignment that gives its atom a value. -/
def holds (truth : Nat → Option Bool) (literal : Int) : Option Bool :=
  (truth literal.natAbs).map (· == decide (0 < literal))

/-- Some literal is true. The literals are looked at in order until one is; the answer is missing if
an atom without a value comes first. -/
def isSatisfied (c : Constraint α) (truth : Nat → Option Bool) : Option Bool :=
  c.literals.anyM (holds truth)

/-- The weight is above zero. -/
def isPositive (c : Constraint Number) : Bool :=
  c.weight.isPositive

/-- The weight column: the short text of the weight, or that the constraint is hard. -/
def weightText (c : Constraint Number) : Except Overflow String :=
  if c.isHard then .ok "hard" else c.weight.shortText

/-- The constraint as reports show it. -/
def text (c : Constraint Number) : Except Overflow String := do
  let body := Text.joined " v " (c.literals.map fun l => toString l)
  let weight ← c.weightText
  return s!"Constraint({c.id}: {body} [{weight}])"

/-- The constraint that stands for every unknown one. -/
def absent : Constraint Number := ⟨-1, [0], .undefined, true⟩

end Constraint

end MarkovLogic
