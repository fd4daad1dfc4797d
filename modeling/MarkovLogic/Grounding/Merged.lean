import MarkovLogic.Weight
import MarkovLogic.Table
import MarkovLogic.Clause

/-!
# Merged constraints

Groundings with the same literals merge into one constraint. Its weight is the sum of the weights
that its groundings contribute, it is hard as soon as a hard clause contributes, and its sources
count for each formula how often it contributed; a count that comes to zero is dropped. A clause of
negative weight can be replaced: each of its literals then contributes its negation, with the weight
and the count inverted.
-/

namespace MarkovLogic

/-- What a grounding adds to the constraint with the given literals. -/
structure Contribution (α : Type) where
  literals : List Int
  /-- The weight of a soft contribution; a hard one has none. -/
  weight : Option α
  frequency : Int
deriving DecidableEq, Repr

/-- A constraint while groundings merge into it. -/
structure Merged (α : Type) where
  weight : α
  isHard : Bool
  sources : Table Nat Int

namespace Merged

variable {α : Type} [WeightArith α]

/-- A constraint without contributions. -/
def empty : Merged α := ⟨WeightArith.zero, false, Table.empty⟩

/-- The counts of formulas after a contribution. A count that comes to zero is dropped. -/
def count (sources : Table Nat Int) (formula : Nat) (frequency : Int) : Table Nat Int :=
  let total := (sources.get? formula).getD 0 + frequency
  if total = 0 then sources.erase formula else sources.insert formula total

/-- The constraint with one more contribution of a formula. -/
def add (m : Merged α) (formula : Nat) (c : Contribution α) : Except Overflow (Merged α) := do
  let sources := count m.sources formula c.frequency
  match c.weight with
  | none => return { m with isHard := true, sources }
  | some w => return { m with weight := (← WeightArith.add m.weight w), sources }

end Merged

/-- Merged constraints by their literals, in the order of the first contribution. -/
abbrev MergeTable (α : Type) : Type := Table (List Int) (Merged α)

namespace MergeTable

variable {α : Type} [WeightArith α]

/-- The table with one more contribution of a formula. -/
def add (table : MergeTable α) (formula : Nat) (c : Contribution α) :
    Except Overflow (MergeTable α) := do
  let merged ← ((table.get? c.literals).getD .empty).add formula c
  return Table.insert table c.literals merged

/-- One more than the sum of the magnitudes of all soft weights. -/
def defaultHardWeight (table : MergeTable α) : Except Overflow α := do
  let soft := (Table.values table).filter fun m => !m.isHard
  let total ← soft.foldlM (fun sum m => WeightArith.add sum (WeightArith.abs m.weight))
    WeightArith.zero
  WeightArith.add WeightArith.one total

end MergeTable

/-- What a kept grounding of a clause contributes. -/
def Clause.contributions {α : Type} [WeightArith α] (c : Clause α) (noNegativeWeights : Bool)
    (literals : List Int) : List (Contribution α) :=
  match c.weight with
  | none => [⟨literals, none, 1⟩]
  | some w =>
    if noNegativeWeights && WeightArith.isNegative w then
      literals.map fun l => ⟨[-l], some (WeightArith.neg w), -1⟩
    else [⟨literals, some w, 1⟩]

end MarkovLogic
