import MarkovLogic.Network.Edit
import MarkovLogic.Text.Display

/-!
# Reweighting

Learning yields a new weight for each formula. Reweighting computes the weight of every constraint
from its recorded frequencies instead of grounding again: the weight is the sum of formula weight
times frequency. A hard formula contributes the network's hard weight, and a policy says how that
goes together with soft contributions.

All inputs are checked before any weight changes. The computation itself can only fail where a
frequency is too large for a floating-point value; the constraints before that one have their new
weights then.
-/

namespace MarkovLogic

/-- How hard and soft contributions to one constraint combine. -/
inductive MixedPolicy where
  /-- One hard contribution makes the weight the hard weight. -/
  | hardWins
  /-- A hard contribution sets the running weight to the hard weight, and soft contributions after
  it are added. -/
  | sequential
deriving DecidableEq, Repr

namespace MixedPolicy

/-- The name of a policy. -/
def name : MixedPolicy → String
  | .hardWins => "hard_wins"
  | .sequential => "sequential"

/-- All policies. -/
def all : List MixedPolicy := [.hardWins, .sequential]

/-- The policy with the given name. -/
def ofName? (s : String) : Option MixedPolicy :=
  all.find? (·.name = s)

/-- The message that no policy has the given name. -/
def unknownMessage (s : String) : String :=
  s!"{Text.quoted s} is not a valid MixedHardPolicy"

end MixedPolicy

/-- Why a network is not reweighted. -/
inductive ReweightError where
  | noDependencies
  | lengths (weights flags : Nat)
  | noEntry (constraint : Int)
  | missingFormula (formula weights : Nat)
  | overflow (e : Overflow)
deriving DecidableEq, Repr

/-- The wording of an error. -/
def ReweightError.message : ReweightError → String
  | .noDependencies =>
    "network was grounded without a dependency map; cannot reconstruct weights"
  | .lengths weights flags => s!"{weights} formula weights but {flags} hard flags"
  | .noEntry c => s!"constraint {c} has no dependency map entry"
  | .missingFormula formula weights =>
    s!"dependency map references formula {formula} but only {weights} weights were given"
  | .overflow _ => "a number is too large"

/-- New weights of the formulas, and which formulas are hard. -/
structure FormulaWeights (α : Type) where
  weights : List α
  hardFlags : List Bool

namespace FormulaWeights

variable {α : Type} [WeightArith α] (f : FormulaWeights α)

/-- The formula is flagged hard. -/
def isHard (formula : Nat) : Bool :=
  f.hardFlags[formula]?.getD false

/-- The new weight of the formula. -/
def weight (formula : Nat) : α :=
  f.weights[formula]?.getD WeightArith.zero

/-- One contribution to the running weight of a constraint, which comes with the mark whether a hard
contribution has been met. -/
def step (weightHard : α) (policy : MixedPolicy) (state : Bool × α) (entry : Nat × Int) :
    Except Overflow (Bool × α) :=
  if f.isHard entry.1 then .ok (true, weightHard)
  else if policy = .sequential || !state.1 then do
    let part ← WeightArith.scale (f.weight entry.1) entry.2
    return (state.1, ← WeightArith.add state.2 part)
  else .ok state

/-- The weight of a constraint with the given frequencies. -/
def combine (weightHard : α) (policy : MixedPolicy) (isHard : Bool)
    (frequencies : List (Nat × Int)) : Except Overflow α := do
  let start := if isHard then weightHard else WeightArith.zero
  let (hard, total) ← frequencies.foldlM (f.step weightHard policy) (isHard, start)
  return if hard && policy = .hardWins then weightHard else total

end FormulaWeights

namespace Network

variable {α : Type} [WeightArith α]

/-- The first constraint, in ascending order, without recorded frequencies. -/
def withoutEntry? (net : Network α) (deps : DependencyMap) : Option Int :=
  (net.orderedConstraints.find? fun c => !deps.contains c.id).map (·.id)

/-- Checks the inputs of a reweighting, and returns the dependencies and the settled weights. -/
def checkReweight (net : Network α) (weights : List α) (hardFlags : List Bool) :
    Except ReweightError (DependencyMap × FormulaWeights α) :=
  match net.dependencies with
  | none => .error .noDependencies
  | some deps => do
    let settled ← (weights.mapM WeightArith.settle).mapError .overflow
    if settled.length ≠ hardFlags.length then throw (.lengths settled.length hardFlags.length)
    if let some id := net.withoutEntry? deps then throw (.noEntry id)
    if let some formula := deps.formulaIndices.max? then
      if settled.length ≤ formula then throw (.missingFormula formula settled.length)
    return (deps, ⟨settled, hardFlags⟩)

/-- Gives the constraints their new weights one after the other, up to the first that fails. -/
def assignWeights (deps : DependencyMap) (f : FormulaWeights α) (policy : MixedPolicy) :
    List (Constraint α) → Network α → Network α × Except Overflow Unit
  | [], net => (net, .ok ())
  | c :: rest, net =>
    let frequencies := ((deps.entry? c.id).map Table.toList).getD []
    match f.combine net.weightHard policy c.isHard frequencies with
    | .error e => (net, .error e)
    | .ok w => assignWeights deps f policy rest (net.putConstraint { c with weight := w })

/-- The network with the weight of every constraint computed from new formula weights, and the
number of constraints. -/
def reweight (net : Network α) (weights : List α) (hardFlags : List Bool)
    (policy : MixedPolicy) : Network α × Except ReweightError Nat :=
  match net.checkReweight weights hardFlags with
  | .error e => (net, .error e)
  | .ok (deps, f) =>
    let (net', result) := assignWeights deps f policy net.orderedConstraints net
    (net', (result.mapError .overflow).map fun _ => net.constraints.length)

end Network

end MarkovLogic
