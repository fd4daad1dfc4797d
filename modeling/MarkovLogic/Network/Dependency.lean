import MarkovLogic.Number
import MarkovLogic.Table

/-!
# Dependencies of constraints on formulas

A `DependencyMap` records for each constraint which formulas produced it and how often. A negative
frequency says that the formula's weight was inverted when the constraint was produced.
`constraintsOf` looks a formula up in the inverted table.

Outside data comes as pairs (`ofEntries`), where numbers equal in value are the same key.
-/

namespace MarkovLogic

/-- Frequencies of formulas by constraint, in recording order. -/
structure DependencyMap where
  entries : Table Int (Table Nat Int)

/-- What is wrong with recorded dependencies. -/
inductive DependencyError where
  | formulaIndex (constraint : Int) (got : Option Number)
  | frequency (constraint : Int) (got : Option Number)

/-- A number as messages show it; it may be missing. -/
def shownNumber : Option Number → String
  | some n => n.text
  | none => "None"

/-- The wording of an error. -/
def DependencyError.message : DependencyError → String
  | .formulaIndex c got =>
    s!"constraint {c}: formula index must be a non-negative int, got {shownNumber got}"
  | .frequency c got =>
    s!"constraint {c}: frequency must be a non-zero int, got {shownNumber got}"

namespace DependencyMap

/-- The pairs with the last value of each key, at the place of its first mention. Keys are equal
when their values are. -/
def mergePairs (pairs : List (Option Number × Option Number)) :
    List (Option Number × Option Number) :=
  pairs.foldl (fun merged (k, a) =>
    if merged.any fun e => e.1 == k then merged.map fun e => if e.1 == k then (e.1, a) else e
    else merged ++ [(k, a)]) []

/-- A formula index is a whole number that is not negative. -/
def formulaIndex? : Option Number → Option Nat
  | some (.int (.ofNat n)) => some n
  | _ => none

/-- A frequency is a whole number other than zero. -/
def frequency? : Option Number → Option Int
  | some (.int n) => if n = 0 then none else some n
  | _ => none

/-- The frequencies of one constraint. -/
def checkFrequencies (constraint : Int) (pairs : List (Option Number × Option Number)) :
    Except DependencyError (Table Nat Int) :=
  (mergePairs pairs).foldlM (fun table (formula, frequency) =>
    match formulaIndex? formula with
    | none => .error (.formulaIndex constraint formula)
    | some f =>
      match frequency? frequency with
      | none => .error (.frequency constraint frequency)
      | some n => .ok (table.insert f n)) Table.empty

/-- The dependencies given as pairs. -/
def ofEntries (entries : List (Int × List (Option Number × Option Number))) :
    Except DependencyError DependencyMap := do
  let table ← (Table.ofList entries).toList.foldlM (fun table (c, pairs) => do
    return table.insert c (← checkFrequencies c pairs)) Table.empty
  return ⟨table⟩

variable (deps : DependencyMap)

/-- The number of constraints with an entry. -/
def size : Nat :=
  deps.entries.size

/-- The constraint has an entry. -/
def contains (constraint : Int) : Bool :=
  deps.entries.contains constraint

/-- The frequencies recorded for a constraint. -/
def entry? (constraint : Int) : Option (Table Nat Int) :=
  deps.entries.get? constraint

/-- How often a formula produced a constraint; zero if it did not. -/
def frequency (constraint : Int) (formula : Int) : Int :=
  match formula with
  | .ofNat f => ((deps.entry? constraint).bind (·.get? f)).getD 0
  | .negSucc _ => 0

/-- The formulas that occur in some entry, each once. -/
def formulaIndices : List Nat :=
  (deps.entries.values.flatMap Table.keys).eraseDups

/-- For each formula the constraints that it contributed to, in recording order. -/
def inverse : Table Nat (List Int) :=
  deps.entries.toList.foldl (fun table (c, frequencies) =>
    frequencies.keys.foldl (fun table f =>
      table.insert f (((table.get? f).getD []) ++ [c])) table) Table.empty

/-- The constraints that a formula contributed to. -/
def constraintsOf (formula : Int) : List Int :=
  match formula with
  | .ofNat f => (deps.inverse.get? f).getD []
  | .negSucc _ => []

/-- The map as reports show it. -/
def text : String :=
  s!"DependencyMap({deps.size} constraints)"

end DependencyMap

end MarkovLogic
