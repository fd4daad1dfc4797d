import MarkovLogic.Grounding.Simplified
import MarkovLogic.Grounding.Merged

/-!
# Grounding

Grounding goes through the clauses in order and through the assignments of each clause, and merges
what they contribute. The constraints are numbered from 0 in the order of their first contribution,
and the network has the atoms that some constraint mentions.
-/

namespace MarkovLogic

/-- What grounding has found so far. -/
structure Progress (α : Type) where
  merged : MergeTable α
  groundings : Nat
  dropped : Nat
  violations : List (Violation α)

/-- A ground network with its atom space and the counts of its groundings. -/
structure Grounding (α : Type) where
  network : Network α
  space : AtomSpace
  groundings : Nat
  dropped : Nat
  violations : List (Violation α)

namespace Problem

variable {α : Type} [WeightArith α] (p : Problem α)

/-- Grounds a clause under one tuple of symbols. -/
def groundTuple (space : AtomSpace) (formula : Nat) (c : Clause α) (vars : List Variable)
    (progress : Progress α) (tuple : List String) : Except (GroundingError α) (Progress α) := do
  let assignment ← assign vars tuple
  let progress := { progress with groundings := progress.groundings + 1 }
  match ← p.simplify space c assignment with
  | .dropped => return { progress with dropped := progress.dropped + 1 }
  | .violated =>
    return { progress with
      dropped := progress.dropped + 1
      violations := progress.violations ++ [⟨c, assignment⟩] }
  | .kept literals =>
    let merged ← ((c.contributions p.options.noNegativeWeights literals).foldlM
      (fun table contribution => MergeTable.add table formula contribution)
      progress.merged).mapError .overflow
    return { progress with merged }

/-- Grounds a clause under every assignment of its variables. -/
def groundClause (space : AtomSpace) (progress : Progress α) (entry : Clause α × Nat) :
    Except (GroundingError α) (Progress α) := do
  let (c, formula) := entry
  let pools ← p.variablePools c
  (tuples (pools.map Prod.snd)).foldlM
    (p.groundTuple space formula c (pools.map Prod.fst)) progress

/-- Grounds all clauses. -/
def groundClauses (space : AtomSpace) : Except (GroundingError α) (Progress α) :=
  p.clauses.zipIdx.foldlM (p.groundClause space) ⟨Table.empty, 0, 0, []⟩

/-- The merged constraints with their numbers. -/
def constraintsOf (merged : MergeTable α) : List (Constraint α) :=
  (Table.toList merged).zipIdx.map fun ((literals, m), id) => ⟨id, literals, m.weight, m.isHard⟩

/-- The atoms that constraints mention, in ascending order. -/
def atomsOf (constraints : List (Constraint α)) : List GroundAtom :=
  let ids := (constraints.flatMap fun c => c.literals.map fun l => (l.natAbs : Int)).eraseDups
  (ids.mergeSort fun a b => a ≤ b).map fun id => ⟨id, false⟩

/-- The recorded sources of the merged constraints. -/
def dependenciesOf (merged : MergeTable α) : DependencyMap :=
  ⟨Table.ofList ((Table.values merged).zipIdx.map fun (m, id) => ((id : Int), m.sources))⟩

/-- The network of the merged constraints. -/
def networkOf (space : AtomSpace) (merged : MergeTable α) :
    Except (GroundingError α) (Network α) := do
  let weightHard ← match p.options.weightHard with
    | some w => pure w
    | none => (MergeTable.defaultHardWeight merged).mapError .overflow
  let constraints := constraintsOf merged
  (Network.assemble constraints (atomsOf constraints) weightHard 1 space.queryEnd
    (if p.options.trackDependencies then some (dependenciesOf merged) else none)).mapError .network

/-- Grounds the problem. Evidence may be given only for predicates that are not open. -/
def ground : Except (GroundingError α) (Grounding α) := do
  if let some s := p.evidence.keys.find? fun s => p.query.contains s || p.hidden.contains s then
    throw (.evidenceForOpen s)
  let space ← (AtomSpace.build p.schema p.domains p.query p.hidden).mapError .space
  let progress ← p.groundClauses space
  let network ← p.networkOf space progress.merged
  return ⟨network, space, progress.groundings, progress.dropped, progress.violations⟩

end Problem

end MarkovLogic
