import MarkovLogic.Network.Constraint
import MarkovLogic.Network.Dependency

/-!
# Ground networks

A network holds constraints over ground atoms, the range of the query atoms, the weight of its hard
constraints, and for each atom the constraints that mention it positively and negatively. Once
assembled, only weights and truth values change.

`Network.assemble` checks the parts in a fixed order and fills the two occurrence tables in one pass
over the constraints.

Constraints are shared: the occurrence tables and the ordered view do not have copies of them but
refer to them, and a weight written through one view is seen through all. The number of a constraint
stands for the reference to it. No two constraints of an assembled network have the same number, so
that a number refers to one constraint only, whose weight is kept in one place, the list
`constraints`.
-/

namespace MarkovLogic

/-- What is wrong with the parts of a network. -/
inductive NetworkError where
  | invertedQuery (first last : Int)
  | duplicateAtom (id : Int)
  | atomNotPositive
  | duplicateConstraint (id : Int)
  | hardWeight (e : Overflow)
  | reservedConstraint
  | noLiterals (constraint : Int)
  | unknownAtom (constraint literal : Int)
deriving DecidableEq, Repr

/-- The wording of an error. -/
def NetworkError.message : NetworkError → String
  | .invertedQuery first last => s!"inverted query atom range [{first}, {last}]"
  | .duplicateAtom id => s!"duplicate atom id {id}"
  | .atomNotPositive => "atom ids must be positive"
  | .duplicateConstraint id => s!"duplicate constraint id {id}"
  | .hardWeight _ => "the weight of hard constraints is too large"
  | .reservedConstraint => "constraint id -1 is reserved"
  | .noLiterals c => s!"constraint {c} has no literals"
  | .unknownAtom c literal => s!"constraint {c} references unknown atom {literal}"

/-- For each atom the references to the constraints that mention it, once per mention. -/
abbrev Occurrences : Type := Table Int (List Int)

/-- A ground network. -/
structure Network (α : Type) where
  constraints : List (Constraint α)
  atoms : List GroundAtom
  weightHard : α
  queryFirst : Int
  queryLast : Int
  dependencies : Option DependencyMap
  positive : Occurrences
  negative : Occurrences
  maxWidth : Nat

namespace Network

variable {α : Type}

/-! ## Assembly -/

/-- The first element that occurs again later. -/
def firstRepeat? (ids : List Int) : Option Int :=
  go [] ids
where
  go (seen : List Int) : List Int → Option Int
    | [] => none
    | id :: rest => if seen.contains id then some id else go (seen ++ [id]) rest

/-- Adds a mention of an atom. -/
def addOccurrence (table : Occurrences) (atom constraint : Int) : Occurrences :=
  table.insert atom (((table.get? atom).getD []) ++ [constraint])

/-- The occurrence tables while the constraints are gone through. -/
structure Index where
  positive : Occurrences
  negative : Occurrences

/-- Adds the mention that a literal of a constraint makes; its atom has to exist. -/
def Index.addLiteral (known : Int → Bool) (constraint : Int) (index : Index) (literal : Int) :
    Except NetworkError Index :=
  if !known literal.natAbs then .error (.unknownAtom constraint literal)
  else if 0 < literal then
    .ok { index with positive := addOccurrence index.positive literal.natAbs constraint }
  else .ok { index with negative := addOccurrence index.negative literal.natAbs constraint }

/-- Adds the mentions of a constraint. -/
def Index.addConstraint (known : Int → Bool) (index : Index) (c : Constraint α) :
    Except NetworkError Index :=
  if c.id = -1 then .error .reservedConstraint
  else if c.literals.isEmpty then .error (.noLiterals c.id)
  else c.literals.foldlM (Index.addLiteral known c.id) index

/-- The network of the given constraints and atoms. Hard constraints carry the hard weight. -/
def assemble [WeightArith α] (constraints : List (Constraint α)) (atoms : List GroundAtom)
    (weightHard : α) (queryFirst queryLast : Int) (dependencies : Option DependencyMap) :
    Except NetworkError (Network α) := do
  if queryLast < queryFirst - 1 then throw (.invertedQuery queryFirst queryLast)
  if let some id := firstRepeat? (atoms.map (·.id)) then throw (.duplicateAtom id)
  if atoms.any (·.id ≤ 0) then throw .atomNotPositive
  if let some id := firstRepeat? (constraints.map (·.id)) then throw (.duplicateConstraint id)
  let weightHard ← (WeightArith.settle weightHard).mapError .hardWeight
  let index ← constraints.foldlM
    (Index.addConstraint fun id => atoms.any (·.id = id)) ⟨Table.empty, Table.empty⟩
  return {
    constraints := constraints.map fun c => if c.isHard then { c with weight := weightHard } else c
    atoms, weightHard, queryFirst, queryLast, dependencies
    positive := index.positive
    negative := index.negative
    maxWidth := (constraints.map Constraint.size).foldl max 0 }

/-! ## Views -/

variable (net : Network α)

/-- The constraint with the given number. -/
def constraint? (id : Int) : Option (Constraint α) :=
  net.constraints.find? (·.id = id)

/-- The atom with the given number. -/
def atom? (id : Int) : Option GroundAtom :=
  net.atoms.find? (·.id = id)

/-- The atom that a literal is about, or the absent atom. -/
def fetchAtom (literal : Int) : GroundAtom :=
  (net.atom? literal.natAbs).getD .absent

/-- The constraint with the given number, or the absent constraint. -/
def lookup (net : Network Number) (id : Int) : Constraint Number :=
  (net.constraint? id).getD .absent

/-- The constraints that an occurrence table lists for an atom. -/
def listed (table : Occurrences) (atom : Int) : List (Constraint α) :=
  ((table.get? atom).getD []).filterMap net.constraint?

/-- The constraints that mention an atom positively, once per mention. -/
def positiveOccurrences (atom : Int) : List (Constraint α) :=
  net.listed net.positive atom

/-- The constraints that mention an atom negatively, once per mention. -/
def negativeOccurrences (atom : Int) : List (Constraint α) :=
  net.listed net.negative atom

/-- The constraints whose truth can change with that of an atom. -/
def neighbours (atom : Int) : List (Constraint α) :=
  net.positiveOccurrences atom ++ net.negativeOccurrences atom

/-- The atom is a query atom. -/
def isQueryAtom (atom : Int) : Bool :=
  net.queryFirst ≤ atom && atom ≤ net.queryLast

/-- The constraints in ascending order of their numbers. -/
def orderedConstraints : List (Constraint α) :=
  net.constraints.mergeSort fun c d => c.id ≤ d.id

/-- The atoms in ascending order of their numbers. -/
def orderedAtoms : List GroundAtom :=
  net.atoms.mergeSort fun a b => a.id ≤ b.id

/-- The truth values of the atoms. -/
def states (id : Nat) : Option Bool :=
  (net.atom? id).map (·.state)

/-- The weights of the constraints in ascending order of their numbers. -/
def weights : List (Int × α) :=
  net.orderedConstraints.map fun c => (c.id, c.weight)

/-- The network as reports show it. -/
def text (net : Network Number) : Except Overflow String := do
  let weight ← net.weightHard.shortText
  return s!"MRF({net.constraints.length} constraints, {net.atoms.length} atoms, " ++
    s!"weight_hard={weight})"

end Network

end MarkovLogic
