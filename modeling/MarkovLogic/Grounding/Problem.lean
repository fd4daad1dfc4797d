import MarkovLogic.AtomSpace.Codec
import MarkovLogic.Clause
import MarkovLogic.Network.Basic

/-!
# Grounding problems

A grounding problem holds weighted clauses, the predicates and domains they are about, which
predicates are open, and the evidence: for each other predicate the tuples for which it is true. The
place of a clause in the list is its formula index.
-/

namespace MarkovLogic

/-- The tuples of symbols for which a predicate is true. -/
abbrev Evidence : Type := Table Signature (List (List String))

/-- Choices of a grounding. -/
structure GroundingOptions (α : Type) where
  /-- The weight of hard constraints; by default one more than all soft weights together. -/
  weightHard : Option α := none
  /-- Record which formulas produced each constraint. -/
  trackDependencies : Bool := false
  /-- Replace a clause of negative weight by its negated literals. -/
  noNegativeWeights : Bool := false

/-- Everything a grounding needs. -/
structure Problem (α : Type) where
  clauses : List (Clause α)
  schema : PredicateSchema
  domains : Domains
  query : List Signature
  hidden : List Signature
  evidence : Evidence
  options : GroundingOptions α

/-- Variables of a clause with the symbols assigned to them. -/
abbrev Assignment : Type := List (Variable × Constant)

/-- A grounding of a hard clause that the evidence makes false. -/
structure Violation (α : Type) where
  clause : Clause α
  assignment : Assignment

/-- Why a problem cannot be grounded. -/
inductive GroundingError (α : Type) where
  | evidenceForOpen (signature : Signature)
  | space (e : SpaceError)
  | functionTerm (literal : Literal)
  | variableDomain (v : Variable) (clause : Clause α)
  | symbol (e : ExpressionError)
  | notGround (literal : Literal)
  | atom (e : AtomLookupError)
  | overflow (e : Overflow)
  | network (e : NetworkError)

namespace Violation

/-- The assignment by variable name; a name that occurs again keeps its first place and gets its
last value. -/
def bindings (v : Violation Number) : List (String × String) :=
  (Table.ofList (v.assignment.map fun (x, c) => (x.name.text, c.symbol.text))).toList

/-- The warning about a violation. -/
def message (v : Violation Number) : String :=
  let entries := v.bindings.map fun (x, c) => s!"{Text.quoted x}: {Text.quoted c}"
  s!"evidence violates hard clause {v.clause.text} under " ++
    "\x7b" ++ Text.joined ", " entries ++ "\x7d"

end Violation

/-- The wording of an error. -/
def GroundingError.message : GroundingError Number → String
  | .evidenceForOpen s => s!"evidence given for open-world predicate {s.text}"
  | .space e => e.message
  | .functionTerm l => s!"function terms are not supported by the grounder: {l.text}"
  | .variableDomain v c =>
    s!"variable {v.name.text} in {c.text} has no known domain ({Term.domainText v.domain})"
  | .symbol e => e.message
  | .notGround l => s!"a term of {l.text} has no symbol"
  | .atom e => e.message
  | .overflow _ => "a number is too large"
  | .network e => e.message

end MarkovLogic
