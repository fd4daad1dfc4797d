import MarkovLogic.Grounding.Build
import MarkovLogic.Domain.Builder
import MarkovLogic.Reading.Reader

/-!
# Knowledge bases

A knowledge base is what its author writes down once: rules, the predicates and domains they are
about, which predicates are open, and the evidence. Together with the choices of one grounding it is
a grounding problem.
-/

namespace MarkovLogic

/-- Weighted rules with everything that grounding them needs. -/
structure KnowledgeBase where
  description : String
  clauses : List (Clause Number)
  schema : PredicateSchema
  domains : DomainMap
  query : List Signature
  hidden : List Signature
  evidence : Evidence

/-- What the author of a knowledge base writes, with the rules as texts. -/
structure RuleBook where
  description : String
  rules : List String
  schema : PredicateSchema
  domains : DomainMap
  query : List Signature
  hidden : List Signature
  evidence : Evidence

/-- The knowledge base of a rule book, if all its rules can be read. -/
def RuleBook.read (book : RuleBook) : Except ReadError KnowledgeBase := do
  let vocabulary : Vocabulary := ⟨book.schema, Table.empty⟩
  let clauses ← book.rules.mapM fun rule => vocabulary.readClause rule ""
  return {
    description := book.description, clauses, schema := book.schema, domains := book.domains
    query := book.query, hidden := book.hidden, evidence := book.evidence }

/-- The weight of each clause as it is grounded; a hard clause has zero. -/
def Clause.settledWeights {α : Type} [WeightArith α] (clauses : List (Clause α)) :
    Except Overflow (List α) :=
  clauses.mapM fun c =>
    match c.weight with
    | none => .ok WeightArith.zero
    | some w => WeightArith.settle w

/-- For each clause whether it is hard. -/
def Clause.hardFlags {α : Type} (clauses : List (Clause α)) : List Bool :=
  clauses.map Clause.isHard

/-- The grounding problem of the knowledge base. -/
def KnowledgeBase.problem (kb : KnowledgeBase) (options : GroundingOptions Number) :
    Problem Number where
  clauses := kb.clauses
  schema := kb.schema
  domains := kb.domains.domains
  query := kb.query
  hidden := kb.hidden
  evidence := kb.evidence
  options := options

end MarkovLogic
