import MarkovLogic.KnowledgeBase.Smokers
import MarkovLogic.KnowledgeBase.University

/-!
# Sample knowledge bases

The knowledge bases that are known by name.
-/

namespace MarkovLogic

/-- The name of a sample knowledge base. -/
inductive Sample where
  | smokers
  | university
deriving DecidableEq, Repr

namespace Sample

/-- All samples, the default one first. -/
def all : List Sample := [.smokers, .university]

/-- The name as it is written. -/
def name : Sample → String
  | .smokers => "smokers"
  | .university => "university"

/-- The rule book of a sample. -/
def book : Sample → RuleBook
  | .smokers => .smokers
  | .university => .university

/-- The sample with the given name. -/
def ofName? (s : String) : Option Sample :=
  all.find? (·.name = s)

end Sample

end MarkovLogic
