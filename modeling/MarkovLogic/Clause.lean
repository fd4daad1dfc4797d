import MarkovLogic.Atom
import MarkovLogic.Number

/-!
# Weighted clauses

A clause is a disjunction of literals with a weight; a clause without a weight is hard. The text of
a soft clause starts with its weight, that of a hard clause ends in a point.
-/

namespace MarkovLogic

/-- A weighted disjunction of literals, at least one. -/
structure Clause (α : Type) where
  literals : List Literal
  /-- The weight of a soft clause; a hard clause has none. -/
  weight : Option α
  label : String
  nonempty : literals ≠ []

namespace Clause

variable {α : Type}

/-- The literals, all of which have to be literals. -/
def literalsOf : List (Given Literal) → Except ExpressionError (List Literal)
  | [] => return []
  | .proper l :: rest => return l :: (← literalsOf rest)
  | .scalar s :: _ => throw (.notLiteral s)

/-- The clause of the given literals. -/
def ofGiven (literals : List (Given Literal)) (weight : Option α) (label : String) :
    Except ExpressionError (Clause α) := do
  let literals ← literalsOf literals
  if h : literals = [] then throw .noLiterals
  else return ⟨literals, weight, label, h⟩

/-- The clause has no weight and has to hold. -/
def isHard (c : Clause α) : Bool :=
  c.weight.isNone

/-- The variables of the clause, each once. -/
def vars (c : Clause α) : List Variable :=
  distinct (fun v w => v = w) (c.literals.flatMap fun l => l.atom.vars)

/-- The clauses are equal in literals, weight and label. -/
def same [BEq α] (c d : Clause α) : Bool :=
  c.literals.length = d.literals.length &&
    (c.literals.zip d.literals).all (fun (l, m) => l.same m) &&
    c.weight == d.weight && c.label = d.label

/-- Literals with the separator between them. -/
def charsOfLiterals : List Literal → List Char
  | [] => []
  | [l] => l.chars
  | l :: m :: rest => l.chars ++ ' ' :: 'v' :: ' ' :: charsOfLiterals (m :: rest)

/-- The characters of the text form. -/
def chars (c : Clause Number) : List Char :=
  match c.weight with
  | none => charsOfLiterals c.literals ++ ['.']
  | some w => w.chars ++ ' ' :: charsOfLiterals c.literals

/-- The text form. -/
def text (c : Clause Number) : String :=
  String.ofList c.chars

end Clause

end MarkovLogic
