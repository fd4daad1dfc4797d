import MarkovLogic.Grounding.Problem

/-!
# Groundings of a clause

Every variable of a clause takes every symbol of its domain (`tuples`). Under an assignment a clause
simplifies against the evidence: a literal that the evidence makes true satisfies the clause, one
that it makes false disappears, and the literals of open predicates become signed atom numbers. What
is left is dropped if it is empty or holds a literal and its negation.
-/

namespace MarkovLogic

/-- The tuples with one element of each list, the last element changing fastest. -/
def tuples : List (List String) → List (List String)
  | [] => [[]]
  | pool :: pools => pool.flatMap fun s => (tuples pools).map (s :: ·)

namespace Clause

variable {α : Type}

/-- The variables in the order of their names, and of their domains where names agree. -/
def orderedVariables (c : Clause α) : List Variable :=
  let key (v : Variable) := (v.name.text, v.domain.getD "")
  c.vars.mergeSort fun v w =>
    (key v).1 < (key w).1 || ((key v).1 = (key w).1 && !decide ((key w).2 < (key v).2))

end Clause

/-- What becomes of one grounding of a clause. -/
inductive Grounded where
  /-- The grounding is true under every truth assignment, or the evidence makes it false. -/
  | dropped
  /-- The evidence makes the grounding of a hard clause false. -/
  | violated
  /-- The signed numbers of the open atoms, in ascending order of the numbers. -/
  | kept (literals : List Int)
deriving DecidableEq, Repr

namespace Problem

variable {α : Type} (p : Problem α)

/-- The symbols of a known domain in ascending order. -/
def pool? (v : Variable) : Option (List String) :=
  match v.domain with
  | none => none
  | some name => (p.domains.symbols? (.text name)).map sortSymbols

/-- The variables of a clause with their symbols. Clauses with function terms are refused, and every
domain has to be known. -/
def variablePools (c : Clause α) : Except (GroundingError α) (List (Variable × List String)) := do
  if let some l := c.literals.find? fun l => !l.atom.functions.isEmpty then
    throw (.functionTerm l)
  c.orderedVariables.mapM fun v =>
    match p.pool? v with
    | none => .error (.variableDomain v c)
    | some pool => .ok (v, pool)

/-- The assignment of a tuple of symbols to the variables; every symbol has to be that of a
constant. -/
def assign (vars : List Variable) (tuple : List String) :
    Except (GroundingError α) Assignment :=
  (vars.zip tuple).mapM fun (v, s) =>
    ((Term.constant (.text s) v.domain).mapError .symbol).map fun c => (v, c)

/-- The symbol that a term denotes under an assignment. -/
def symbolOf? (assignment : Assignment) : Term → Option String
  | .const c => some c.symbol.text
  | .var v => (assignment.find? fun e => e.1 = v).map fun e => e.2.symbol.text
  | .app .. => none

/-- The symbols of the arguments of a literal under an assignment. -/
def tupleOf (assignment : Assignment) (l : Literal) : Except (GroundingError α) (List String) :=
  match l.atom.terms.mapM (symbolOf? assignment) with
  | some tuple => .ok tuple
  | none => .error (.notGround l)

/-- The evidence says that the predicate is true for the tuple. -/
def isFact (signature : Signature) (tuple : List String) : Bool :=
  ((p.evidence.get? signature).getD []).contains tuple

/-- The signed numbers of the open literals, each once, in the order in which they occur; none if
the evidence makes a literal true. -/
def openLiterals (space : AtomSpace) (assignment : Assignment) (found : List Int) :
    List Literal → Except (GroundingError α) (Option (List Int))
  | [] => .ok (some found)
  | l :: rest => do
    let tuple ← tupleOf assignment l
    let signature := l.atom.signature
    if space.isOpen signature then
      let id ← (space.encode signature tuple).mapError .atom
      let literal : Int := if l.positive then id else -id
      openLiterals space assignment
        (if found.contains literal then found else found ++ [literal]) rest
    else if p.isFact signature tuple = l.positive then return none
    else openLiterals space assignment found rest

/-- The signed numbers in ascending order of the numbers, the negative literal of an atom first. -/
def orderLiterals (literals : List Int) : List Int :=
  literals.mergeSort fun l m => l.natAbs < m.natAbs || (l.natAbs = m.natAbs && l ≤ m)

/-- The clause under an assignment, simplified against the evidence. -/
def simplify (space : AtomSpace) (c : Clause α) (assignment : Assignment) :
    Except (GroundingError α) Grounded := do
  match ← p.openLiterals space assignment [] c.literals with
  | none => return .dropped
  | some [] => return if c.isHard then .violated else .dropped
  | some found =>
    if found.any fun l => found.contains (-l) then return .dropped
    else return .kept (orderLiterals found)

end Problem

end MarkovLogic
