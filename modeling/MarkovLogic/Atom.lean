import MarkovLogic.Term.Equality
import MarkovLogic.Term.Substitution

/-!
# Atoms and literals

A predicate is identified by its signature, a name and a number of arguments. An atom applies a
predicate to terms, and a literal is an atom or its negation. Atoms are equal when their predicates
are and their terms are equal one by one.
-/

namespace MarkovLogic

/-- The name and the number of arguments of a predicate or function. -/
structure Signature where
  name : String
  arity : Int
deriving DecidableEq, Repr

/-- The signature as reports show it. -/
def Signature.text (s : Signature) : String :=
  s!"{s.name}/{s.arity}"

/-- A predicate applied to terms. -/
structure Atom where
  predicate : Identifier
  terms : List Term

namespace Atom

/-- The atom with the given predicate name and arguments. -/
def ofGiven (predicate : Scalar) (args : List (Given Term)) : Except ExpressionError Atom := do
  let predicate ← NameRole.predicate.identifier predicate
  return ⟨predicate, ← Term.arguments predicate args⟩

/-- The number of arguments. -/
def arity (a : Atom) : Nat :=
  a.terms.length

/-- The signature of the predicate. -/
def signature (a : Atom) : Signature :=
  ⟨a.predicate.text, a.arity⟩

/-- No variable occurs in the atom. -/
def isGround (a : Atom) : Bool :=
  a.terms.all Term.isGround

/-- The terms of the atom and everything nested in them. -/
def subterms (a : Atom) : List Term :=
  a.terms.flatMap Term.subterms

/-- The variables of the atom, each once. -/
def vars (a : Atom) : List Variable :=
  distinct (fun v w => v = w) (a.subterms.filterMap fun
    | .var v => some v
    | _ => none)

/-- The constants of the atom, each symbol once. -/
def constants (a : Atom) : List Constant :=
  distinct Constant.same (a.subterms.filterMap fun
    | .const c => some c
    | _ => none)

/-- The function terms of the atom, each once. -/
def functions (a : Atom) : List Term :=
  distinct Term.same (a.subterms.filter fun
    | .app .. => true
    | _ => false)

/-- The atoms are equal. -/
def same (a b : Atom) : Bool :=
  a.predicate = b.predicate && Term.sameList a.terms b.terms

/-- The substitution applied to every term. -/
def substitute (a : Atom) (θ : Substitution) : Except Scalar Atom := do
  return ⟨a.predicate, ← a.terms.mapM θ.apply⟩

/-- The characters of the text form, with parentheses also around no arguments. -/
def chars (a : Atom) : List Char :=
  a.predicate.chars ++ '(' :: Term.charsList a.terms ++ [')']

/-- The text form. -/
def text (a : Atom) : String :=
  String.ofList a.chars

end Atom

/-- An atom or its negation. -/
structure Literal where
  atom : Atom
  positive : Bool

namespace Literal

/-- The literal of the opposite polarity. -/
def negated (l : Literal) : Literal :=
  ⟨l.atom, !l.positive⟩

/-- The literals are equal. -/
def same (l m : Literal) : Bool :=
  l.atom.same m.atom && l.positive = m.positive

/-- The substitution applied to the atom. -/
def substitute (l : Literal) (θ : Substitution) : Except Scalar Literal := do
  return ⟨← l.atom.substitute θ, l.positive⟩

/-- The characters of the text form; an exclamation mark negates. -/
def chars (l : Literal) : List Char :=
  if l.positive then l.atom.chars else '!' :: l.atom.chars

/-- The text form. -/
def text (l : Literal) : String :=
  String.ofList l.chars

end Literal

end MarkovLogic
