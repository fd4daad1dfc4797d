import MarkovLogic.Reading.Phrase
import MarkovLogic.Table

/-!
# Vocabularies

A vocabulary declares predicates with the domains of their arguments and functions with the domain
of their values as well. It turns phrases into terms: a name becomes a variable or a constant of the
domain that its place requires, and a call a function term of the declared value domain.
-/

namespace MarkovLogic

/-- The argument domains of each predicate; a place without a domain takes any term. -/
abbrev PredicateSchema : Type := Table Signature (List (Option String))

/-- The value domain and the argument domains of each function. -/
abbrev FunctionSchema : Type := Table Signature (Option String × List (Option String))

/-- The declared predicates and functions. -/
structure Vocabulary where
  predicates : PredicateSchema
  functions : FunctionSchema

namespace Phrase

mutual

/-- The term that a phrase denotes in a place of the given domain. -/
def toTerm (functions : FunctionSchema) (domain : Option String) : Phrase → Except Misread Term
  | .name word _ => .ok (.ofIdentifier word domain)
  | .call word position args =>
    let signature : Signature := ⟨word.text, args.length⟩
    match functions.get? signature with
    | none => .error ⟨.unknownFunction signature, some position⟩
    | some (value, places) =>
      if domain.isSome && value != domain then
        .error ⟨.returnDomain signature value domain, some position⟩
      else do return .app word (← toTerms functions places args) value

/-- The terms that phrases denote in the places of the given domains, as far as both lists go. -/
def toTerms (functions : FunctionSchema) (places : List (Option String)) :
    List Phrase → Except Misread (List Term)
  | [] => .ok []
  | phrase :: rest =>
    match places with
    | [] => .ok []
    | domain :: places => do
      let term ← toTerm functions domain phrase
      let terms ← toTerms functions places rest
      return term :: terms

end

end Phrase

namespace Vocabulary

/-- The literal that a phrase denotes. -/
def literal (v : Vocabulary) (phrase : LiteralPhrase) : Except Misread Literal :=
  let signature : Signature := ⟨phrase.predicate.text, phrase.args.length⟩
  match v.predicates.get? signature with
  | none => .error ⟨.unknownPredicate signature, some phrase.position⟩
  | some places => do
    let terms ← Phrase.toTerms v.functions places phrase.args
    return ⟨⟨phrase.predicate, terms⟩, phrase.positive⟩

end Vocabulary

end MarkovLogic
