import MarkovLogic.Reading.Token
import MarkovLogic.Reading.Error

/-!
# Phrases

A phrase is a term as it is written, before any declaration is consulted: a name, or a name applied
to phrases. `Phrase.list` reads the arguments after an opening parenthesis, and `LiteralPhrase.read`
an atom with an optional exclamation mark. Every reader returns what it read and the tokens that are
left.
-/

namespace MarkovLogic

/-- A term as written, with the positions of its names. -/
inductive Phrase where
  | name (word : Identifier) (position : Nat)
  | call (word : Identifier) (position : Nat) (args : List Phrase)
deriving Repr

/-- A literal as written; an atom without parentheses has no arguments. -/
structure LiteralPhrase where
  positive : Bool
  predicate : Identifier
  position : Nat
  args : List Phrase
deriving Repr

namespace Misread

/-- The input ends where more is needed. -/
def atEnd : Misread := ⟨.unexpectedEnd, none⟩

/-- The fault lies at the token. -/
def atToken (t : Token) (fault : String → ReadFault) : Misread :=
  ⟨fault t.lexeme.text, some t.position⟩

end Misread

namespace Phrase

/-- Reads the arguments of a name if an opening parenthesis follows it; `inner` reads at least one
argument and the closing parenthesis. -/
def parenthesised (inner : List Token → Except Misread (List Phrase × List Token)) :
    List Token → Except Misread (Option (List Phrase) × List Token)
  | ⟨.mark .opening, _⟩ :: ⟨.mark .closing, _⟩ :: rest => .ok (some [], rest)
  | ⟨.mark .opening, _⟩ :: rest => do
    let (args, rest) ← inner rest
    return (some args, rest)
  | rest => .ok (none, rest)

/-- A name with the arguments that followed it, if any. -/
def ofArguments (word : Identifier) (position : Nat) : Option (List Phrase) → Phrase
  | none => .name word position
  | some args => .call word position args

/-- Reads phrases with commas between them up to the closing parenthesis, at least one, from at most
`bound` tokens. Each phrase takes a token before the reading goes on behind it, so the number of
tokens is bound enough. -/
def listWithin : Nat → List Token → Except Misread (List Phrase × List Token)
  | 0, _ => .error .atEnd
  | _ + 1, [] => .error .atEnd
  | _ + 1, ⟨.mark m, p⟩ :: _ => .error (.atToken ⟨.mark m, p⟩ .expectedTerm)
  | bound + 1, ⟨.word w, p⟩ :: rest => do
    let (args, rest) ← parenthesised (listWithin bound) rest
    let phrase := ofArguments w p args
    match rest with
    | [] => .error .atEnd
    | ⟨.mark .comma, _⟩ :: rest => do
      let (phrases, rest) ← listWithin bound rest
      return (phrase :: phrases, rest)
    | ⟨.mark .closing, _⟩ :: rest => .ok ([phrase], rest)
    | t :: _ => .error (.atToken t (.expected ")"))

/-- Reads phrases with commas between them up to the closing parenthesis, at least one. -/
def list (ts : List Token) : Except Misread (List Phrase × List Token) :=
  listWithin ts.length ts

end Phrase

namespace LiteralPhrase

/-- Reads an atom, which becomes a literal of the given polarity. -/
def readAtom (positive : Bool) : List Token → Except Misread (LiteralPhrase × List Token)
  | [] => .error .atEnd
  | ⟨.mark m, p⟩ :: _ => .error (.atToken ⟨.mark m, p⟩ .expectedPredicate)
  | ⟨.word w, p⟩ :: rest => do
    let (args, rest) ← Phrase.parenthesised Phrase.list rest
    return (⟨positive, w, p, args.getD []⟩, rest)

/-- Reads a literal. -/
def read : List Token → Except Misread (LiteralPhrase × List Token)
  | ⟨.mark .bang, _⟩ :: rest => readAtom false rest
  | ts => readAtom true ts

end LiteralPhrase

end MarkovLogic
