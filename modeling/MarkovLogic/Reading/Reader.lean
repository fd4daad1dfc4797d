import MarkovLogic.Reading.Vocabulary
import MarkovLogic.Decimal.Numeral
import MarkovLogic.Clause

/-!
# Reading atoms, literals and clauses

The readers of a vocabulary undo the text forms. An atom or literal has to make up its text. A
clause is a list of literals with the word `v` between them, with a weight in front or a point at
the end and never both.

A weight is a numeral with at least one blank behind it; `splitWeight?` cuts both off. A text that
starts with anything else, such as a numeral that runs into a name, has no weight.
-/

namespace MarkovLogic

/-- The numeral that the text starts with, and what follows the blanks behind it. -/
def splitWeight? (cs : List Char) : Option (Numeral × List Char) :=
  let cs := cs.dropWhile Text.isBlank
  let word := cs.takeWhile fun c => !Text.isBlank c
  match cs.dropWhile fun c => !Text.isBlank c with
  | [] => none
  | rest => (Numeral.read? word).map fun n => (n, rest.dropWhile Text.isBlank)

namespace Vocabulary

/-- The tokens of the characters. -/
def tokens (cs : List Char) : Except Misread (List Token) :=
  (Token.takeAll cs 0 []).mapError fun p => ⟨.unexpectedCharacter, some p⟩

/-- Reads a literal and checks it against the declarations. -/
def takeLiteral (v : Vocabulary) (ts : List Token) : Except Misread (Literal × List Token) := do
  let (phrase, rest) ← LiteralPhrase.read ts
  return (← v.literal phrase, rest)

/-- Refuses tokens after the end. -/
def finish : List Token → Except Misread Unit
  | [] => .ok ()
  | t :: _ => .error (.atToken t .trailing)

/-- The token is the word between literals. -/
def isSeparator (t : Token) : Bool :=
  t.lexeme.chars = ['v']

/-- Reads the literals that follow the separators at the start, from at most `bound` tokens. -/
def moreLiterals (v : Vocabulary) : Nat → List Token → Except Misread (List Literal × List Token)
  | 0, ts => .ok ([], ts)
  | _ + 1, [] => .ok ([], [])
  | bound + 1, t :: ts =>
    if isSeparator t then do
      let (literal, rest) ← v.takeLiteral ts
      let (literals, rest) ← moreLiterals v bound rest
      return (literal :: literals, rest)
    else .ok ([], t :: ts)

/-- The atom that the characters write. -/
def atomOfChars (v : Vocabulary) (cs : List Char) : Except Misread Atom := do
  let (phrase, rest) ← LiteralPhrase.readAtom true (← tokens cs)
  let literal ← v.literal phrase
  finish rest
  return literal.atom

/-- The literal that the characters write. -/
def literalOfChars (v : Vocabulary) (cs : List Char) : Except Misread Literal := do
  let (literal, rest) ← v.takeLiteral (← tokens cs)
  finish rest
  return literal

/-- The literals of the clause that the characters write without weight and point. -/
def literalsOfChars (v : Vocabulary) (cs : List Char) :
    Except Misread { literals : List Literal // literals ≠ [] } := do
  let ts ← tokens cs
  let (literal, rest) ← v.takeLiteral ts
  let (literals, rest) ← v.moreLiterals rest.length rest
  finish rest
  return ⟨literal :: literals, List.cons_ne_nil _ _⟩

/-- Reads an atom. -/
def readAtom (v : Vocabulary) (text : String) : Except ReadError Atom :=
  (v.atomOfChars text.toList).mapError (·.inText text)

/-- Reads a literal. -/
def readLiteral (v : Vocabulary) (text : String) : Except ReadError Literal :=
  (v.literalOfChars text.toList).mapError (·.inText text)

/-- Reads the literals of a clause and adds its weight and label. -/
def clauseOfBody (v : Vocabulary) (body : List Char) (weight : Option Number) (label : String) :
    Except ReadError (Clause Number) := do
  let ⟨literals, h⟩ ← (v.literalsOfChars body).mapError (·.inText (String.ofList body))
  return ⟨literals, weight, label, h⟩

/-- Reads a clause: its weight or its final point is cut off, and the rest is a list of literals. -/
def readClause (v : Vocabulary) (text label : String) : Except ReadError (Clause Number) :=
  let body := Text.trimRight text.toList
  match splitWeight? body with
  | some (weight, body) =>
    if body.getLast? = some '.' then .error ⟨.weightedAndHard, none, text⟩
    else v.clauseOfBody body (some (.real weight.toFloat)) label
  | none =>
    if body.getLast? = some '.' then v.clauseOfBody body.dropLast none label
    else .error ⟨.noWeight, none, text⟩

end Vocabulary

end MarkovLogic
