import MarkovLogic.Atom

/-!
# Reading errors

An error of reading names what was found wrong, the text that was read and, where one token or
character is at fault, its position in that text.
-/

namespace MarkovLogic

/-- What is wrong with a text. -/
inductive ReadFault where
  | unexpectedCharacter
  | unexpectedEnd
  | expected (wanted found : String)
  | expectedPredicate (found : String)
  | expectedTerm (found : String)
  | trailing (found : String)
  | unknownPredicate (signature : Signature)
  | unknownFunction (signature : Signature)
  | returnDomain (signature : Signature) (actual wanted : Option String)
  | weightedAndHard
  | noWeight
deriving DecidableEq, Repr

/-- A fault with the position of the token or character at fault. -/
structure Misread where
  fault : ReadFault
  position : Option Nat
deriving DecidableEq, Repr

/-- A fault in a text. -/
structure ReadError where
  fault : ReadFault
  position : Option Nat
  text : String
deriving DecidableEq, Repr

/-- The fault as an error in the text. -/
def Misread.inText (m : Misread) (text : String) : ReadError :=
  ⟨m.fault, m.position, text⟩

/-- The wording of a fault. -/
def ReadFault.message : ReadFault → String
  | .unexpectedCharacter => "unexpected character"
  | .unexpectedEnd => "unexpected end of input"
  | .expected wanted found => s!"expected {Text.quoted wanted}, found {Text.quoted found}"
  | .expectedPredicate found => s!"expected a predicate name, found {Text.quoted found}"
  | .expectedTerm found => s!"expected a term, found {Text.quoted found}"
  | .trailing found => s!"trailing input {Text.quoted found}"
  | .unknownPredicate s => s!"unknown predicate {s.text}"
  | .unknownFunction s => s!"unknown function {s.text}"
  | .returnDomain s actual wanted =>
    let named (d : Option String) := (Scalar.ofOption d).plain
    s!"function {s.text} returns {named actual}, expected {named wanted}"
  | .weightedAndHard => "a clause cannot be both weighted and hard"
  | .noWeight => "soft clause without a weight"

/-- The wording of an error: the fault, its position if it has one, and the text unless empty. -/
def ReadError.message (e : ReadError) : String :=
  if e.text.isEmpty then e.fault.message
  else
    match e.position with
    | some p => s!"{e.fault.message} at position {p} in {Text.quoted e.text}"
    | none => s!"{e.fault.message} in {Text.quoted e.text}"

end MarkovLogic
