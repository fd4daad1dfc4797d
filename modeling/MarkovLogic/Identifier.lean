import MarkovLogic.Text.Class
import MarkovLogic.Scalar

/-!
# Identifiers

Predicates, functions, constants and variables are named by identifiers, non-empty runs of word
characters. A variable is told from a constant by its first character: the name of a variable starts
with a lowercase character, the symbol of a constant does not.
-/

namespace MarkovLogic

/-- A non-empty run of word characters. -/
structure Identifier where
  text : String
  isWordRun : Text.isWordRun text.toList = true
deriving DecidableEq, Repr

namespace Identifier

/-- The identifier with the given text. -/
def ofString? (s : String) : Option Identifier :=
  if h : Text.isWordRun s.toList = true then some ⟨s, h⟩ else none

/-- The identifier with the given characters. -/
def ofChars (cs : List Char) (h : Text.isWordRun cs = true) : Identifier :=
  ⟨String.ofList cs, by rw [String.toList_ofList]; exact h⟩

/-- The characters of an identifier. -/
def chars (i : Identifier) : List Char :=
  i.text.toList

@[simp]
theorem chars_ofChars (cs : List Char) (h : Text.isWordRun cs = true) :
    (ofChars cs h).chars = cs :=
  String.toList_ofList

/-- The first character is lowercase. -/
def startsLower (i : Identifier) : Bool :=
  i.chars.head?.any Text.isLower

end Identifier

/-- What a name is the name of. -/
inductive NameRole where
  | constant
  | variableName
  | function
  | predicate
deriving DecidableEq, Repr

/-- What is wrong with the parts of a term, an atom or a clause. -/
inductive ExpressionError where
  | notIdentifier (role : NameRole) (got : Scalar)
  | lowercaseConstant (symbol : Identifier)
  | uppercaseVariable (name : Identifier)
  | argumentNotTerm (head : Identifier) (got : Scalar)
  | noLiterals
  | notLiteral (got : Scalar)
deriving DecidableEq, Repr

/-- The role in the words of messages. -/
def NameRole.label : NameRole → String
  | .constant => "constant symbol"
  | .variableName => "variable name"
  | .function => "function name"
  | .predicate => "predicate name"

/-- The wording of an error. -/
def ExpressionError.message : ExpressionError → String
  | .notIdentifier role got => s!"{role.label} must be a non-empty identifier, got {got.shown}"
  | .lowercaseConstant symbol =>
    s!"constant symbol must not start lowercase, got {Text.quoted symbol.text}"
  | .uppercaseVariable name =>
    s!"variable name must start lowercase, got {Text.quoted name.text}"
  | .argumentNotTerm head got => s!"argument of {head.text} is not a term: {got.shown}"
  | .noLiterals => "a clause needs at least one literal"
  | .notLiteral got => s!"not a literal: {got.shown}"

/-- The identifier given for a name. -/
def NameRole.identifier (role : NameRole) (given : Scalar) : Except ExpressionError Identifier :=
  match given with
  | .text s => ((Identifier.ofString? s).map .ok).getD (.error (.notIdentifier role given))
  | _ => .error (.notIdentifier role given)

end MarkovLogic
