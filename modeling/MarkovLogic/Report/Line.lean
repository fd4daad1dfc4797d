import MarkovLogic.Network.Basic
import MarkovLogic.AtomSpace.Codec

/-!
# Names and lines in reports

A report shows a literal by the name that an atom space gives it, or by its signed number if there
is no space. A constraint takes one line: its number, its weight in a column, and its literals.
-/

namespace MarkovLogic

/-- Why there is no number to show. -/
inductive NumberError where
  | tooLarge (e : Overflow)
  | unrecorded (constraint : Int)
deriving DecidableEq, Repr

/-- The wording of an error. -/
def NumberError.message : NumberError → String
  | .tooLarge _ => "a number is too large"
  | .unrecorded id => s!"no weight is recorded for constraint {id}"

/-- Why a report cannot be written. -/
inductive ReportError where
  | atom (e : AtomLookupError)
  | number (e : NumberError)
deriving Repr

namespace ReportError

/-- The wording of an error. -/
def message : ReportError → String
  | .atom e => e.message
  | .number e => e.message

/-- The earlier name of `number`, from when a number could only be too large. -/
@[match_pattern, deprecated number (since := "2026-11-19")]
abbrev overflow (e : NumberError) : ReportError := .number e

end ReportError

namespace Report

/-- The name of a literal. -/
def describe (space : Option AtomSpace) (literal : Int) : Except ReportError String :=
  match space with
  | none => .ok (toString literal)
  | some space => (space.describe literal).mapError .atom

/-- The weight of a constraint as reports show it. -/
def weightCell (c : Constraint Number) : Except ReportError String :=
  c.weightText.mapError fun e => .number (.tooLarge e)

/-- The line of a constraint. -/
def constraintLine (space : Option AtomSpace) (c : Constraint Number) :
    Except ReportError String := do
  let names ← c.literals.mapM (describe space)
  let weight ← weightCell c
  let body := Text.joined " v " names
  return s!"[{c.id}] {Text.alignRight 8 weight}  {body}"

/-- A number as reports show it. -/
def numberCell (n : Number) : Except ReportError String :=
  n.shortText.mapError fun e => .number (.tooLarge e)

/-- The line between the parts of a report. -/
def rule : String :=
  String.ofList (List.replicate 60 '=')

/-- Lines as a text in which each of them is ended. -/
def textOf (lines : List String) : String :=
  String.join (lines.map (· ++ "\n"))

end Report

end MarkovLogic
