import MarkovLogic.Scalar
import MarkovLogic.Table

/-!
# Constant domains

A domain is a named collection of constant symbols. `Domains` gives the symbols of each domain as a
list, which may repeat symbols; `Domains.frozen` makes each list the ascending list of its symbols,
each once.

Names that count as the same (`Scalar.same`) name one domain, and the domain keeps the name under
which it was first recorded. For a text or nothing that is the name itself
(`recordedName_ofOption`), so that `symbols?` is then the plain look-up.
-/

namespace MarkovLogic

/-- The symbols of each domain. -/
abbrev Domains : Type := Table Scalar (List String)

/-- The symbols in ascending order, as often as they occur. -/
def sortSymbols (symbols : List String) : List String :=
  symbols.mergeSort fun s t => !decide (t < s)

/-- The elements of a list without those equal to the element before them. -/
def dropRepeats : List String → List String
  | [] => []
  | s :: rest =>
    match dropRepeats rest with
    | [] => [s]
    | t :: rest' => if s = t then t :: rest' else s :: t :: rest'

namespace Domains

/-- The name under which the domain is recorded; an unknown domain goes by the given one. -/
def recordedName (d : Domains) (name : Scalar) : Scalar :=
  (d.keys.find? name.same).getD name

/-- The symbols of a known domain. -/
def symbols? (d : Domains) (name : Scalar) : Option (List String) :=
  d.get? (d.recordedName name)

/-- The symbols of the domain, or none if it is unknown. -/
def symbols (d : Domains) (name : Scalar) : List String :=
  (d.symbols? name).getD []

/-- Records the symbols of a domain; a known domain keeps its place and its name. -/
def record (d : Domains) (name : Scalar) (symbols : List String) : Domains :=
  d.insert (d.recordedName name) symbols

/-- Records the symbol lists in order, so that the last list of a domain counts. -/
def ofList (pairs : List (Scalar × List String)) : Domains :=
  pairs.foldl (fun d e => d.record e.1 e.2) Table.empty

theorem recordedName_ofOption (d : Domains) (name : Option String) :
    d.recordedName (.ofOption name) = .ofOption name := by
  unfold recordedName
  cases h : d.keys.find? (Scalar.ofOption name).same with
  | none => rfl
  | some k => simpa using (Scalar.same_ofOption_iff name k).1 (List.find?_some h)

@[simp]
theorem symbols?_ofOption (d : Domains) (name : Option String) :
    d.symbols? (.ofOption name) = d.get? (.ofOption name) := by
  rw [symbols?, recordedName_ofOption]

/-- Every domain as the ascending list of its symbols, each once. -/
def frozen (d : Domains) : Domains :=
  d.mapWithKey fun _ symbols => dropRepeats (sortSymbols symbols)

/-- Names and sizes of the domains in recording order. -/
def sizesText (d : Domains) : String :=
  Text.joined ", " (d.toList.map fun (name, symbols) => s!"{name.plain}: {symbols.length}")

end Domains

end MarkovLogic
