import MarkovLogic.Report.Line

/-!
# Listing a network

The summary of a network shows its sizes and its first constraints, and the table of occurrences how
often each atom is mentioned positively and negatively.
-/

namespace MarkovLogic.Report

variable (space : Option AtomSpace) (net : Network Number)

/-- How many constraints a summary shows unless told otherwise. -/
def defaultLimit : Int := 50

/-- Sizes and first constraints of a network, at most `limit` of them. -/
def summary (limit : Int) : Except ReportError String := do
  let hard ← numberCell net.weightHard
  let lines ← (net.orderedConstraints.take limit.toNat).mapM (constraintLine space)
  let count := net.constraints.length
  let rest := (count : Int) - limit
  let recorded := if net.dependencies.isSome then "yes" else "no"
  return textOf <|
    ["", rule,
      s!"Constraints: {count}   Atoms: {net.atoms.length}",
      s!"Query atoms: [{net.queryFirst}, {net.queryLast}]",
      s!"Hard weight: {hard}   Max clause width: {net.maxWidth}",
      s!"Dependency map: {recorded}",
      rule] ++
    lines.map ("  " ++ ·) ++
    (if limit.toNat < count then [s!"  ... {rest} more"] else [])

/-- The line of an atom in the table of occurrences. -/
def occurrenceLine (a : GroundAtom) : Except ReportError String := do
  let name ← describe space a.id
  let kind := if net.isQueryAtom a.id then "query" else "hidden"
  let positive := toString (net.positiveOccurrences a.id).length
  let negative := toString (net.negativeOccurrences a.id).length
  return s!"  {Text.alignLeft 24 name} {Text.alignRight 4 positive} / " ++
    s!"{Text.alignLeft 4 negative} ({kind})"

/-- How often each atom is mentioned. -/
def occurrences : Except ReportError String := do
  let lines ← net.orderedAtoms.mapM (occurrenceLine space net)
  return textOf (["", rule, "Literal occurrences (+ / -):", rule] ++ lines)

end MarkovLogic.Report
