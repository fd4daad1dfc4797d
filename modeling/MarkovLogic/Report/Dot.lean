import MarkovLogic.Report.Line

/-!
# Drawing a network

A network is drawn as a graph in the DOT language, with a node for each atom and each constraint and
an edge for each mention. Negative mentions are dashed.
-/

namespace MarkovLogic.Report

/-- The characters of a label, where a backslash precedes each quotation mark. -/
def escapeQuotes : List Char → List Char
  | [] => []
  | c :: rest => if c = '"' then '\\' :: '"' :: escapeQuotes rest else c :: escapeQuotes rest

/-- A label between quotation marks. -/
def dotLabel (s : String) : String :=
  "\"" ++ String.ofList (escapeQuotes s.toList) ++ "\""

variable (space : Option AtomSpace) (net : Network Number)

/-- The node of an atom. -/
def atomNode (a : GroundAtom) : Except ReportError String := do
  let label := dotLabel (← describe space a.id)
  let color := if net.isQueryAtom a.id then "lightblue" else "lightgray"
  return s!"  a{a.id} [label={label}, fillcolor={color}, style=filled];"

/-- The edge of a mention. -/
def mentionEdge (constraint literal : Int) : String :=
  let style := if 0 < literal then "solid" else "dashed"
  s!"  c{constraint} -- a{literal.natAbs} [style={style}];"

/-- The node of a constraint and its edges. -/
def constraintNode (c : Constraint Number) : Except ReportError (List String) := do
  let label := dotLabel (← weightCell c)
  return s!"  c{c.id} [label={label}, shape=box];" :: c.literals.map (mentionEdge c.id)

/-- The network as a graph. -/
def dot : Except ReportError String := do
  let atoms ← net.orderedAtoms.mapM (atomNode space net)
  let constraints ← net.orderedConstraints.mapM constraintNode
  return textOf (["graph mrf \x7b", "  node [shape=ellipse];"] ++ atoms ++ constraints.flatten ++
    ["\x7d"])

/-- The note that a graph was written to a file. -/
def dotNote (path : String) : String :=
  textOf [s!"Graph exported to {path}"]

end MarkovLogic.Report
