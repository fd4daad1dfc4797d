import MarkovLogic.Report.Line

/-!
# Changed weights

Compares the weights of a network with those recorded at an earlier moment. Weights are compared in
value, so the two zeros are the same and a weight that is no number always counts as changed. So
does a weight of which none was recorded, but there is no line to show that.
-/

namespace MarkovLogic

/-- The constraints whose weight differs from the recorded one, in ascending order of their numbers,
with the recorded weight if there is one. -/
def Network.changes (net : Network Number) (recorded : Int → Option Number) :
    List (Option Number × Constraint Number) :=
  net.orderedConstraints.filterMap fun c =>
    match recorded c.id with
    | none => some (none, c)
    | some old => if old == c.weight then none else some (some old, c)

namespace Report

/-- The recorded weight of a constraint as the report shows it. -/
def recordedCell (constraint : Int) : Option Number → Except ReportError String
  | none => .error (.number (.unrecorded constraint))
  | some old => numberCell old

/-- The line of a change. -/
def changeLine (space : Option AtomSpace) (change : Option Number × Constraint Number) :
    Except ReportError String := do
  let old ← recordedCell change.2.id change.1
  let new ← numberCell change.2.weight
  let line ← constraintLine space change.2
  return s!"  {old} -> {new}  {line}"

/-- The changes of a network since its weights were recorded. -/
def changes (space : Option AtomSpace) (net : Network Number) (recorded : Int → Option Number) :
    Except ReportError String := do
  let lines ← (net.changes recorded).mapM (changeLine space)
  return textOf (["", rule, "Reconstructed weights:", rule] ++
    (if lines.isEmpty then ["  (no weight changed)"] else lines))

end Report

end MarkovLogic
