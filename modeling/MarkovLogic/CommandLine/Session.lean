import MarkovLogic.CommandLine.Options
import MarkovLogic.Grounding.Build
import MarkovLogic.Report.Changes
import MarkovLogic.Report.Dot
import MarkovLogic.Report.Listing

/-!
# Sessions

A session grounds a sample knowledge base, reports on the network and, if new weights are given,
reweights it. It is computed as a whole: `Outcome.ofArguments` says what is printed, what is written
to a file and how the program ends, and the program's entry only carries that out.
-/

namespace MarkovLogic

/-- What a run of the program amounts to. -/
structure Outcome where
  exitCode : Nat
  output : String
  errors : List String
  /-- The path and the contents of a file to write. -/
  file : Option (String × String)
deriving DecidableEq, Repr

/-- What a session has produced so far. -/
structure Transcript where
  output : String := ""
  file : Option (String × String) := none

/-- Why a session ends early. -/
structure Failure where
  exitCode : Nat
  message : String

/-- A session; one that ends early keeps its transcript. -/
abbrev Session : Type → Type := ExceptT Failure (StateM Transcript)

namespace Session

/-- Adds text to the output. -/
def print (text : String) : Session Unit :=
  modify fun t => { t with output := t.output ++ text }

/-- The result of a step, where a fault ends the session with the given explanation. -/
def orFail {ε α : Type} (explain : ε → String) : Except ε α → Session α
  | .ok a => return a
  | .error e => throw ⟨1, explain e⟩

/-- Prints a report. -/
def printReport (report : Except ReportError String) : Session Unit := do
  print (← orFail (fun e => "Report failed: " ++ e.message) report)

/-- How many constraints a session lists. -/
def listingLimit (quiet : Bool) : Int :=
  if quiet then 20 else 200

/-- Prints the name of a sample and its rules. -/
def printRules (sample : Sample) (kb : KnowledgeBase) : Session Unit := do
  print (Report.textOf [s!"Knowledge base: {sample.name} -- {kb.description}"])
  print (Report.textOf (kb.clauses.zipIdx.map fun (c, i) => s!"  {i}: {c.text}"))

/-- Reweights a network and prints the changes. -/
def reweight (o : Options) (kb : KnowledgeBase) (g : Grounding Number) (weights : List Number) :
    Session (Network Number) := do
  let wanted := kb.clauses.length
  if weights.length ≠ wanted then
    throw ⟨2, s!"--weights needs {wanted} values, got {weights.length}"⟩
  let (net, result) := g.network.reweight weights (Clause.hardFlags kb.clauses) o.policy
  let _ ← orFail (fun e => "Reconstruction failed: " ++ e.message) result
  printReport (Report.changes g.space net fun id => (g.network.constraint? id).map (·.weight))
  return net

/-- Writes a drawing of a network to a file. -/
def draw (space : AtomSpace) (net : Network Number) (path : String) : Session Unit := do
  let drawing ← orFail (fun e => "Report failed: " ++ e.message) (Report.dot space net)
  modify fun t => { t with file := some (path, drawing) }
  print (Report.dotNote path)

/-- The session that the options ask for. -/
def ofOptions (o : Options) : Session Unit := do
  let kb ← orFail (fun e => "Reading failed: " ++ e.message) o.sample.book.read
  printRules o.sample kb
  let g ← orFail (fun e => "Grounding failed: " ++ e.message) (kb.problem {
    weightHard := o.hardWeight
    trackDependencies := o.weights.isSome
    noNegativeWeights := o.noNegativeWeights }).ground
  printReport (Report.summary g.space g.network (listingLimit o.quiet))
  unless o.quiet do printReport (Report.occurrences g.space g.network)
  let net ← match o.weights with
    | some weights => reweight o kb g weights
    | none => pure g.network
  match o.dot with
  | some path => unless path.isEmpty do draw g.space net path
  | none => pure ()

end Session

namespace Outcome

/-- The name of the program in its messages. -/
def programName : String := "groundnet"

/-- The help text. -/
def helpText : String :=
  Report.textOf <|
    s!"usage: {programName} [options]" ::
      Flag.all.map fun f =>
        "  " ++ Text.joined ", " f.spellings ++ (if f.takesValue then " VALUE" else "")

/-- The outcome of a session. -/
def ofSession (s : Session Unit) : Outcome :=
  match s.run.run {} with
  | (.ok (), t) => ⟨0, t.output, [], t.file⟩
  | (.error failure, t) => ⟨failure.exitCode, t.output, [failure.message], t.file⟩

/-- The outcome of a run with the given arguments. -/
def ofArguments (args : List String) : Outcome :=
  match Options.read args with
  | .ok o => ofSession (Session.ofOptions o)
  | .error .help => ⟨0, helpText, [], none⟩
  | .error (.usage e) => ⟨2, "", [s!"{programName}: error: {e.message}"], none⟩

end Outcome

end MarkovLogic
