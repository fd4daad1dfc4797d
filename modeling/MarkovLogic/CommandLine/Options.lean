import MarkovLogic.CommandLine.Flag
import MarkovLogic.Decimal.Numeral

/-!
# Reading the command line

The arguments are first told apart into options and values (`ArgumentKind`) and then taken from left
to right. An option that is given again replaces what was given before. The first fault ends the
reading, and so does a request for help.
-/

namespace MarkovLogic

/-- What the command line asks for. -/
structure Options where
  sample : Sample := .smokers
  hardWeight : Option Number := none
  noNegativeWeights : Bool := false
  /-- New weights of the rules. -/
  weights : Option (List Number) := none
  policy : MixedPolicy := .hardWins
  /-- Where to write a drawing. -/
  dot : Option String := none
  quiet : Bool := false
  verbose : Bool := false

/-- Why reading ends early. -/
inductive Halt where
  | help
  | usage (e : UsageError)
deriving DecidableEq, Repr

namespace Options

/-! ## Values -/

/-- The pieces of a text between commas. -/
def splitCommas : List Char → List (List Char)
  | [] => [[]]
  | c :: rest =>
    match splitCommas rest with
    | [] => [[c]]
    | piece :: pieces => if c = ',' then [] :: piece :: pieces else (c :: piece) :: pieces

/-- The numbers of a text with commas between them; blank pieces are passed over. -/
def readNumbers? (s : String) : Option (List Number) :=
  ((splitCommas s.toList).filter fun piece => !piece.all Text.isBlank).mapM fun piece =>
    (Numeral.readOption? (String.ofList piece)).map Number.real

/-- The options with one that takes no value. -/
def setSwitch (o : Options) : Flag → Options
  | .noNegativeWeights => { o with noNegativeWeights := true }
  | .quiet => { o with quiet := true }
  | .verbose => { o with verbose := true }
  | _ => o

/-- The options with the value of one that takes a value. -/
def setValue (o : Options) (f : Flag) (value : String) : Except UsageError Options :=
  match f with
  | .knowledgeBase =>
    match Sample.ofName? value with
    | some sample => .ok { o with sample }
    | none => .error (.invalidChoice f value (Sample.all.map Sample.name))
  | .policy =>
    match MixedPolicy.ofName? value with
    | some policy => .ok { o with policy }
    | none => .error (.invalidChoice f value (MixedPolicy.all.map MixedPolicy.name))
  | .hardWeight =>
    match Numeral.readOption? value with
    | some x => .ok { o with hardWeight := some (.real x) }
    | none => .error (.invalidNumber f value)
  | .weights =>
    match readNumbers? value with
    | some numbers => .ok { o with weights := some numbers }
    | none => .error (.invalidNumbers f value)
  | .dot => .ok { o with dot := some value }
  | _ => .ok o

/-! ## Arguments -/

/-- The characters that are left over behind a spelling of one letter. A letter that spells an
option of its own is no value; `h` is the only one, so a run of it asks for help and nothing else.
No character at all is left over as it is. -/
def leftOver? (value : List Char) : Option (List Char) :=
  let rest := value.dropWhile (· = 'h')
  if value.isEmpty || !rest.isEmpty then some rest else none

/-- The options where a value was announced and the marker for the end of all options stands in its
place: there are no new weights in the list, and no drawing. -/
def withoutValue (o : Options) : Flag → Options
  | .weights => { o with weights := some [] }
  | .dot => { o with dot := none }
  | _ => o

/-- Takes an option with the value attached to it. -/
def takeAttached (o : Options) (f : Flag) : Attached → Except Halt Options
  | .none => if f = .help then .error .help else .ok (o.setSwitch f)
  | .equals value =>
    if !f.takesValue then .error (.usage (.valueIgnored f (String.ofList value)))
    else if value = ['-', '-'] then .ok (o.withoutValue f)
    else (o.setValue f (String.ofList value)).mapError .usage
  | .adjoining value =>
    match leftOver? value with
    | some ignored => .error (.usage (.valueIgnored f (String.ofList ignored)))
    | none => .error .help

/-- Takes the arguments in order, and returns the options with the arguments that belong to none. -/
def take (o : Options) (unused : List String) :
    List (String × ArgumentKind) → Except Halt (Options × List String)
  | [] => .ok (o, unused)
  | (_, .flag f .none) :: rest =>
    if f.takesValue then
      match rest with
      | (value, .value) :: rest =>
        match o.setValue f value with
        | .ok o => take o unused rest
        | .error e => .error (.usage e)
      | _ => .error (.usage (.valueMissing f))
    else
      match o.takeAttached f .none with
      | .ok o => take o unused rest
      | .error e => .error e
  | (_, .flag f attached) :: rest =>
    match o.takeAttached f attached with
    | .ok o => take o unused rest
    | .error e => .error e
  | (given, _) :: rest => take o (unused ++ [given]) rest

/-- The options that the arguments ask for. -/
def read (args : List String) : Except Halt Options := do
  let kinds ← (ArgumentKind.ofArguments args).mapError .usage
  let (o, unused) ← take {} [] kinds
  if unused.isEmpty then return o
  else throw (.usage (.unrecognized unused))

end Options

end MarkovLogic
