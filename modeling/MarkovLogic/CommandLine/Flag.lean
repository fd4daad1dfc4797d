import MarkovLogic.Network.Reweighting
import MarkovLogic.KnowledgeBase.Sample

/-!
# Options of the command line

A `Flag` is an option that the command line knows, with its spellings. The long spellings may be cut
short as long as they stay unambiguous; `ArgumentKind.ofString` decides how one argument reads.
-/

namespace MarkovLogic

/-- An option of the command line. -/
inductive Flag where
  | help
  | knowledgeBase
  | hardWeight
  | noNegativeWeights
  | weights
  | policy
  | dot
  | quiet
  | verbose
deriving DecidableEq, Repr

namespace Flag

/-- All options in the order in which messages list them. -/
def all : List Flag :=
  [.help, .knowledgeBase, .hardWeight, .noNegativeWeights, .weights, .policy, .dot, .quiet,
    .verbose]

/-- The spellings of an option. -/
def spellings : Flag → List String
  | .help => ["-h", "--help"]
  | .knowledgeBase => ["--kb"]
  | .hardWeight => ["--hard-weight"]
  | .noNegativeWeights => ["--no-neg-weights"]
  | .weights => ["--weights"]
  | .policy => ["--policy"]
  | .dot => ["--dot"]
  | .quiet => ["--quiet"]
  | .verbose => ["--verbose"]

/-- The option is followed by a value. -/
def takesValue : Flag → Bool
  | .knowledgeBase | .hardWeight | .weights | .policy | .dot => true
  | .help | .noNegativeWeights | .quiet | .verbose => false

/-- The option in messages. -/
def label (f : Flag) : String :=
  Text.joined "/" f.spellings

/-- Every spelling with its option. -/
def table : List (String × Flag) :=
  all.flatMap fun f => f.spellings.map fun s => (s, f)

/-- The option that is spelled so in full. -/
def ofSpelling? (s : List Char) : Option Flag :=
  (table.find? fun e => e.1.toList = s).map Prod.snd

/-- The spellings that start with the given characters. -/
def completions (s : List Char) : List (String × Flag) :=
  table.filter fun e => s.isPrefixOf e.1.toList

end Flag

/-- A value written in the same argument as its option. -/
inductive Attached where
  | none
  /-- After a long spelling and an equals sign. -/
  | equals (value : List Char)
  /-- After a spelling of one letter, with or without an equals sign in between. -/
  | adjoining (value : List Char)
deriving DecidableEq, Repr

/-- How an argument reads. -/
inductive ArgumentKind where
  | value
  | flag (f : Flag) (attached : Attached)
  | unknownFlag
  /-- The marker after which no argument is an option. -/
  | endOfFlags
deriving DecidableEq, Repr

/-- What is wrong with the arguments. -/
inductive UsageError where
  | ambiguous (given : String) (matching : List String)
  | valueMissing (f : Flag)
  | valueIgnored (f : Flag) (value : String)
  | invalidChoice (f : Flag) (value : String) (choices : List String)
  | invalidNumber (f : Flag) (value : String)
  | invalidNumbers (f : Flag) (value : String)
  | unrecognized (args : List String)
deriving DecidableEq, Repr

/-- The wording of an error. -/
def UsageError.message : UsageError → String
  | .ambiguous given matching =>
    s!"ambiguous option: {given} could match " ++ Text.joined ", " matching
  | .valueMissing f => s!"argument {f.label}: expected one argument"
  | .valueIgnored f value =>
    s!"argument {f.label}: ignored explicit argument {Text.quoted value}"
  | .invalidChoice f value choices =>
    s!"argument {f.label}: invalid choice: {Text.quoted value} (choose from " ++
      Text.joined ", " (choices.map Text.quoted) ++ ")"
  | .invalidNumber f value => s!"argument {f.label}: invalid float value: {Text.quoted value}"
  | .invalidNumbers f value =>
    s!"argument {f.label}: expected comma-separated numbers, got {Text.quoted value}"
  | .unrecognized args => "unrecognized arguments: " ++ Text.joined " " args

namespace ArgumentKind

/-- Characters up to the first equals sign, and those after it if there is one. -/
def splitEquals : List Char → List Char × Option (List Char)
  | [] => ([], none)
  | c :: rest =>
    if c = '=' then ([], some rest)
    else
      let (name, attached) := splitEquals rest
      (c :: name, attached)

/-- At least one digit and nothing else. -/
def isDigits (cs : List Char) : Bool :=
  !cs.isEmpty && cs.all Text.isDigit

/-- The characters read as a negative number, with or without a point before the last digits. -/
def isNegativeNumber (cs : List Char) : Bool :=
  match if cs.getLast? = some '\n' then cs.dropLast else cs with
  | '-' :: rest =>
    isDigits rest ||
      match rest.dropWhile Text.isDigit with
      | '.' :: fraction => isDigits fraction
      | _ => false
  | _ => false

/-- How an argument reads that starts with a hyphen and has more characters, but spells no option.
-/
def ofUnspelled (given : String) : Except UsageError ArgumentKind :=
  let cs := given.toList
  let found : List (String × ArgumentKind) :=
    match cs with
    | '-' :: '-' :: _ =>
      let (name, attached) := splitEquals cs
      (Flag.completions name).map fun (s, f) => (s, .flag f (attached.elim .none .equals))
    | '-' :: c :: rest =>
      ((Flag.ofSpelling? ['-', c]).map fun f =>
        (String.ofList ['-', c], .flag f (.adjoining rest))).toList
    | _ => []
  match found with
  | [(_, kind)] => .ok kind
  | _ :: _ :: _ => .error (.ambiguous given (found.map Prod.fst))
  | [] => .ok (if isNegativeNumber cs || cs.contains ' ' then .value else .unknownFlag)

/-- How an argument before the end of the options reads. -/
def ofString (given : String) : Except UsageError ArgumentKind :=
  match given.toList with
  | '-' :: c :: rest =>
    match Flag.ofSpelling? ('-' :: c :: rest) with
    | some f => .ok (.flag f .none)
    | none =>
      if '-' :: c :: rest = ['-', '-'] then .ok .endOfFlags
      else
        match splitEquals ('-' :: c :: rest) with
        | (name, some attached) =>
          match Flag.ofSpelling? name with
          | some f =>
            .ok (.flag f (if name.length = 2 then .adjoining attached else .equals attached))
          | none => ofUnspelled given
        | (_, none) => ofUnspelled given
  | _ => .ok .value

/-- The arguments with the way each reads; after the marker all are values. -/
def ofArguments : List String → Except UsageError (List (String × ArgumentKind))
  | [] => .ok []
  | given :: rest => do
    match ← ofString given with
    | .endOfFlags => return (given, .endOfFlags) :: rest.map fun s => (s, .value)
    | kind => return (given, kind) :: (← ofArguments rest)

end ArgumentKind

end MarkovLogic
