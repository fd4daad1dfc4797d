import MarkovLogic.Atom
import MarkovLogic.Domain.Basic
import MarkovLogic.Reading.Vocabulary

/-!
# The space of ground atoms

The ground atoms of the open predicates are numbered from 1. Each open predicate owns a block of
consecutive numbers, one for each tuple of symbols of its argument domains. The blocks of the query
predicates come first, those of the hidden predicates after them, in the order in which the
predicates are listed. A predicate that is listed again gets another block, and that one counts.
-/

namespace MarkovLogic

/-- Why no space can be laid out. -/
inductive SpaceError where
  | queryAndHidden (signatures : List Signature)
  | noSchema (signature : Signature)
  | unknownDomain (signature : Signature) (domain : Option String)
deriving DecidableEq, Repr

/-- The wording of an error. -/
def SpaceError.message : SpaceError → String
  | .queryAndHidden signatures =>
    let names := (sortSymbols (signatures.map Signature.text)).map Text.quoted
    "predicates both query and hidden: [" ++ Text.joined ", " names ++ "]"
  | .noSchema s => s!"no schema for predicate {s.text}"
  | .unknownDomain s domain =>
    s!"predicate {s.text} ranges over unknown domain {(Scalar.ofOption domain).shown}"

/-- The numbering of the ground atoms of the open predicates. -/
structure AtomSpace where
  schema : PredicateSchema
  /-- The ascending symbols of the domains that open predicates range over. -/
  symbols : Table (Option String) (List String)
  query : List Signature
  hidden : List Signature
  /-- The first number of the block of each open predicate. -/
  starts : Table Signature Nat
  /-- The last number of a query atom. -/
  queryEnd : Nat
  /-- The number of numbers. -/
  size : Nat

namespace AtomSpace

/-! ## Layout -/

/-- The symbol lists of the domains of an argument list. -/
def pools (symbols : Table (Option String) (List String)) (places : List (Option String)) :
    List (List String) :=
  places.map fun domain => (symbols.get? domain).getD []

/-- The number of tuples with one element of each list. -/
def volume : List (List String) → Nat
  | [] => 1
  | pool :: pools => pool.length * volume pools

/-- Adds the sorted symbols of one domain that a predicate ranges over. -/
def addDomain (domains : Domains) (signature : Signature)
    (symbols : Table (Option String) (List String)) (domain : Option String) :
    Except SpaceError (Table (Option String) (List String)) :=
  if symbols.contains domain then .ok symbols
  else
    match domains.symbols? (.ofOption domain) with
    | none => .error (.unknownDomain signature domain)
    | some list => .ok (symbols.insert domain (sortSymbols list))

/-- The sorted symbols of all domains that the predicates range over. -/
def collectSymbols (schema : PredicateSchema) (domains : Domains) (signatures : List Signature) :
    Except SpaceError (Table (Option String) (List String)) :=
  signatures.foldlM (fun symbols signature =>
    match schema.get? signature with
    | none => .error (.noSchema signature)
    | some places => places.foldlM (addDomain domains signature) symbols) Table.empty

/-- The number of ground atoms of a predicate. -/
def blockSize (schema : PredicateSchema) (symbols : Table (Option String) (List String))
    (signature : Signature) : Nat :=
  volume (pools symbols ((schema.get? signature).getD []))

/-- Gives each predicate in turn the numbers from `next` on, and returns the next free number. -/
def allocate (size : Signature → Nat) (starts : Table Signature Nat) (next : Nat) :
    List Signature → Table Signature Nat × Nat
  | [] => (starts, next)
  | s :: rest => allocate size (starts.insert s next) (next + size s) rest

/-- Lays out the space of the given open predicates. -/
def build (schema : PredicateSchema) (domains : Domains) (query hidden : List Signature) :
    Except SpaceError AtomSpace := do
  let overlap := query.eraseDups.filter hidden.contains
  if !overlap.isEmpty then throw (.queryAndHidden overlap)
  let symbols ← collectSymbols schema domains (query ++ hidden)
  let size := blockSize schema symbols
  let (starts, next) := allocate size Table.empty 1 query
  let (allStarts, last) := allocate size starts next hidden
  return ⟨schema, symbols, query, hidden, allStarts, next - 1, last - 1⟩

variable (space : AtomSpace)

/-- The open predicates in the order of their blocks. -/
def predicates : List Signature :=
  space.query ++ space.hidden

/-- The predicate has numbered atoms. -/
def isOpen (signature : Signature) : Bool :=
  space.starts.contains signature

/-- The predicate is a query predicate. -/
def isQueryPredicate (signature : Signature) : Bool :=
  space.query.contains signature

/-- The symbol lists of the arguments of a predicate. -/
def argumentPools (signature : Signature) : List (List String) :=
  pools space.symbols ((space.schema.get? signature).getD [])

/-- The first number of the block of an open predicate and the first number after it. -/
def block? (signature : Signature) : Option (Nat × Nat) :=
  (space.starts.get? signature).map fun start =>
    (start, start + volume (space.argumentPools signature))

/-- The largest length that a sequence can have. -/
def maxLength : Nat := 9223372036854775807

/-- The number of atoms as the length of a sequence, if there can be one that long. -/
def length? : Option Nat :=
  if space.size ≤ maxLength then some space.size else none

/-- The space as reports show it. -/
def text : String :=
  s!"AtomSpace({space.size} atoms, query [1, {space.queryEnd}])"

end AtomSpace

end MarkovLogic
