import MarkovLogic.AtomSpace.Basic

/-!
# Numbers of ground atoms and back

The number of an atom is the start of its predicate's block plus the place of its symbols among all
tuples, the first argument counting most. `encode` computes it from the positions of the symbols,
and `decode` finds the block by bisection and takes the place apart from the last argument on.
-/

namespace MarkovLogic

/-- Why an atom has no number or a number no atom. -/
inductive AtomLookupError where
  | notOpen (signature : Signature)
  | arity (signature : Signature) (wanted got : Nat)
  | notInDomain (symbol : String) (domain : Option String)
  | outOfRange (id : Int) (size : Nat)
  /-- The block that the bisection ends at has an empty argument domain. -/
  | emptyDomain
deriving DecidableEq, Repr

/-- The wording of an error. -/
def AtomLookupError.message : AtomLookupError → String
  | .notOpen s => s!"{s.text} is not an open-world predicate"
  | .arity s wanted got => s!"{s.text} takes {wanted} arguments, got {got}"
  | .notInDomain symbol domain =>
    s!"{Text.quoted symbol} is not in domain {(Scalar.ofOption domain).shown}"
  | .outOfRange id size => s!"atom id {id} is outside [1, {size}]"
  | .emptyDomain => "an argument domain is empty"

/-- The number of entries up to and including the last one not above `x`, found by bisection between
`low` and `high`. -/
def bisect (entries : Array Nat) (x : Int) (low high : Nat) : Nat :=
  if low < high then
    let middle := (low + high) / 2
    if x < (entries[middle]?.getD 0 : Nat) then bisect entries x low middle
    else bisect entries x (middle + 1) high
  else low
termination_by high - low

namespace AtomSpace

/-- The position of a symbol in a symbol list; of a repeated symbol the last one. -/
def position? (pool : List String) (symbol : String) : Option Nat :=
  (pool.zipIdx.reverse.find? fun e => e.1 = symbol).map Prod.snd

/-- The number of symbols in a symbol list, each counted once. -/
def radix (pool : List String) : Nat :=
  pool.eraseDups.length

/-- The place of a tuple among all tuples, given the place of what precedes it. -/
def tuplePlace (symbols : Table (Option String) (List String)) (place : Nat) :
    List (Option String) → List String → Except AtomLookupError Nat
  | domain :: places, symbol :: rest =>
    let pool := (symbols.get? domain).getD []
    match position? pool symbol with
    | none => .error (.notInDomain symbol domain)
    | some i => tuplePlace symbols (place * radix pool + i) places rest
  | _, _ => .ok place

variable (space : AtomSpace)

/-- The number of the atom of an open predicate with the given symbols. -/
def encode (signature : Signature) (tuple : List String) : Except AtomLookupError Nat :=
  match space.starts.get? signature with
  | none => .error (.notOpen signature)
  | some start =>
    let places := (space.schema.get? signature).getD []
    if tuple.length ≠ places.length then .error (.arity signature places.length tuple.length)
    else do return start + (← tuplePlace space.symbols 0 places tuple)

/-- The symbols at a place, taken apart from the last symbol list on; the lists are given in reverse
order. -/
def tupleAt (place : Int) : List (List String) → Except AtomLookupError (List String)
  | [] => .ok []
  | pool :: pools =>
    if pool.length = 0 then .error .emptyDomain
    else do
      let symbol := pool[(place % pool.length).toNat]?.getD ""
      return symbol :: (← tupleAt (place / pool.length) pools)

/-- The starts of the blocks in the order of the blocks. -/
def blockStarts : Array Nat :=
  (space.predicates.map fun s => (space.starts.get? s).getD 0).toArray

/-- The predicate whose block the bisection finds for a number. A number below all starts counts
back from the end and belongs to the last predicate. -/
def owner? (id : Int) : Option Signature :=
  let starts := space.blockStarts
  match bisect starts id 0 starts.size with
  | 0 => space.predicates.getLast?
  | n + 1 => space.predicates[n]?

/-- The predicate and the symbols of the atom with the given number. -/
def decode (id : Int) : Except AtomLookupError (Signature × List String) :=
  if id < 1 || (space.size : Int) < id then .error (.outOfRange id space.size)
  else
    match space.owner? id with
    | none => .error (.outOfRange id space.size)
    | some signature => do
      let start := (space.starts.get? signature).getD 0
      let tuple ← tupleAt (id - start) (space.argumentPools signature).reverse
      return (signature, tuple.reverse)

/-- The text of the literal with the given signed number. -/
def describe (literal : Int) : Except AtomLookupError String := do
  let (signature, tuple) ← space.decode literal.natAbs
  let text := signature.name ++ "(" ++ Text.joined "," tuple ++ ")"
  return if 0 < literal then text else "!" ++ text

end AtomSpace

end MarkovLogic
