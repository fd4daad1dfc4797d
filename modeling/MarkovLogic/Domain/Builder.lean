import MarkovLogic.Domain.Basic

/-!
# Building domains

A `DomainBuilder` collects symbols and only ever grows; each domain keeps its symbols in the order
of their arrival. A `DomainMap` is what a builder held at one moment, which later insertions do not
reach, and a builder can be started from one.

Insertion refuses names and symbols that are not texts with at least one character. A batch checks
the name of the domain along with each symbol, so a batch without symbols checks nothing and only
makes the domain known.

`tryInsert` and `tryInsertAll` give the builder that a call leaves behind, whether it is refused or
not. All checks come before the first write.
-/

namespace MarkovLogic

/-- What is wrong with an insertion. -/
inductive DomainError where
  | domainName (got : Scalar)
  | symbol (got : Scalar)
deriving DecidableEq, Repr

/-- The wording of an error. -/
def DomainError.message : DomainError → String
  | .domainName got => s!"domain name must be a non-empty string, got {got.shown}"
  | .symbol got => s!"constant symbol must be a non-empty string, got {got.shown}"

/-- The symbols of each domain at one moment, ascending and each once. -/
structure DomainMap where
  domains : Domains

namespace DomainMap

/-- The map of the given symbol lists. -/
def ofDomains (d : Domains) : DomainMap :=
  ⟨d.frozen⟩

/-- The symbols of a known domain. -/
def get? (m : DomainMap) (name : Scalar) : Option (List String) :=
  m.domains.symbols? name

/-- The domain is known. -/
def contains (m : DomainMap) (name : Scalar) : Bool :=
  (m.get? name).isSome

/-- The number of symbols of the domain; an unknown one has none. -/
def sizeOf (m : DomainMap) (name : Scalar) : Nat :=
  (m.domains.symbols name).length

/-- Every domain of either map has the same symbols in both. -/
def equal (m n : DomainMap) : Bool :=
  m.domains.size = n.domains.size &&
    m.domains.toList.all fun (name, symbols) => n.get? name = some symbols

/-- Every domain of the first map has all its symbols in the second, where an unknown domain is
empty. -/
def within (m n : DomainMap) : Bool :=
  m.domains.toList.all fun (name, symbols) =>
    symbols.all fun s => (n.domains.symbols name).contains s

/-- The map as reports show it. -/
def text (m : DomainMap) : String :=
  "DomainMap(\x7b" ++ m.domains.sizesText ++ "\x7d)"

end DomainMap

/-- Symbols per domain in the order of their arrival. -/
structure DomainBuilder where
  domains : Domains

namespace DomainBuilder

/-- The builder without domains. -/
def empty : DomainBuilder := ⟨Table.empty⟩

/-- The text of an admissible symbol of an admissible domain. -/
def check (domain symbol : Scalar) : Except DomainError String :=
  if !domain.isFilledText then .error (.domainName domain)
  else
    match symbol with
    | .text s => if s.isEmpty then .error (.symbol symbol) else .ok s
    | _ => .error (.symbol symbol)

/-- The symbols with one more at the end, unless it is there. -/
def addSymbol (symbols : List String) (s : String) : List String :=
  if symbols.contains s then symbols else symbols ++ [s]

/-- The symbols of the domain in the order of their arrival. -/
def symbols (b : DomainBuilder) (domain : Scalar) : List String :=
  b.domains.symbols domain

/-- Makes a domain known. -/
def know (b : DomainBuilder) (domain : Scalar) : DomainBuilder :=
  ⟨b.domains.record domain (b.symbols domain)⟩

/-- Writes a symbol into a domain. -/
def write (domain : Scalar) (b : DomainBuilder) (s : String) : DomainBuilder :=
  ⟨b.domains.record domain (addSymbol (b.symbols domain) s)⟩

/-- Adds a symbol to a domain and tells whether it was new. -/
def tryInsert (b : DomainBuilder) (domain symbol : Scalar) :
    DomainBuilder × Except DomainError Bool :=
  match check domain symbol with
  | .error e => (b, .error e)
  | .ok s =>
    let b := b.know domain
    if (b.symbols domain).contains s then (b, .ok false) else (b.write domain s, .ok true)

/-- Adds a batch of symbols to a domain and tells how many were new. -/
def tryInsertAll (b : DomainBuilder) (domain : Scalar) (symbols : List Scalar) :
    DomainBuilder × Except DomainError Nat :=
  match symbols.mapM (check domain) with
  | .error e => (b, .error e)
  | .ok list =>
    let b := b.know domain
    let b' := list.foldl (write domain) b
    (b', .ok ((b'.symbols domain).length - (b.symbols domain).length))

/-- The builder with a symbol added to a domain, and whether it was new. -/
def insert (b : DomainBuilder) (domain symbol : Scalar) :
    Except DomainError (DomainBuilder × Bool) :=
  let (b', result) := b.tryInsert domain symbol
  result.map fun new => (b', new)

/-- The builder with a batch of symbols added to a domain, and how many were new. -/
def insertAll (b : DomainBuilder) (domain : Scalar) (symbols : List Scalar) :
    Except DomainError (DomainBuilder × Nat) :=
  let (b', result) := b.tryInsertAll domain symbols
  result.map fun count => (b', count)

/-- A builder that goes on from a map. -/
def ofDomainMap (m : DomainMap) : Except DomainError DomainBuilder :=
  m.domains.toList.foldlM (fun b (name, symbols) => do
    return (← b.insertAll name (symbols.map .text)).1) empty

/-- The number of symbols of the domain. -/
def sizeOf (b : DomainBuilder) (domain : Scalar) : Nat :=
  (b.symbols domain).length

/-- The symbol is in the domain. -/
def contains (b : DomainBuilder) (domain symbol : Scalar) : Bool :=
  match symbol with
  | .text s => (b.symbols domain).contains s
  | _ => false

/-- What the builder holds at this moment. -/
def snapshot (b : DomainBuilder) : DomainMap :=
  .ofDomains b.domains

/-- The builder as reports show it. -/
def text (b : DomainBuilder) : String :=
  "ConstantsDomainBuilder(\x7b" ++ b.domains.sizesText ++ "\x7d)"

end DomainBuilder

end MarkovLogic
