import MarkovLogic.Identifier

/-!
# Terms

A term is a constant, a variable of a domain, or a function applied to terms. The domain of a
constant is where the constant was declared: it is kept for reports and plays no part in equality
(`Term.Equality`).

Walks over terms are written for a term and for a list of terms together, and the list form of each
walk is the term form applied along the list.
-/

namespace MarkovLogic

/-- A constant symbol with the domain it was declared in. -/
structure Constant where
  symbol : Identifier
  domain : Option String
  notLower : symbol.startsLower = false
deriving DecidableEq, Repr

/-- A variable that ranges over the constants of a domain. -/
structure Variable where
  name : Identifier
  domain : Option String
  lower : name.startsLower = true
deriving DecidableEq, Repr

/-- A term of the first-order language. -/
inductive Term where
  | const (c : Constant)
  | var (v : Variable)
  /-- A function applied to arguments; the domain is that of its values. -/
  | app (function : Identifier) (args : List Term) (domain : Option String)
deriving Repr

namespace Term

/-- Induction on terms with the hypothesis for every argument. -/
theorem induction {P : Term → Prop} (const : ∀ c, P (.const c)) (var : ∀ v, P (.var v))
    (app : ∀ f args d, (∀ a ∈ args, P a) → P (.app f args d)) (t : Term) : P t :=
  @Term.rec P (fun ts => ∀ a ∈ ts, P a) const var app
    (fun _ h => absurd h List.not_mem_nil)
    (fun _ _ head tail _ h => (List.mem_cons.1 h).elim (fun e => e ▸ head) (tail _)) t

/-! ## Construction from outside data -/

/-- The constant with the given symbol. -/
def constant (symbol : Scalar) (domain : Option String) : Except ExpressionError Constant := do
  let symbol ← NameRole.constant.identifier symbol
  if h : symbol.startsLower = false then return ⟨symbol, domain, h⟩
  else throw (.lowercaseConstant symbol)

/-- The variable with the given name. -/
def variableOf (name : Scalar) (domain : Option String) : Except ExpressionError Variable := do
  let name ← NameRole.variableName.identifier name
  if h : name.startsLower = true then return ⟨name, domain, h⟩
  else throw (.uppercaseVariable name)

/-- The arguments of a predicate or function, all of which have to be terms. -/
def arguments (head : Identifier) : List (Given Term) → Except ExpressionError (List Term)
  | [] => return []
  | .proper t :: rest => return t :: (← arguments head rest)
  | .scalar s :: _ => throw (.argumentNotTerm head s)

/-- The application of a function to the given arguments. -/
def application (name : Scalar) (args : List (Given Term)) (domain : Option String) :
    Except ExpressionError Term := do
  let name ← NameRole.function.identifier name
  return .app name (← arguments name args) domain

/-- The variable or constant that an identifier standing alone denotes. -/
def ofIdentifier (name : Identifier) (domain : Option String) : Term :=
  if h : name.startsLower = true then .var ⟨name, domain, h⟩
  else .const ⟨name, domain, by simpa using h⟩

/-! ## Parts -/

/-- The domain that a term carries. -/
def domain : Term → Option String
  | .const c => c.domain
  | .var v => v.domain
  | .app _ _ d => d

mutual

/-- The term and everything nested in it, the outer term before its arguments. -/
def subterms : Term → List Term
  | .const c => [.const c]
  | .var v => [.var v]
  | .app f args d => .app f args d :: subtermsList args

/-- The subterms of the terms in order. -/
def subtermsList : List Term → List Term
  | [] => []
  | t :: ts => subterms t ++ subtermsList ts

end

theorem subtermsList_eq (ts : List Term) : subtermsList ts = ts.flatMap subterms := by
  induction ts with
  | nil => rfl
  | cons t ts ih => simp [subtermsList, ih]

mutual

/-- No variable occurs in the term. -/
def isGround : Term → Bool
  | .const _ => true
  | .var _ => false
  | .app _ args _ => isGroundList args

/-- No variable occurs in the terms. -/
def isGroundList : List Term → Bool
  | [] => true
  | t :: ts => isGround t && isGroundList ts

end

theorem isGroundList_eq (ts : List Term) : isGroundList ts = ts.all isGround := by
  induction ts with
  | nil => rfl
  | cons t ts ih => simp [isGroundList, ih]

/-! ## Texts -/

mutual

/-- The text form: constants and variables bare, functions with their arguments in parentheses. -/
def chars : Term → List Char
  | .const c => c.symbol.chars
  | .var v => v.name.chars
  | .app f args _ => f.chars ++ '(' :: charsList args ++ [')']

/-- The text forms of the terms with commas between them. -/
def charsList : List Term → List Char
  | [] => []
  | [t] => chars t
  | t :: u :: ts => chars t ++ ',' :: charsList (u :: ts)

end

/-- The text form as a string. -/
def text (t : Term) : String :=
  String.ofList t.chars

/-- A domain in the constructor form. -/
def domainText (domain : Option String) : String :=
  (Scalar.ofOption domain).shown

mutual

/-- The constructor form, which shows every field of a term. -/
def constructorText : Term → String
  | .const c => s!"Constant(symbol={Text.quoted c.symbol.text}, domain={domainText c.domain})"
  | .var v => s!"Variable(name={Text.quoted v.name.text}, domain={domainText v.domain})"
  | .app f args d =>
    s!"Function(name={Text.quoted f.text}, args=({constructorTextList args}), " ++
      s!"domain={domainText d})"

/-- The constructor forms of arguments; a single one is followed by a comma. -/
def constructorTextList : List Term → String
  | [] => ""
  | [t] => constructorText t ++ ","
  | t :: u :: ts => constructorText t ++ ", " ++ constructorTextTail (u :: ts)

/-- The constructor forms with commas between them. -/
def constructorTextTail : List Term → String
  | [] => ""
  | [t] => constructorText t
  | t :: u :: ts => constructorText t ++ ", " ++ constructorTextTail (u :: ts)

end

end Term

end MarkovLogic
