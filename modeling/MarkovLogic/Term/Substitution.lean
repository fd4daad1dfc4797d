import MarkovLogic.Term.Basic
import MarkovLogic.Table

/-!
# Substitution

A substitution binds variables to terms. Applying it follows chains: a bound variable is replaced by
its term with the substitution applied again. Without a cycle among the bindings no chain is longer
than the number of bindings, and that number bounds the depth of the replacement.

A binding may hold a plain value where a term belongs; reaching it fails with that value.
-/

namespace MarkovLogic

namespace Term

section

variable {ε : Type} (f : Variable → Except ε Term)

mutual

/-- The term with every variable replaced by its image, from left to right. -/
def bindVars : Term → Except ε Term
  | .const c => .ok (.const c)
  | .var v => f v
  | .app g args d => do return .app g (← bindVarsList args) d

/-- The terms with every variable replaced by its image. -/
def bindVarsList : List Term → Except ε (List Term)
  | [] => .ok []
  | t :: ts => do
    let t ← bindVars t
    let ts ← bindVarsList ts
    return t :: ts

end

end

end Term

/-- Bindings of variables in the order of their first mention. -/
abbrev Substitution : Type := Table Variable (Given Term)

namespace Substitution

/-- The substitution of the pairs whose key is a variable; the last pair of a variable counts. -/
def ofPairs (pairs : List (Given Term × Given Term)) : Substitution :=
  Table.ofList (pairs.filterMap fun
    | (.proper (.var v), image) => some (v, image)
    | _ => none)

/-- The image of a variable, with chains followed to the given depth. -/
def resolve (θ : Substitution) : Nat → Variable → Except Scalar Term
  | 0, v => .ok (.var v)
  | depth + 1, v =>
    match θ.get? v with
    | none => .ok (.var v)
    | some (.proper t) => t.bindVars (resolve θ depth)
    | some (.scalar s) => .error s

/-- The term with the substitution applied until no bound variable is left. -/
def apply (θ : Substitution) (t : Term) : Except Scalar Term :=
  t.bindVars (θ.resolve θ.size)

end Substitution

/-- The message that a plain value is not a term. -/
def notTermMessage (got : Scalar) : String :=
  s!"not a term: {got.shown}"

namespace Given

/-- The term in the place, or the plain value that stands there. -/
def term : Given Term → Except Scalar Term
  | .proper t => .ok t
  | .scalar s => .error s

end Given

end MarkovLogic
