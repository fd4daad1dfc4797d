import MarkovLogic.Term.Basic

/-!
# Equality of terms

The same symbol names the same individual wherever it is declared, so two constants are the same
when their symbols are, also inside functions. Variables and functions are told apart by their
domains. `distinct` keeps the first of each class of equal elements, which is how sets of terms are
collected.
-/

namespace MarkovLogic

/-- The constants are the same individual. -/
def Constant.same (c d : Constant) : Bool :=
  c.symbol = d.symbol

namespace Term

mutual

/-- The terms are equal. -/
def same : Term → Term → Bool
  | .const c, .const d => c.same d
  | .var v, .var w => v = w
  | .app f args d, .app f' args' d' => f = f' && d = d' && sameList args args'
  | _, _ => false

/-- The terms are equal one by one. -/
def sameList : List Term → List Term → Bool
  | [], [] => true
  | t :: ts, u :: us => same t u && sameList ts us
  | _, _ => false

end

/-- The needle is a subterm, up to equality. -/
def hasSubterm (t needle : Term) : Bool :=
  t.subterms.any (·.same needle)

end Term

/-- The elements that have no equal element before them. -/
def distinct {α : Type} (same : α → α → Bool) (xs : List α) : List α :=
  xs.foldl (fun kept x => if kept.any (same · x) then kept else kept ++ [x]) []

/-- For each element the index of the first element equal to it. -/
def firstEqual {α : Type} (same : α → α → Bool) (xs : List α) : List Nat :=
  xs.zipIdx.map fun (x, i) => ((xs.take i).findIdx? (same · x)).getD i

end MarkovLogic
