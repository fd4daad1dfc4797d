import MarkovLogic.Text.Display

/-!
# Plain values

Names, terms and literals are built from outside data, which may hold a plain value in their place.
`Scalar` is such a value and `Given` a place that may hold one; both exist to be refused with a
message that shows the value.

The four kinds of plain values here are those of the data that the project reads. Values of further
kinds, such as floating-point numbers, are outside of it: as a name or a symbol they would be
refused as a whole number is, for they are no texts either, and nothing is stated about them.
-/

namespace MarkovLogic

/-- A text, a whole number, a truth value or nothing. -/
inductive Scalar where
  | text (s : String)
  | int (n : Int)
  | truth (b : Bool)
  | nothing
deriving DecidableEq, Repr

namespace Scalar

/-- A text if there is one, else nothing. -/
def ofOption : Option String → Scalar
  | some s => .text s
  | none => .nothing

/-- The value as messages show it. -/
def shown : Scalar → String
  | .text s => Text.quoted s
  | .int n => toString n
  | .truth true => "True"
  | .truth false => "False"
  | .nothing => "None"

/-- The value as running text: a text stands for itself. -/
def plain : Scalar → String
  | .text s => s
  | s => s.shown

/-- The value with a truth value counted as the number 1 or 0. -/
def counted : Scalar → Scalar
  | .truth true => .int 1
  | .truth false => .int 0
  | s => s

/-- The values name the same thing: truth values are as good as the numbers 1 and 0. -/
def same (s t : Scalar) : Bool :=
  s.counted = t.counted

@[simp]
theorem counted_ofOption (s : Option String) : (ofOption s).counted = ofOption s := by
  cases s <;> rfl

/-- A text names the same as itself and no other value does, and so it is with nothing. -/
theorem same_ofOption_iff (s : Option String) (t : Scalar) :
    (ofOption s).same t ↔ t = ofOption s := by
  rw [same, decide_eq_true_iff, counted_ofOption]
  rcases t with _ | _ | (_ | _) | _ <;> cases s <;> simp [ofOption, counted, eq_comm]

/-- A text with at least one character. -/
def isFilledText : Scalar → Bool
  | .text s => !s.isEmpty
  | _ => false

end Scalar

/-- A place that expects a value of type `α` and may hold a plain value instead. -/
inductive Given (α : Type) where
  | proper (a : α)
  | scalar (s : Scalar)

end MarkovLogic
