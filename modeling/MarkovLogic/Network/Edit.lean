import MarkovLogic.Network.Basic

/-!
# Editing a network

After assembly the weight of a constraint and the truth value of an atom can be set, and nothing
else. The absent atom and the absent constraint cannot be changed at all.
-/

namespace MarkovLogic

/-- A field of a constraint that assembly fixes. -/
inductive FrozenField where
  | id
  | literals
  | isHard
deriving DecidableEq, Repr

/-- An attempt to set a field of a constraint. -/
inductive ConstraintEdit (α : Type) where
  | weight (w : α)
  | frozen (field : FrozenField)
deriving DecidableEq, Repr

/-- An attempt to set a field of an atom. -/
inductive AtomEdit where
  | state (value : Bool)
  | id
deriving DecidableEq, Repr

/-- Why a field is not set. -/
inductive EditError where
  | constraintField (field : FrozenField)
  | atomId
  | absentConstraint
  | absentAtom
deriving DecidableEq, Repr

/-- The name of a field. -/
def FrozenField.label : FrozenField → String
  | .id => "id"
  | .literals => "literals"
  | .isHard => "is_hard"

/-- The wording of an error. -/
def EditError.message : EditError → String
  | .constraintField field => s!"Constraint.{field.label} is read-only"
  | .atomId => "GroundAtom.id is read-only"
  | .absentConstraint => "NO_CONSTRAINT is read-only"
  | .absentAtom => "NO_ATOM is read-only"

/-- The constraint after an edit. -/
def Constraint.edit {α : Type} (c : Constraint α) :
    ConstraintEdit α → Except EditError (Constraint α)
  | .weight w => .ok { c with weight := w }
  | .frozen field => .error (.constraintField field)

/-- The atom after an edit. -/
def GroundAtom.edit (a : GroundAtom) : AtomEdit → Except EditError GroundAtom
  | .state value => .ok { a with state := value }
  | .id => .error .atomId

namespace Network

variable {α : Type} (net : Network α)

/-- The network with another constraint in the place of the one with its number. -/
def putConstraint (c : Constraint α) : Network α :=
  { net with constraints := net.constraints.map fun d => if d.id = c.id then c else d }

/-- The network with another atom in the place of the one with its number. -/
def putAtom (a : GroundAtom) : Network α :=
  { net with atoms := net.atoms.map fun b => if b.id = a.id then a else b }

/-- The network after an edit of the constraint with the given number. -/
def editConstraint (id : Int) (edit : ConstraintEdit α) : Except EditError (Network α) :=
  match net.constraint? id with
  | none => .error .absentConstraint
  | some c => net.putConstraint <$> c.edit edit

/-- The network after an edit of the atom that a literal is about. -/
def editAtom (literal : Int) (edit : AtomEdit) : Except EditError (Network α) :=
  match net.atom? literal.natAbs with
  | none => .error .absentAtom
  | some a => net.putAtom <$> a.edit edit

end Network

end MarkovLogic
