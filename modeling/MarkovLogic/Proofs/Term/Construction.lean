import MarkovLogic.Clause
import MarkovLogic.Proofs.Runs

/-!
# Construction from parts

Terms, atoms and clauses are built from outside data by constructors that check it. What is built
once is built again from its own parts: the name of a constant, a variable, a function or a
predicate is an identifier (`NameRole.identifier_eq_ok_iff`) and starts as it should, the arguments
are terms (`Term.arguments_map_proper`), and a clause has a literal (`Clause.ofGiven_literals`).
-/

namespace MarkovLogic

theorem NameRole.identifier_eq_ok_iff {role : NameRole} {s : String} {i : Identifier} :
    role.identifier (.text s) = .ok i ↔ i.text = s := by
  unfold identifier Identifier.ofString?
  by_cases h : Text.isWordRun s.toList = true
  · obtain ⟨text, hw⟩ := i
    simp [h, eq_comm]
  · simp only [h, Bool.false_eq_true, dif_neg, not_false_eq_true, Option.map_none, Option.getD_none]
    constructor
    · intro he
      cases he
    · rintro rfl
      exact absurd i.isWordRun h

namespace Term

/-- A name that does not start lowercase is that of a constant. -/
theorem constant_text {i : Identifier} (h : i.startsLower = false) (domain : Option String) :
    constant (.text i.text) domain = .ok ⟨i, domain, h⟩ := by
  refine bind_eq_ok_iff.2 ⟨i, NameRole.identifier_eq_ok_iff.2 rfl, ?_⟩
  rw [dif_pos h]
  rfl

/-- A name that starts lowercase is that of a variable. -/
theorem variableOf_text {i : Identifier} (h : i.startsLower = true) (domain : Option String) :
    variableOf (.text i.text) domain = .ok ⟨i, domain, h⟩ := by
  refine bind_eq_ok_iff.2 ⟨i, NameRole.identifier_eq_ok_iff.2 rfl, ?_⟩
  rw [dif_pos h]
  rfl

theorem arguments_map_proper (head : Identifier) (ts : List Term) :
    arguments head (ts.map .proper) = .ok ts := by
  induction ts with
  | nil => rfl
  | cons t ts ih => exact bind_eq_ok_iff.2 ⟨ts, ih, rfl⟩

theorem application_text (f : Identifier) (ts : List Term) (domain : Option String) :
    application (.text f.text) (ts.map .proper) domain = .ok (.app f ts domain) :=
  bind_eq_ok_iff.2 ⟨f, NameRole.identifier_eq_ok_iff.2 rfl,
    bind_eq_ok_iff.2 ⟨ts, arguments_map_proper f ts, rfl⟩⟩

end Term

theorem Atom.ofGiven_text (i : Identifier) (ts : List Term) :
    Atom.ofGiven (.text i.text) (ts.map .proper) = .ok ⟨i, ts⟩ :=
  bind_eq_ok_iff.2 ⟨i, NameRole.identifier_eq_ok_iff.2 rfl,
    bind_eq_ok_iff.2 ⟨ts, Term.arguments_map_proper i ts, rfl⟩⟩

namespace Clause

variable {α : Type}

theorem literalsOf_map_proper (ls : List Literal) : literalsOf (ls.map .proper) = .ok ls := by
  induction ls with
  | nil => rfl
  | cons l ls ih => exact bind_eq_ok_iff.2 ⟨ls, ih, rfl⟩

/-- A clause is built again from its literals. -/
theorem ofGiven_literals (c : Clause α) :
    ofGiven (c.literals.map .proper) c.weight c.label = .ok c := by
  refine bind_eq_ok_iff.2 ⟨c.literals, literalsOf_map_proper c.literals, ?_⟩
  rw [dif_neg c.nonempty]
  rfl

end Clause

end MarkovLogic
