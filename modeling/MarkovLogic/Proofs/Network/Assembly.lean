import MarkovLogic.Network.Basic
import MarkovLogic.Proofs.Runs

/-!
# What assembly checks and keeps

Assembly changes no constraint except that hard ones get the hard weight (`assemble_eq_ok_iff`).
Whether it succeeds does not depend on weights and hard flags: parts with the same numbers and
literals are accepted together (`assemble_of_shape`).
-/

namespace MarkovLogic

variable {α : Type}

namespace Constraint

/-- The constraint as a network keeps it. -/
def settled (weightHard : α) (c : Constraint α) : Constraint α :=
  if c.isHard then { c with weight := weightHard } else c

@[simp]
theorem settled_id (w : α) (c : Constraint α) : (c.settled w).id = c.id := by
  unfold settled
  split <;> rfl

@[simp]
theorem settled_literals (w : α) (c : Constraint α) : (c.settled w).literals = c.literals := by
  unfold settled
  split <;> rfl

@[simp]
theorem settled_isHard (w : α) (c : Constraint α) : (c.settled w).isHard = c.isHard := by
  unfold settled
  split <;> rfl

/-- The parts of a constraint that assembly looks at. -/
def shape (c : Constraint α) : Int × List Int :=
  (c.id, c.literals)

/-! ## Satisfaction -/

/-- A constraint whose atoms have values is true or false, and it is true when a literal holds. -/
theorem isSatisfied_of_defined {c : Constraint α} {truth : Nat → Option Bool}
    (h : ∀ x ∈ c.literals, ∃ b, truth x.natAbs = some b) :
    ∃ b, c.isSatisfied truth = some b ∧
      (b = true ↔ ∃ x ∈ c.literals, holds truth x = some true) := by
  unfold isSatisfied
  generalize c.literals = literals at h
  induction literals with
  | nil => exact ⟨false, rfl, by simp⟩
  | cons x rest ih =>
    obtain ⟨b, hb⟩ := h x List.mem_cons_self
    obtain ⟨r, hr, hiff⟩ := ih fun y hy => h y (List.mem_cons_of_mem _ hy)
    have hx : holds truth x = some (b == decide (0 < x)) := by rw [holds, hb, Option.map_some]
    rw [List.anyM_cons, hx]
    cases he : (b == decide (0 < x)) with
    | true => exact ⟨true, rfl, by simp [hx, he]⟩
    | false => exact ⟨r, hr, by simp [hx, he, hiff]⟩

end Constraint

namespace Network

/-! ## The occurrence tables -/

/-- Adds the mentions of a constraint, of which only number and literals count. -/
def Index.addShape (known : Int → Bool) (index : Index) (s : Int × List Int) :
    Except NetworkError Index :=
  if s.1 = -1 then .error .reservedConstraint
  else if s.2.isEmpty then .error (.noLiterals s.1)
  else s.2.foldlM (Index.addLiteral known s.1) index

theorem foldlM_addConstraint_eq (known : Int → Bool) (constraints : List (Constraint α))
    (index : Index) : constraints.foldlM (Index.addConstraint known) index =
      (constraints.map Constraint.shape).foldlM (Index.addShape known) index := by
  rw [List.foldlM_map]
  rfl

/-! ## Success -/

section

variable [WeightArith α] {constraints : List (Constraint α)} {atoms : List GroundAtom}
  {weightHard : α} {first last : Int} {deps : Option DependencyMap} {net : Network α}

/-- What an assembled network consists of and what its parts fulfil. -/
theorem assemble_eq_ok_iff :
    assemble constraints atoms weightHard first last deps = .ok net ↔
      ¬ last < first - 1 ∧ firstRepeat? (atoms.map (·.id)) = none ∧
      atoms.any (·.id ≤ 0) = false ∧ firstRepeat? (constraints.map (·.id)) = none ∧
      ∃ w index, WeightArith.settle weightHard = .ok w ∧
        (constraints.map Constraint.shape).foldlM
          (Index.addShape fun id => atoms.any (·.id = id)) ⟨Table.empty, Table.empty⟩ =
            .ok index ∧
        net = {
          constraints := constraints.map (Constraint.settled w)
          atoms, weightHard := w, queryFirst := first, queryLast := last, dependencies := deps
          positive := index.positive
          negative := index.negative
          maxWidth := (constraints.map Constraint.size).foldl max 0 } := by
  unfold assemble
  rw [foldlM_addConstraint_eq]
  by_cases h1 : last < first - 1
  · simp [h1, throw, throwThe, MonadExceptOf.throw, bind, Except.bind]
  cases h2 : firstRepeat? (atoms.map (·.id)) with
  | some id => simp [h1, throw, throwThe, MonadExceptOf.throw, bind, Except.bind]
  | none =>
    cases h3 : atoms.any (·.id ≤ 0) with
    | true => simp [h1, throw, throwThe, MonadExceptOf.throw, bind, Except.bind]
    | false =>
      cases h4 : firstRepeat? (constraints.map (·.id)) with
      | some id => simp [h1, throw, throwThe, MonadExceptOf.throw, bind, Except.bind]
      | none =>
        simp only [h1, if_false, Bool.false_eq_true, not_false_eq_true, true_and]
        rw [bind_eq_ok_iff]
        constructor
        · rintro ⟨w, hw, h⟩
          obtain ⟨index, hi, h⟩ := bind_eq_ok_iff.1 h
          exact ⟨w, index, mapError_eq_ok_iff.1 hw, hi, (Except.ok.inj h).symm⟩
        · rintro ⟨w, index, hw, hi, rfl⟩
          exact ⟨w, mapError_eq_ok_iff.2 hw, bind_eq_ok_iff.2 ⟨index, hi, rfl⟩⟩

/-- **Parts with the same numbers and literals are accepted together**, and the networks differ in
nothing but constraints and hard weight. -/
theorem assemble_of_shape {β : Type} [WeightArith β] {constraints' : List (Constraint β)}
    {weightHard' w' : β} (h : assemble constraints atoms weightHard first last deps = .ok net)
    (hs : constraints'.map Constraint.shape = constraints.map Constraint.shape)
    (hw : WeightArith.settle weightHard' = .ok w') :
    assemble constraints' atoms weightHard' first last deps = .ok {
      constraints := constraints'.map (Constraint.settled w')
      atoms := net.atoms
      weightHard := w'
      queryFirst := net.queryFirst
      queryLast := net.queryLast
      dependencies := net.dependencies
      positive := net.positive
      negative := net.negative
      maxWidth := net.maxWidth } := by
  have hids : constraints'.map (·.id) = constraints.map (·.id) := by
    have h := congrArg (List.map Prod.fst) hs
    rw [List.map_map, List.map_map] at h
    exact h
  have hsizes : constraints'.map Constraint.size = constraints.map Constraint.size := by
    have h := congrArg (List.map fun s => s.2.length) hs
    rw [List.map_map, List.map_map] at h
    exact h
  obtain ⟨h1, h2, h3, h4, w, index, _, hi, rfl⟩ := assemble_eq_ok_iff.1 h
  refine assemble_eq_ok_iff.2 ⟨h1, h2, h3, by rw [hids]; exact h4, w', index, hw, ?_, ?_⟩
  · rw [hs]
    exact hi
  · rw [hsizes]

end

end Network

end MarkovLogic
