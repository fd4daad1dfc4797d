import MarkovLogic.Proofs.Network.Assembly
import MarkovLogic.Proofs.ExactWeight
import Mathlib

/-!
# Scores

The score of a truth assignment is the total weight of the constraints that it satisfies. Over exact
weights it splits into the hard weight, once for each satisfied hard constraint, and the score of
the soft constraints (`Network.score_eq`). Two assignments differ on the soft constraints by their
magnitudes together at most (`Network.softScore_le`). So a hard weight above these makes every hard
constraint count for more than all soft ones (`Network.score_add_one_le`).
-/

namespace MarkovLogic

/-- The constraint is satisfied; an assignment without a value for it does not satisfy it. -/
def Constraint.isTrue {α : Type} (truth : Nat → Option Bool) (k : Constraint α) : Bool :=
  k.isSatisfied truth = some true

namespace Network

variable {R : Type} [CommRing R] (net : Network R) (truth truth' : Nat → Option Bool)

/-- The total weight of the satisfied constraints. -/
def score : R :=
  ((net.constraints.filter (Constraint.isTrue truth)).map (·.weight)).sum

/-- The number of satisfied hard constraints. -/
def hardSatisfied : Nat :=
  net.constraints.countP fun k => k.isHard && k.isTrue truth

/-- The total weight of the satisfied soft constraints. -/
def softScore : R :=
  ((net.constraints.filter fun k => !k.isHard && k.isTrue truth).map (·.weight)).sum

variable {net}

/-- The score counts the hard weight for every satisfied hard constraint. -/
theorem score_eq (hhard : ∀ k ∈ net.constraints, k.isHard = true → k.weight = net.weightHard) :
    net.score truth = net.hardSatisfied truth * net.weightHard + net.softScore truth := by
  unfold score hardSatisfied softScore
  generalize net.constraints = cs at hhard
  induction cs with
  | nil => simp
  | cons k cs ih =>
    have ih := ih fun d hd => hhard d (List.mem_cons_of_mem _ hd)
    cases ht : k.isTrue truth with
    | false => simpa [ht] using ih
    | true =>
      cases hk : k.isHard with
      | false =>
        simp only [List.filter_cons_of_pos, ht, hk, List.map_cons, List.sum_cons, ih,
          List.countP_cons, Bool.not_false, Bool.and_self, Bool.false_and, Bool.false_eq_true,
          if_false, Nat.add_zero]
        ring
      | true =>
        have hw := hhard k List.mem_cons_self hk
        simp only [List.filter_cons, ht, hk, List.map_cons, List.sum_cons, ih,
          List.countP_cons, Bool.not_true, Bool.false_and, Bool.false_eq_true, Bool.and_self,
          if_true, if_false, hw]
        push_cast
        ring

variable [LinearOrder R]

variable (net) in
/-- The magnitudes of the weights of the soft constraints together. -/
def softMagnitude : R :=
  ((net.constraints.filter fun k => !k.isHard).map fun k => |k.weight|).sum

variable [IsStrictOrderedRing R]

theorem softMagnitude_nonneg : 0 ≤ net.softMagnitude := by
  apply List.sum_nonneg
  intro x hx
  obtain ⟨k, -, rfl⟩ := List.mem_map.1 hx
  exact abs_nonneg k.weight

/-- Two assignments differ on the soft constraints by their magnitudes at most. -/
theorem softScore_le : net.softScore truth' ≤ net.softScore truth + net.softMagnitude := by
  unfold softScore softMagnitude
  induction net.constraints with
  | nil => simp
  | cons k cs ih =>
    have hk := abs_nonneg k.weight
    have hle := le_abs_self k.weight
    have hneg := neg_le_abs k.weight
    cases hhard : k.isHard with
    | true => simpa [hhard] using ih
    | false =>
      simp only [List.filter_cons, hhard, Bool.not_false, Bool.true_and, if_true, List.map_cons,
        List.sum_cons]
      -- in the worst case only one of the two satisfies the constraint
      cases k.isTrue truth <;> cases k.isTrue truth' <;>
        simp only [if_true, if_false, Bool.false_eq_true, List.map_cons, List.sum_cons] <;> linarith

/-- **A hard weight above the magnitudes of all soft weights dominates**: whoever satisfies more
hard constraints has the greater score. -/
theorem score_add_one_le
    (hhard : ∀ k ∈ net.constraints, k.isHard = true → k.weight = net.weightHard)
    (hweight : 1 + net.softMagnitude ≤ net.weightHard)
    (hmore : net.hardSatisfied truth' < net.hardSatisfied truth) :
    net.score truth' + 1 ≤ net.score truth := by
  have hsoft : net.softScore truth' ≤ net.softScore truth + net.softMagnitude :=
    softScore_le truth truth'
  have hmagnitude : 0 ≤ net.softMagnitude := softMagnitude_nonneg
  have hcount : (net.hardSatisfied truth' : R) + 1 ≤ net.hardSatisfied truth := by
    exact_mod_cast hmore
  have hhardPart : (net.hardSatisfied truth' + 1 : R) * net.weightHard ≤
      net.hardSatisfied truth * net.weightHard :=
    mul_le_mul_of_nonneg_right hcount (by linarith)
  rw [score_eq truth hhard, score_eq truth' hhard]
  linarith

end Network

end MarkovLogic
