import MarkovLogic.Proofs.Network.Score
import MarkovLogic.Proofs.Network.Flips
import MarkovLogic.Proofs.Grounding.TrueGroundings
import MarkovLogic.Proofs.Grounding.Outline
import MarkovLogic.Proofs.Grounding.Acceptance

/-!
# The default hard weight

Unless the problem gives a weight for hard constraints, grounding takes one more than the magnitudes
of all soft weights together (`weightHard_of_networkOf`). So among two truth assignments the one
that satisfies more hard constraints has the greater score, whatever soft constraints they satisfy
(`Problem.dominates_of_ground`). Over exact weights whatever can be listed can be ground
(`Problem.exists_ground_of_exact_instances`).
-/

namespace MarkovLogic

variable {R : Type} [CommRing R] [LinearOrder R]

theorem MergeTable.defaultHardWeight_eq (table : MergeTable R) :
    defaultHardWeight table = .ok (1 +
      (((Table.values table).filter fun m => !m.isHard).map fun m => |m.weight|).sum) := by
  have hfold : ∀ (ms : List (Merged R)) (start : R),
      ms.foldlM (fun sum m => WeightArith.add sum (WeightArith.abs m.weight)) start =
        .ok (start + (ms.map fun m => |m.weight|).sum) := by
    intro ms
    induction ms with
    | nil =>
      intro start
      rw [List.map_nil, List.sum_nil, add_zero]
      rfl
    | cons m ms ih =>
      intro start
      rw [List.foldlM_cons, WeightArith.exact_add, List.map_cons, List.sum_cons, ← add_assoc]
      exact ih _
  refine bind_eq_ok_iff.2 ⟨_, hfold _ _, ?_⟩
  rw [WeightArith.exact_zero, zero_add]
  rfl

namespace Problem

variable {p : Problem R}

section

variable {space : AtomSpace} {merged : MergeTable R} {net : Network R}
  (h : p.networkOf space merged = .ok net)

include h

/-- In a ground network the hard constraints carry the hard weight. -/
theorem weight_of_isHard {k : Constraint R} (hk : k ∈ net.constraints) (hhard : k.isHard = true) :
    k.weight = net.weightHard := by
  rw [(p.constraints_of_networkOf h).1] at hk
  obtain ⟨c, -, rfl⟩ := List.mem_map.1 hk
  rw [Constraint.settled_isHard] at hhard
  unfold Constraint.settled
  rw [if_pos hhard]

/-- The soft constraints of a ground network weigh what the soft merged constraints do. -/
theorem softMagnitude_eq : net.softMagnitude =
    (((Table.values merged).filter fun m => !m.isHard).map fun m => |m.weight|).sum := by
  have hconstraints : net.constraints.map (fun k => if !k.isHard then |k.weight| else 0) =
      (Table.toList merged).map fun e => if !e.2.isHard then |e.2.weight| else 0 := by
    refine p.map_constraints_of_networkOf h fun e _ => ?_
    rw [Constraint.settled_isHard]
    unfold Constraint.settled numbered
    cases e.1.2.isHard <;> rfl
  rw [Network.softMagnitude, sum_filter_eq_sum_ite, sum_filter_eq_sum_ite, hconstraints,
    Table.values, List.map_map]
  rfl

/-- A network keeps an exact hard weight as it is. -/
theorem hardWeight_of_networkOf : p.hardWeight merged = .ok net.weightHard := by
  obtain ⟨w, hw, hassemble⟩ := p.networkOf_eq_ok_iff.1 h
  obtain ⟨-, -, -, -, _, _, hsettle, -, rfl⟩ := Network.assemble_eq_ok_iff.1 hassemble
  rw [hw, ← Except.ok.inj hsettle]

/-- **By default the hard weight is one more than the magnitudes of the soft weights together.** -/
theorem weightHard_of_networkOf (hdefault : p.options.weightHard = none) :
    net.weightHard = 1 + net.softMagnitude := by
  have hw := hardWeight_of_networkOf h
  rw [hardWeight, hdefault] at hw
  simp only at hw
  rw [MergeTable.defaultHardWeight_eq] at hw
  rw [softMagnitude_eq h, Except.ok.inj hw]

end

/-- **Over exact weights every list of instances makes a ground network.** -/
theorem exists_ground_of_exact_instances {space : AtomSpace} {ins : List (Instance R)}
    (hclosed : ∀ s ∈ p.evidence.keys, s ∉ p.query ∧ s ∉ p.hidden)
    (hb : AtomSpace.build p.schema p.domains p.query p.hidden = .ok space)
    (hi : p.instances space = .ok ins) : ∃ g, p.ground = .ok g ∧ g.space = space := by
  have hspace := hasSpace_of_layout hb
  obtain ⟨merged, hm⟩ := MergeTable.exists_addAll Table.empty
    (ins.flatMap (Instance.contributions p.options.noNegativeWeights))
  obtain ⟨w, hw⟩ : ∃ w, p.hardWeight merged = .ok w := by
    unfold hardWeight
    cases p.options.weightHard with
    | none => exact ⟨_, MergeTable.defaultHardWeight_eq merged⟩
    | some w => exact ⟨w, rfl⟩
  obtain ⟨net, hn⟩ : ∃ net, p.networkOf space merged = .ok net :=
    exists_networkOf (fun _ hl => ne_nil_of_mem_keys hi hm hl)
      (fun _ hl _ hx => (range_of_mem_keys hi hm hl hspace hx).1) hw (WeightArith.exact_settle w)
  obtain ⟨g, hg, hs, -⟩ := p.exists_ground hclosed hb hi hm hn
  exact ⟨g, hg, hs⟩

variable [IsStrictOrderedRing R]

/-- **The default hard weight dominates.** Two truth assignments to the atoms of a ground network
give every constraint a truth value, and if the first satisfies more hard constraints than the
second, its score is greater by one at least, whatever soft constraints they satisfy. -/
theorem dominates_of_ground {g : Grounding R} (hg : p.ground = .ok g)
    (hdefault : p.options.weightHard = none) {truth truth' : Nat → Option Bool}
    (ht : ∀ a ∈ g.network.atoms, ∃ b, truth a.id.natAbs = some b)
    (ht' : ∀ a ∈ g.network.atoms, ∃ b, truth' a.id.natAbs = some b) :
    (∀ k ∈ g.network.constraints,
      (∃ b, k.isSatisfied truth = some b) ∧ ∃ b, k.isSatisfied truth' = some b) ∧
    (g.network.hardSatisfied truth' < g.network.hardSatisfied truth →
      g.network.score truth' + 1 ≤ g.network.score truth) := by
  obtain ⟨_, merged, -, -, hn⟩ := p.merged_of_ground hg
  obtain ⟨_, -, hassemble⟩ := p.networkOf_eq_ok_iff.1 hn
  constructor
  · intro k hk
    obtain ⟨b, hb, -⟩ :=
      Constraint.isSatisfied_of_defined (Network.defined_of_assemble hassemble ht hk)
    obtain ⟨b', hb', -⟩ :=
      Constraint.isSatisfied_of_defined (Network.defined_of_assemble hassemble ht' hk)
    exact ⟨⟨b, hb⟩, b', hb'⟩
  · exact Network.score_add_one_le truth truth' (fun k hk => weight_of_isHard hn hk)
      (weightHard_of_networkOf hn hdefault).ge

/-- All persons are friends in the first world, and Anna is a friend of Bob only in the second. -/
theorem dominates_of_ground_friends :
    ∃ g, (friends {}).ground = .ok g ∧
      g.network.hardSatisfied (fun _ => some true) = 2 ∧
      g.network.hardSatisfied (fun id => some (id == 2)) = 1 ∧
      g.network.score (fun id => some (id == 2)) + 1 ≤ g.network.score fun _ => some true := by
  have hcounts : (friends {}).ground.map (fun g =>
      (g.network.hardSatisfied (fun _ => some true),
        g.network.hardSatisfied fun id => some (id == 2))) = .ok (2, 1) := by cbv
  obtain ⟨g, hg, hcount⟩ := map_eq_ok_iff.1 hcounts
  obtain ⟨hfirst, hsecond⟩ := Prod.mk.inj hcount
  have ht : ∀ a ∈ g.network.atoms, ∃ b, (fun _ => some true) a.id.natAbs = some b :=
    fun _ _ => ⟨true, rfl⟩
  have ht' : ∀ a ∈ g.network.atoms, ∃ b, (fun id => some (id == 2)) a.id.natAbs = some b :=
    fun _ _ => ⟨_, rfl⟩
  exact ⟨g, hg, hfirst, hsecond, (dominates_of_ground hg rfl ht ht').2 (by omega)⟩

end Problem

end MarkovLogic
