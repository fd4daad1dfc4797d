import MarkovLogic.Proofs.Grounding.Outline
import MarkovLogic.Proofs.Network.Reweighting
import MarkovLogic.KnowledgeBase.Basic
import Mathlib

/-!
# Reweighting and grounding again

When the weights of the soft clauses change, the network can be grounded again or the ground network
can be reweighted from its recorded frequencies. Over exact weights both give the same network
(`Problem.reweight_eq_ground`), and the weights it was grounded with change nothing.
-/

namespace MarkovLogic

/-! ## New weights -/

section NewWeights

variable {α : Type}

/-- The clause with another weight; a hard clause stays hard. -/
def Clause.reweighted (c : Clause α) (w : α) : Clause α :=
  { c with weight := c.weight.map fun _ => w }

namespace Problem

/-- The problem with new weights for its soft clauses and the given hard weight. -/
def reweighted (p : Problem α) (weights : List α) (weightHard : α) : Problem α :=
  { p with
    clauses := List.zipWith Clause.reweighted p.clauses weights
    options := { p.options with weightHard := some weightHard } }

theorem getElem?_clauses_reweighted (p : Problem α) (weights : List α) (weightHard : α) (i : Nat) :
    (p.reweighted weights weightHard).clauses[i]? =
      (p.clauses[i]?).bind fun c => (weights[i]?).map c.reweighted := by
  rw [reweighted, List.getElem?_zipWith]
  cases p.clauses[i]? <;> cases weights[i]? <;> rfl

/-- The weights of the soft clauses of the problem are the given ones. -/
def HasWeights (p : Problem α) (w : Nat → α) : Prop :=
  ∀ (i : Nat) (c : Clause α) (v : α), p.clauses[i]? = some c → c.weight = some v → w i = v

end Problem

theorem Clause.isHard_reweighted (c : Clause α) (w : α) : (c.reweighted w).isHard = c.isHard :=
  Option.isNone_map

end NewWeights

section Exact

variable {R : Type} [CommRing R]

/-! ## The reweighted problem -/

namespace Problem

theorem hasWeights_reweighted (p : Problem R) (weights : List R) (weightHard : R) :
    (p.reweighted weights weightHard).HasWeights fun i => weights[i]?.getD 0 := by
  intro i c v hc hv
  rw [getElem?_clauses_reweighted] at hc
  obtain ⟨d, _, hc⟩ := Option.bind_eq_some_iff.1 hc
  obtain ⟨w, hw, rfl⟩ := Option.map_eq_some_iff.1 hc
  obtain ⟨_, _, rfl⟩ := Option.map_eq_some_iff.1 hv
  simp only [hw, Option.getD_some]

/-- The groundings of the reweighted problem are those of the problem with reweighted clauses. -/
theorem instances_reweighted {p : Problem R} {weights : List R}
    (hl : weights.length = p.clauses.length) (weightHard : R) {space : AtomSpace}
    {ins : List (Instance R)}
    (hi : p.instances space = .ok ins) :
    (p.reweighted weights weightHard).instances space = .ok (ins.map fun inst =>
      { inst with clause := inst.clause.reweighted (weights[inst.formula]?.getD 0) }) := by
  obtain ⟨groups, hg, hi⟩ := bind_eq_ok_iff.1 hi
  obtain rfl := Except.ok.inj hi
  have hclauses : (p.reweighted weights weightHard).clauses.zipIdx =
      p.clauses.zipIdx.map fun e => (e.1.reweighted (weights[e.2]?.getD 0), e.2) := by
    refine List.ext_getElem? fun i => ?_
    rw [List.getElem?_zipIdx, getElem?_clauses_reweighted, List.getElem?_map, List.getElem?_zipIdx,
      Nat.zero_add]
    cases hc : p.clauses[i]? with
    | none => rfl
    | some c =>
      have hlt : i < weights.length := hl ▸ (List.getElem?_eq_some_iff.1 hc).1
      rw [List.getElem?_eq_getElem hlt]
      simp [List.getElem?_eq_getElem hlt]
  have hgroups : (p.reweighted weights weightHard).clauses.zipIdx.mapM
      ((p.reweighted weights weightHard).instancesOf space) =
        .ok (groups.map fun own => own.map fun inst =>
          { inst with clause := inst.clause.reweighted (weights[inst.formula]?.getD 0) }) := by
    rw [hclauses, mapM_eq_ok_iff, List.forall₂_map_left_iff, List.forall₂_map_right_iff]
    refine (mapM_eq_ok_iff.1 hg).imp fun e own ho => ?_
    refine (instancesOf_of_alike (p := p) (c := e.1) (by rfl) (by rfl) (by rfl)
      (Clause.isHard_reweighted _ _) e.2 ho).trans
      (congrArg Except.ok (List.map_congr_left fun inst hinst => ?_))
    obtain ⟨hc, hf, _⟩ := p.instance_of_mem ho hinst
    rw [hc, hf]
  refine bind_eq_ok_iff.2 ⟨_, hgroups, ?_⟩
  rw [List.map_flatten]
  rfl

end Problem

/-! ## Constraints by their outlines -/

/-- The constraint with the given outline and number, its weight from formula weights. -/
def outlined (weightHard : R) (w : Nat → R) (e : (List Int × Bool × Table Nat Int) × Nat) :
    Constraint R :=
  ⟨e.2, e.1.1, if e.1.2.1 then weightHard else weightedSum w e.1.2.2, e.1.2.1⟩

/-- Constraints that weigh the sum of weight times frequency are determined by their outlines. -/
theorem map_settled_constraintsOf {weightHard : R} {w : Nat → R} {merged : MergeTable R}
    (h : ∀ literals m, (literals, m) ∈ Table.toList merged → m.isHard = false →
      m.weight = weightedSum w m.sources) :
    (Problem.constraintsOf merged).map (Constraint.settled weightHard) =
      merged.outline.toList.zipIdx.map (outlined weightHard w) := by
  rw [Problem.constraintsOf_eq, MergeTable.zipIdx_outline, List.map_map, List.map_map]
  refine List.map_congr_left fun e he => ?_
  obtain ⟨⟨literals, weight, isHard, sources⟩, k⟩ := e
  cases isHard with
  | true => rfl
  | false =>
    have hw : weight = weightedSum w sources := h literals _ (List.fst_mem_of_mem_zipIdx he) rfl
    rw [hw]
    rfl

/-- The new weight of a constraint from recorded frequencies. -/
def newWeight (deps : DependencyMap) (weightHard : R) (w : Nat → R) (c : Constraint R) : R :=
  if c.isHard then weightHard else weightedSum w ((deps.entry? c.id).getD Table.empty)

theorem map_newWeight_constraintsOf {weightHard : R} (w : Nat → R) (merged : MergeTable R) :
    ((Problem.constraintsOf merged).map (Constraint.settled weightHard)).map (fun c =>
      { c with weight := newWeight (Problem.dependenciesOf merged) weightHard w c }) =
        merged.outline.toList.zipIdx.map (outlined weightHard w) := by
  rw [Problem.constraintsOf_eq, MergeTable.zipIdx_outline, List.map_map, List.map_map, List.map_map]
  refine List.map_congr_left fun e he => ?_
  have hentry := Problem.entry?_dependenciesOf he
  simp only [Function.comp_apply, newWeight, Constraint.settled_id, Constraint.settled_literals,
    Constraint.settled_isHard, Problem.numbered, hentry, Option.getD_some, outlined, Merged.outline]

/-! ## The reweighted network -/

variable [LinearOrder R]

namespace Problem

variable {p : Problem R} {g : Grounding R}

/-- Where clauses of negative weight are replaced, the new weights are negative where the old ones
are. -/
def KeepsSigns (p : Problem R) (weights : List R) : Prop :=
  p.options.noNegativeWeights = true → ∀ (i : Nat) (c : Clause R) (v w : R),
    p.clauses[i]? = some c → c.weight = some v → weights[i]? = some w → (w < 0 ↔ v < 0)

/-- A formula recorded for a constraint is that of a clause, which is soft if the constraint is. -/
theorem source_is_clause {space : AtomSpace} {ins : List (Instance R)} {merged : MergeTable R}
    (hi : p.instances space = .ok ins)
    (hm : MergeTable.addAll Table.empty
      (ins.flatMap (Instance.contributions p.options.noNegativeWeights)) = .ok merged)
    {literals : List Int} {m : Merged R} (hmem : (literals, m) ∈ Table.toList merged) {i : Nat}
    (hsource : i ∈ m.sources.keys) :
    i < p.clauses.length ∧
      (m.isHard = false → (Clause.hardFlags p.clauses)[i]? = some false) := by
  obtain ⟨e, he, rfl, hsoft⟩ := MergeTable.exists_contribution_of_source hm hmem hsource
  obtain ⟨inst, hinst, he⟩ := List.mem_flatMap.1 he
  obtain ⟨hc, _⟩ := p.clause_of_mem_instances hi hinst
  rw [← (literals_of_mem_contributions he).1] at hc
  refine ⟨(List.getElem?_eq_some_iff.1 hc).1, fun hm => ?_⟩
  rw [Clause.hardFlags, List.getElem?_map, hc, Option.map_some,
    ← isNone_of_mem_contributions he, hsoft hm]

section Reweight

variable {ins : List (Instance R)} {merged : MergeTable R} (hi : p.instances g.space = .ok ins)
  (hm : MergeTable.addAll Table.empty
    (ins.flatMap (Instance.contributions p.options.noNegativeWeights)) = .ok merged)
  (hn : p.networkOf g.space merged = .ok g.network)
  {weights : List R} (hl : weights.length = p.clauses.length)

include hn in
/-- Every constraint of the network comes from a merged one, and what contributed is recorded. -/
theorem exists_merged_of_mem {c : Constraint R} (hc : c ∈ g.network.constraints) :
    ∃ literals m, (literals, m) ∈ Table.toList merged ∧ c.isHard = m.isHard ∧
      DependencyMap.entry? (dependenciesOf merged) c.id = some m.sources := by
  rw [(p.constraints_of_networkOf hn).1, constraintsOf_eq, List.map_map] at hc
  obtain ⟨⟨⟨literals, m⟩, k⟩, he, rfl⟩ := List.mem_map.1 hc
  refine ⟨literals, m, List.fst_mem_of_mem_zipIdx he, ?_, ?_⟩
  · rw [Function.comp_apply, Constraint.settled_isHard]
    rfl
  · rw [Function.comp_apply, Constraint.settled_id]
    exact entry?_dependenciesOf he

include hn in
theorem nodup_ids_of_networkOf : (g.network.constraints.map (·.id)).Nodup := by
  have hid : (fun c : Constraint R => c.id) ∘ Constraint.settled g.network.weightHard =
      fun c => c.id := funext fun c => Constraint.settled_id _ c
  rw [(p.constraints_of_networkOf hn).1, List.map_map, hid]
  exact nodup_map_id_constraintsOf merged

include hi hm hn hl in
/-- The weights fit the network, so that reweighting starts. -/
theorem checkReweight_of_ground (htrack : p.options.trackDependencies = true) :
    g.network.checkReweight weights (Clause.hardFlags p.clauses) =
      .ok (dependenciesOf merged, ⟨weights, Clause.hardFlags p.clauses⟩) := by
  refine Network.checkReweight_eq_ok ((p.constraints_of_networkOf hn).2 htrack) ?_ ?_ ?_ ?_
  · exact mapM_eq_ok_iff.2 (List.forall₂_same.2 fun _ _ => rfl)
  · rw [hl, Clause.hardFlags, List.length_map]
  · intro c hc
    obtain ⟨_, m, _, _, he⟩ := exists_merged_of_mem hn hc
    exact (Table.contains_iff _).2 ((Table.mem_keys_iff _).2 ⟨m.sources, he⟩)
  · intro i hsource
    obtain ⟨literals, m, hmem, hsource⟩ := exists_of_mem_formulaIndices hsource
    rw [hl]
    exact (source_is_clause hi hm hmem hsource).1

include hi hm hn in
/-- The weight of one constraint is computed from what contributed to it. -/
theorem combine_of_ground {c : Constraint R} (hc : c ∈ g.network.constraints) :
    FormulaWeights.combine ⟨weights, Clause.hardFlags p.clauses⟩ g.network.weightHard .hardWins
        c.isHard ((( DependencyMap.entry? (dependenciesOf merged) c.id).map Table.toList).getD []) =
      .ok (newWeight (dependenciesOf merged) g.network.weightHard (fun i => weights[i]?.getD 0)
        c) := by
  obtain ⟨literals, m, hmem, hhard, he⟩ := exists_merged_of_mem hn hc
  rw [newWeight, he, hhard]
  cases hm' : m.isHard with
  | true => exact FormulaWeights.combine_hard _ _ _
  | false =>
    refine FormulaWeights.combine_soft _ _ _ fun e hsource => ?_
    have hkey : e.1 ∈ m.sources.keys := List.mem_map_of_mem (f := Prod.fst) hsource
    rw [FormulaWeights.isHard, (source_is_clause hi hm hmem hkey).2 hm', Option.getD_some]

include hi hm hn hl in
/-- **Reweighting a ground network computes the weights from the outlines of its constraints.** -/
theorem reweight_of_ground (htrack : p.options.trackDependencies = true) :
    g.network.reweight weights (Clause.hardFlags p.clauses) .hardWins =
      ({ g.network with
          constraints := (merged.outline.toList.zipIdx.map
            (outlined g.network.weightHard fun i => weights[i]?.getD 0)) },
        .ok g.network.constraints.length) := by
  rw [Network.reweight_eq (checkReweight_of_ground hi hm hn hl htrack) (nodup_ids_of_networkOf hn)
      fun c hc => combine_of_ground hi hm hn hc,
    (p.constraints_of_networkOf hn).1, map_newWeight_constraintsOf]

end Reweight

/-! ## The network by its own weights -/

theorem weighs_of_mem_contributions {w : Nat → R} {noNeg : Bool} {inst : Instance R}
    (hw : ∀ v, inst.clause.weight = some v → v = w inst.formula) {e : Nat × Contribution R}
    (h : e ∈ inst.contributions noNeg) : Contribution.Weighs w e := by
  intro v hv
  unfold Instance.contributions at h
  split at h
  · obtain ⟨c, hc, rfl⟩ := List.mem_map.1 h
    unfold Clause.contributions at hc
    split at hc
    · rw [List.mem_singleton.1 hc] at hv
      cases hv
    · next u hu =>
      have hu := hw u hu
      split at hc
      · obtain ⟨x, _, rfl⟩ := List.mem_map.1 hc
        rw [← Option.some.inj hv, WeightArith.exact_neg, hu]
        simp
      · rw [List.mem_singleton.1 hc] at hv ⊢
        rw [← Option.some.inj hv, hu]
        simp
  · cases h

/-- The constraints of a ground network weigh what their outlines and the weights of the clauses
say. -/
theorem constraints_of_ground {ins : List (Instance R)} {merged : MergeTable R}
    (hi : p.instances g.space = .ok ins)
    (hm : MergeTable.addAll Table.empty
      (ins.flatMap (Instance.contributions p.options.noNegativeWeights)) = .ok merged)
    (hn : p.networkOf g.space merged = .ok g.network) {w : Nat → R} (hw : p.HasWeights w) :
    g.network.constraints =
      merged.outline.toList.zipIdx.map (outlined g.network.weightHard w) := by
  have hweighs : ∀ e ∈ ins.flatMap (Instance.contributions p.options.noNegativeWeights),
      Contribution.Weighs w e := by
    intro e he
    obtain ⟨inst, hinst, he⟩ := List.mem_flatMap.1 he
    obtain ⟨hc, _⟩ := p.clause_of_mem_instances hi hinst
    exact weighs_of_mem_contributions (fun v hv => (hw _ _ v hc hv).symm) he
  rw [← map_settled_constraintsOf fun literals m => MergeTable.weighs_addAll w hweighs hm,
    (p.constraints_of_networkOf hn).1]

/-! ## Grounding again -/

/-- Where the signs are kept, contributions change in nothing but their weights. -/
theorem outline_contributions_reweighted {weights : List R}
    (hl : weights.length = p.clauses.length) (hsign : p.KeepsSigns weights) {inst : Instance R}
    (hc : p.clauses[inst.formula]? = some inst.clause) :
    (Instance.contributions p.options.noNegativeWeights { inst with
        clause := inst.clause.reweighted (weights[inst.formula]?.getD 0) }).map
        Contribution.outline =
      (inst.contributions p.options.noNegativeWeights).map Contribution.outline := by
  unfold Instance.contributions
  cases inst.outcome with
  | dropped => rfl
  | violated => rfl
  | kept literals =>
    have hlt : inst.formula < weights.length := hl ▸ (List.getElem?_eq_some_iff.1 hc).1
    have hw := List.getElem?_eq_getElem hlt
    simp only [hw, Option.getD_some]
    unfold Clause.contributions Clause.reweighted
    cases hv : inst.clause.weight with
    | none => rfl
    | some v =>
      simp only [Option.map_some]
      have hneg : (p.options.noNegativeWeights &&
            WeightArith.isNegative weights[inst.formula]) =
          (p.options.noNegativeWeights && WeightArith.isNegative v) := by
        cases hn : p.options.noNegativeWeights with
        | false => rfl
        | true =>
          rw [Bool.true_and, Bool.true_and]
          exact decide_eq_decide.2 (hsign hn inst.formula inst.clause v _ hc hv hw)
      rw [hneg]
      split
      · simp [Contribution.outline, Function.comp_def]
      · rfl

/-- Grounding the reweighted problem succeeds, with constraints of the same outlines. -/
theorem ground_reweighted (hg : p.ground = .ok g) {ins : List (Instance R)}
    {merged : MergeTable R} (hi : p.instances g.space = .ok ins)
    (hm : MergeTable.addAll Table.empty
      (ins.flatMap (Instance.contributions p.options.noNegativeWeights)) = .ok merged)
    (hn : p.networkOf g.space merged = .ok g.network) {weights : List R}
    (hl : weights.length = p.clauses.length) (hsign : p.KeepsSigns weights) :
    ∃ g', (p.reweighted weights g.network.weightHard).ground = .ok g' ∧
      g'.network = { g.network with
        constraints := (merged.outline.toList.zipIdx.map
          (outlined g.network.weightHard fun i => weights[i]?.getD 0)) } := by
  obtain ⟨hclosed, hb, _⟩ := p.ground_eq_ok_iff.1 hg
  have hi' := instances_reweighted hl g.network.weightHard hi
  obtain ⟨merged', hm'⟩ := MergeTable.exists_addAll Table.empty
    (List.flatMap (Instance.contributions p.options.noNegativeWeights) (ins.map fun inst =>
      { inst with clause := inst.clause.reweighted (weights[inst.formula]?.getD 0) }))
  -- contributions differ in their weights only, and everything but the weights is in the outline
  have houtline : merged'.outline = merged.outline := by
    refine MergeTable.outline_eq_of_map_eq hm hm' ?_
    rw [List.flatMap_map, List.map_flatMap, List.map_flatMap, List.flatMap_def, List.flatMap_def]
    refine congrArg List.flatten (List.map_congr_left fun inst hinst => ?_)
    exact outline_contributions_reweighted hl hsign (p.clause_of_mem_instances hi hinst).1
  have hshape : (constraintsOf merged').map Constraint.shape =
      (constraintsOf merged).map Constraint.shape := by
    rw [map_shape_constraintsOf, map_shape_constraintsOf, houtline]
  obtain ⟨w, _, hassemble⟩ := p.networkOf_eq_ok_iff.1 hn
  have hassemble' := Network.assemble_of_shape hassemble hshape
    (WeightArith.exact_settle g.network.weightHard)
  rw [← atomsOf_congr hshape, dependenciesOf_eq_outline, ← houtline,
    ← dependenciesOf_eq_outline] at hassemble'
  have hn' := (networkOf_eq_ok_iff (p.reweighted weights g.network.weightHard)).2
    ⟨g.network.weightHard, rfl, hassemble'⟩
  obtain ⟨g', hg', hspace, hnet⟩ := exists_ground (p.reweighted weights g.network.weightHard)
    hclosed hb hi' hm' hn'
  refine ⟨g', hg', ?_⟩
  have hconstraints := constraints_of_ground
    (p := p.reweighted weights g.network.weightHard) (g := g') (hspace.symm ▸ hi') hm'
    (by rw [hspace, hnet]; exact hn') (hasWeights_reweighted p weights g.network.weightHard)
  rw [hnet] at hconstraints ⊢
  rw [← houtline, ← hconstraints]

/-- **Reweighting a ground network and grounding the reweighted problem give the same network**, and
reweighting with the weights of the grounding changes nothing. -/
theorem reweight_eq_ground (hg : p.ground = .ok g) (htrack : p.options.trackDependencies = true) :
    (∀ weightHard, p.options.weightHard = some weightHard →
      g.network.weightHard = weightHard) ∧
    (∀ weights : List R, weights.length = p.clauses.length → p.KeepsSigns weights →
      ∃ g', (p.reweighted weights g.network.weightHard).ground = .ok g' ∧
        g.network.reweight weights (Clause.hardFlags p.clauses) .hardWins =
          (g'.network, .ok g.network.constraints.length)) ∧
    ∀ weights : List R, weights.length = p.clauses.length →
      p.HasWeights (fun i => weights[i]?.getD 0) →
        g.network.reweight weights (Clause.hardFlags p.clauses) .hardWins =
          (g.network, .ok g.network.constraints.length) := by
  obtain ⟨ins, merged, hi, hm, hn⟩ := p.merged_of_ground hg
  refine ⟨?_, ?_, ?_⟩
  · intro weightHard hw
    obtain ⟨w, hw', hn⟩ := p.networkOf_eq_ok_iff.1 hn
    obtain ⟨-, -, -, -, w'', index, hsettle, -, hnet⟩ := Network.assemble_eq_ok_iff.1 hn
    rw [hardWeight, hw, Except.ok.injEq] at hw'
    rw [hnet, hw', ← Except.ok.inj hsettle]
  · intro weights hl hsign
    obtain ⟨g', hg', hnet⟩ := ground_reweighted hg hi hm hn hl hsign
    exact ⟨g', hg', by rw [reweight_of_ground hi hm hn hl htrack, hnet]⟩
  · intro weights hl hw
    rw [reweight_of_ground hi hm hn hl htrack, ← constraints_of_ground hi hm hn hw]

end Problem

end Exact

/-- The rules about friends with negative weights replaced: a doubled negative weight and a larger
positive one, and the weights as they are. -/
theorem Problem.reweight_eq_ground_friends :
    ∃ g, (friends { trackDependencies := true, noNegativeWeights := true }).ground = .ok g ∧
      (friends { trackDependencies := true, noNegativeWeights := true }).KeepsSigns [-6, 0, 5] ∧
      (∃ g', ((friends { trackDependencies := true, noNegativeWeights := true }).reweighted
          [-6, 0, 5] g.network.weightHard).ground = .ok g' ∧
        g.network.reweight [-6, 0, 5] [false, true, false] .hardWins =
          (g'.network, .ok g.network.constraints.length)) ∧
      g.network.reweight [-3, 0, 2] [false, true, false] .hardWins =
        (g.network, .ok g.network.constraints.length) := by
  have hshape : (friends { trackDependencies := true, noNegativeWeights := true }).ground.map
      (fun g => g.network.constraints.length) = .ok 8 := by cbv
  obtain ⟨g, hg, _⟩ := map_eq_ok_iff.1 hshape
  have hsign : (friends { trackDependencies := true, noNegativeWeights := true }).KeepsSigns
      [-6, 0, 5] := by
    intro _ i c v w hc hv hw
    rcases i with _ | _ | _ | i
    · obtain rfl := Option.some.inj hc
      obtain rfl := Option.some.inj hv
      obtain rfl := Option.some.inj hw
      decide
    · obtain rfl := Option.some.inj hc
      cases hv
    · obtain rfl := Option.some.inj hc
      obtain rfl := Option.some.inj hv
      obtain rfl := Option.some.inj hw
      decide
    · cases hc
  have hown : (friends { trackDependencies := true, noNegativeWeights := true }).HasWeights
      fun i => ([-3, 0, 2] : List Int)[i]?.getD 0 := by
    intro i c v hc hv
    rcases i with _ | _ | _ | i
    · obtain rfl := Option.some.inj hc
      exact Option.some.inj hv
    · obtain rfl := Option.some.inj hc
      cases hv
    · obtain rfl := Option.some.inj hc
      exact Option.some.inj hv
    · cases hc
  obtain ⟨_, hnew, hsame⟩ := reweight_eq_ground hg rfl
  exact ⟨g, hg, hsign, hnew _ rfl hsign, hsame _ rfl hown⟩

end MarkovLogic
