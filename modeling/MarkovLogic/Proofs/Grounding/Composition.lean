import MarkovLogic.Proofs.Grounding.Acceptance
import MarkovLogic.Proofs.Grounding.Enumeration
import Mathlib

/-!
# What a ground network is made of

A ground network holds, for each list of literals, the total of its shares, and nothing else
(`Problem.composes_of_ground`): its constraints come in the order of their first share, a recorded
frequency adds up the signs of a formula's shares, a share of a hard clause makes a constraint hard,
and the soft weights of any other constraint are added up in order.
-/

namespace MarkovLogic

variable {α : Type}

/-! ## Parts of the statement -/

/-- The groundings of a problem in order, each simplified against the evidence. -/
structure Problem.Enumerates (p : Problem α) (space : AtomSpace) (ins : List (Instance α)) :
    Prop where
  choices : ins.map Instance.choice = p.choices
  clause : ∀ inst ∈ ins, p.clauses[inst.formula]? = some inst.clause
  simplifies : ∀ inst ∈ ins,
    p.Simplifies space inst.assignment inst.clause inst.outcome.kept?

/-- The shares with the given literals, in order. -/
def sharesOf (shares : List (Nat × Contribution α)) (literals : List Int) :
    List (Nat × Contribution α) :=
  shares.filter fun e => e.2.literals = literals

/-- The constraints and their recorded dependencies are the totals of the shares. -/
structure Network.Composes [WeightArith α] (net : Network α) (deps : DependencyMap)
    (noNegativeWeights : Bool) (ins : List (Instance α)) (shares : List (Nat × Contribution α)) :
    Prop where
  shares_eq : shares = ins.flatMap (Instance.shares noNegativeWeights)
  exists_iff : ∀ literals, (∃ c ∈ net.constraints, c.literals = literals) ↔
    ∃ e ∈ shares, e.2.literals = literals
  ids : net.constraints.map (·.id) = (List.range net.constraints.length).map Int.ofNat
  first_share : net.constraints.map (·.literals) = (shares.map fun e => e.2.literals).eraseDups
  frequency : ∀ c ∈ net.constraints, ∀ i : Nat, deps.frequency c.id i =
    (((sharesOf shares c.literals).filter fun e => e.1 = i).map fun e => e.2.frequency).sum
  isHard_iff : ∀ c ∈ net.constraints, c.isHard = true ↔ ∃ inst ∈ ins,
    inst.clause.isHard = true ∧ ∃ e ∈ inst.shares noNegativeWeights, e.2.literals = c.literals
  weight_hard : ∀ c ∈ net.constraints, c.isHard = true → c.weight = net.weightHard
  weight_soft : ∀ c ∈ net.constraints, c.isHard = false →
    ((sharesOf shares c.literals).filterMap fun e => e.2.weight).foldlM WeightArith.add
      WeightArith.zero = .ok c.weight

variable [WeightArith α]

/-! ## Weights -/

/-- The soft weights of the contributions are added in order. -/
theorem Merged.foldlM_weight_addAll {entries : List (Nat × Contribution α)} :
    ∀ {m m' : Merged α}, m.addAll entries = .ok m' →
      (entries.filterMap fun e => e.2.weight).foldlM WeightArith.add m.weight = .ok m'.weight := by
  induction entries with
  | nil =>
    intro m m' h
    obtain rfl := Except.ok.inj h
    rfl
  | cons e entries ih =>
    intro m m' h
    obtain ⟨u, hu, h⟩ := addAll_cons_eq_ok_iff.1 h
    obtain ⟨-, -, hw⟩ := add_eq_ok_iff.1 hu
    rw [List.filterMap_cons]
    cases hv : e.2.weight with
    | none =>
      simp only [hv] at hw
      rw [← hw]
      exact ih h
    | some w =>
      simp only [hv] at hw
      exact (foldlM_cons_eq_ok_iff _).2 ⟨u.weight, hw, ih h⟩

theorem Instance.isHard_of_mem_shares {noNeg : Bool} {inst : Instance α} {e : Nat × Contribution α}
    (h : e ∈ inst.shares noNeg) : e.2.weight.isNone = inst.clause.isHard := by
  rw [← contributions_eq_shares] at h
  exact isNone_of_mem_contributions h

namespace Problem

/-! ## The constraints of the network -/

section

variable {p : Problem α} {space : AtomSpace} {noNeg : Bool} {ins : List (Instance α)}
  {merged : MergeTable α}
  (hm : MergeTable.addAll Table.empty (ins.flatMap (Instance.shares noNeg)) = .ok merged)
  {net : Network α} (hn : p.networkOf space merged = .ok net)

include hm hn

/-- **Merging composes the network of the shares.** -/
theorem composes_of_networkOf :
    net.Composes (dependenciesOf merged) noNeg ins (ins.flatMap (Instance.shares noNeg)) := by
  have hconstraints := (p.constraints_of_networkOf hn).1
  have hkeys : net.constraints.map (·.literals) = Table.keys merged := by
    rw [hconstraints, List.map_map, ← map_literals_constraintsOf]
    simp [Function.comp_def]
  have hfirst := hkeys.trans (MergeTable.keys_addAll hm)
  -- each constraint is a merged one, which is the total of its own shares
  have hsub : ∀ c ∈ net.constraints, ∃ m k, ((c.literals, m), k) ∈ (Table.toList merged).zipIdx ∧
      c.id = k ∧ c.isHard = m.isHard ∧
      (c.weight = if m.isHard then net.weightHard else m.weight) ∧
      Merged.empty.addAll (sharesOf (ins.flatMap (Instance.shares noNeg)) c.literals) = .ok m := by
    intro c hc
    obtain ⟨m, k, he, hid, hhard, hweight⟩ := exists_merged_of_networkOf hn hc
    exact ⟨m, k, he, hid, hhard, hweight,
      MergeTable.addAll_of_mem hm (List.fst_mem_of_mem_zipIdx he)⟩
  refine ⟨rfl, ?_, ?_, hfirst, ?_, ?_, ?_, ?_⟩
  · intro literals
    have hmem : literals ∈ net.constraints.map (·.literals) ↔
        literals ∈ (ins.flatMap (Instance.shares noNeg)).map fun e => e.2.literals := by
      rw [hfirst, List.mem_eraseDups]
    simpa only [List.mem_map] using hmem
  · rw [hconstraints, List.map_map, List.length_map]
    simpa [Function.comp_def] using map_id_constraintsOf merged
  · intro c hc i
    obtain ⟨m, k, he, hid, -, -, hadd⟩ := hsub c hc
    rw [hid, frequency_dependenciesOf he, Merged.frequency_addAll i hadd]
    apply Int.zero_add
  · intro c hc
    obtain ⟨m, k, -, -, hhard, -, hadd⟩ := hsub c hc
    have hany := Merged.isHard_addAll hadd
    rw [hhard, hany]
    change (false || _) = true ↔ _
    rw [Bool.false_or, List.any_eq_true]
    constructor
    · rintro ⟨e, he, hnone⟩
      obtain ⟨hshare, hl⟩ := List.mem_filter.1 he
      obtain ⟨inst, hinst, hshare⟩ := List.mem_flatMap.1 hshare
      rw [Instance.isHard_of_mem_shares hshare] at hnone
      exact ⟨inst, hinst, hnone, e, hshare, by simpa using hl⟩
    · rintro ⟨inst, hinst, hclause, e, hshare, hl⟩
      have hmem := List.mem_flatMap.2 ⟨inst, hinst, hshare⟩
      refine ⟨e, List.mem_filter.2 ⟨hmem, by simpa using hl⟩, ?_⟩
      rw [Instance.isHard_of_mem_shares hshare, hclause]
  · intro c hc hh
    obtain ⟨m, k, -, -, hhard, hweight, -⟩ := hsub c hc
    rw [hweight, ← hhard, if_pos hh]
  · intro c hc hh
    obtain ⟨m, k, -, -, hhard, hweight, hadd⟩ := hsub c hc
    rw [hweight, ← hhard, hh, if_neg (by decide)]
    exact Merged.foldlM_weight_addAll hadd

end

/-! ## The main statement -/

/-- **A ground network is exactly the multiset of its simplified groundings.** -/
theorem composes_of_ground {p : Problem α} {g : Grounding α} (hg : p.ground = .ok g)
    (htrack : p.options.trackDependencies = true) :
    ∃ ins deps shares, p.Enumerates g.space ins ∧ g.network.dependencies = some deps ∧
      g.network.Composes deps p.options.noNegativeWeights ins shares ∧
      g.groundings = ins.length ∧ g.dropped = ins.countP fun inst => inst.outcome.kept?.isNone := by
  obtain ⟨-, -, progress, hp, hn, hgroundings, hdropped, -⟩ := p.ground_eq_ok_iff.1 hg
  obtain ⟨ins, hi, hm, hlength, hcount, -⟩ := p.groundClauses_eq_ok_iff.1 hp
  have hshares : Instance.contributions p.options.noNegativeWeights =
      Instance.shares (α := α) p.options.noNegativeWeights :=
    funext (Instance.contributions_eq_shares _)
  have hdrop : (Instance.isDropped : Instance α → Bool) = fun inst =>
      inst.outcome.kept?.isNone := by
    funext inst
    unfold Instance.isDropped Grounded.kept?
    cases inst.outcome <;> rfl
  rw [hshares] at hm
  refine ⟨ins, dependenciesOf progress.merged, _, ⟨map_choice_instances hi, ?_, ?_⟩,
    (p.constraints_of_networkOf hn).2 htrack, composes_of_networkOf hm hn,
    hgroundings.trans hlength, ?_⟩
  · exact fun inst hinst => (p.clause_of_mem_instances hi hinst).1
  · exact fun inst hinst => simplifies_of_simplify (p.clause_of_mem_instances hi hinst).2
  · rw [hdropped, hcount, hdrop]

/-- The rules about friends, the first of which is replaced because of its negative weight. -/
theorem composes_of_ground_friends :
    ∃ g, (friends { trackDependencies := true, noNegativeWeights := true }).ground = .ok g ∧
      ∃ ins deps shares,
        (friends { trackDependencies := true, noNegativeWeights := true }).Enumerates g.space ins ∧
        g.network.dependencies = some deps ∧ g.network.Composes deps true ins shares ∧
        g.groundings = ins.length ∧
        g.dropped = ins.countP fun inst => inst.outcome.kept?.isNone := by
  have hshape : (friends { trackDependencies := true, noNegativeWeights := true }).ground.map
      (fun g => g.groundings) = .ok 12 := by cbv
  obtain ⟨g, hg, _⟩ := map_eq_ok_iff.1 hshape
  exact ⟨g, hg, composes_of_ground hg rfl⟩

end Problem

end MarkovLogic
