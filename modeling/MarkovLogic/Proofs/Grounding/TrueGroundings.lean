import MarkovLogic.Proofs.Grounding.Outcome
import MarkovLogic.Proofs.Grounding.Valuations
import MarkovLogic.Proofs.Grounding.Contributions
import MarkovLogic.Proofs.ExactWeight
import Mathlib

/-!
# True groundings

In a world, a formula has as many true groundings as the satisfied constraints of the ground network
record for it, and a number of groundings that are true in every world
(`Problem.ncard_true_groundings`). So simplification against the evidence, dropping tautologies and
merging lose no true grounding and invent none.
-/

namespace MarkovLogic

variable {α : Type}

/-- Some literal of the list holds. -/
def anyHolds (truth : Nat → Option Bool) (literals : List Int) : Bool :=
  literals.any fun x => Constraint.holds truth x = some true

/-- The grounding is kept and one of its literals holds. -/
def Instance.isSatisfied (truth : Nat → Option Bool) (inst : Instance α) : Bool :=
  match inst.outcome with
  | .kept literals => anyHolds truth literals
  | _ => false

/-! ## Counts -/

/-- Elements of the first list are counted when the first test or that of the partner holds, and
both never hold together. -/
theorem countP_add_of_forall₂ {β γ : Type} {R : β → γ → Prop} {all first : β → Bool}
    {second : γ → Bool} (h : ∀ a b, R a b → (all a = true ↔ first a = true ∨ second b = true) ∧
      ¬ (first a = true ∧ second b = true)) {l : List β} {l' : List γ} (hl : List.Forall₂ R l l') :
    l.countP all = l.countP first + l'.countP second := by
  induction hl with
  | nil => rfl
  | @cons a b _ _ hab _ ih =>
    obtain ⟨hall, hnot⟩ := h a b hab
    rw [List.countP_cons, List.countP_cons, List.countP_cons, ih]
    by_cases hf : first a = true
    · rw [if_pos (hall.2 (.inl hf)), if_pos hf, if_neg fun hs => hnot ⟨hf, hs⟩]
      omega
    · by_cases hs : second b = true
      · rw [if_pos (hall.2 (.inr hs)), if_neg hf, if_pos hs]
        omega
      · rw [if_neg fun ha => (hall.1 ha).elim hf hs, if_neg hf, if_neg hs]
        omega

/-! ## Contributions of satisfied groundings -/

section Contributions

variable [WeightArith α]

/-- Without replacement of negative weights a kept grounding contributes its literals once. -/
theorem sum_contributions (φ : List Int → Int) (inst : Instance α) :
    ((inst.contributions false).map fun e => φ e.2.literals * e.2.frequency).sum =
      match inst.outcome with
      | .kept literals => φ literals
      | _ => 0 := by
  unfold Instance.contributions Clause.contributions
  cases inst.outcome with
  | dropped => rfl
  | violated => rfl
  | kept literals => cases inst.clause.weight <;> simp

/-- Counted over groundings, contributions with a true literal are the satisfied groundings. -/
theorem sum_satisfied_contributions (truth : Nat → Option Bool) (ins : List (Instance α)) :
    ((ins.flatMap (Instance.contributions false)).map fun e =>
      (if anyHolds truth e.2.literals then 1 else 0) * e.2.frequency).sum =
        (ins.countP (Instance.isSatisfied truth) : Int) := by
  induction ins with
  | nil => rfl
  | cons inst ins ih =>
    rw [List.flatMap_cons, List.map_append, List.sum_append, ih,
      sum_contributions (fun literals => if anyHolds truth literals then 1 else 0),
      List.countP_cons]
    have hone : (match inst.outcome with
        | .kept literals => if anyHolds truth literals then (1 : Int) else 0
        | _ => 0) = if inst.isSatisfied truth then 1 else 0 := by
      unfold Instance.isSatisfied
      cases inst.outcome <;> rfl
    rw [hone]
    split <;> simp [Int.add_comm]

end Contributions

/-! ## The groundings of one clause -/

namespace Problem

section OneClause

variable {p : Problem α} {space : AtomSpace} {c : Clause α} {truth : Nat → Option Bool}

/-- A grounding is true in a world when it is true in every world or kept and satisfied, and not for
both reasons. -/
theorem clauseTrue_iff_always_or_satisfied (h : p.HasSpace space) {inst : Instance α}
    {σ : Valuation} (hσ : inst.assignment.Follows σ)
    (hi : p.simplify space c inst.assignment = .ok inst.outcome) (ht : space.Assigns truth) :
    (p.ClauseTrue space truth c σ ↔
      (∀ truth', space.Assigns truth' → p.ClauseTrue space truth' c σ) ∨
        inst.isSatisfied truth = true) ∧
    ¬ ((∀ truth', space.Assigns truth' → p.ClauseTrue space truth' c σ) ∧
      inst.isSatisfied truth = true) := by
  -- a kept grounding is false in some world, any other is as true in one world as in every other
  by_cases hk : ∃ literals, inst.outcome = .kept literals
  · obtain ⟨literals, ho⟩ := hk
    rw [ho] at hi
    have hkeeps := keeps_of_simplify hi
    obtain ⟨truth', ht', hfalse⟩ := exists_false_of_keeps h hσ hkeeps
    have hnot : ¬ ∀ truth', space.Assigns truth' → p.ClauseTrue space truth' c σ :=
      fun hall => hfalse (hall truth' ht')
    have hsat : inst.isSatisfied truth = true ↔ p.ClauseTrue space truth c σ := by
      rw [clauseTrue_iff_of_keeps h hσ hkeeps ht, Instance.isSatisfied, ho]
      simp [anyHolds]
    exact ⟨by rw [hsat, or_iff_right hnot], fun hb => hnot hb.1⟩
  · have hsat : ¬ inst.isSatisfied truth = true := by
      unfold Instance.isSatisfied
      cases ho : inst.outcome with
      | kept literals => exact absurd ⟨literals, ho⟩ hk
      | dropped => simp
      | violated => simp
    refine ⟨?_, fun hb => hsat hb.2⟩
    rw [or_iff_left hsat]
    constructor
    · intro htrue
      rcases constant_of_not_kept h hσ hi fun literals ho => hk ⟨literals, ho⟩ with hall | hnone
      · exact hall
      · exact absurd htrue (hnone truth)
    · exact fun hall => hall truth ht

/-- The true valuations of a clause are those true in every world and the satisfied groundings. -/
theorem ncard_eq_add_countP (h : p.HasSpace space) (hd : p.domains.DuplicateFree) {i : Nat}
    {own : List (Instance α)} (ho : p.instancesOf space (c, i) = .ok own)
    (ht : space.Assigns truth) :
    {σ ∈ p.valuations c | p.ClauseTrue space truth c σ}.ncard =
      {σ ∈ p.valuations c | ∀ truth', space.Assigns truth' →
        p.ClauseTrue space truth' c σ}.ncard + own.countP (Instance.isSatisfied truth) := by
  classical
  obtain ⟨pools, hp, ho⟩ := bind_eq_ok_iff.1 ho
  rw [ncard_valuations hp hd, ncard_valuations hp hd]
  refine countP_add_of_forall₂ (fun tuple inst hinst => ?_) (mapM_eq_ok_iff.1 ho)
  obtain ⟨assignment, ha, hinst⟩ := bind_eq_ok_iff.1 hinst
  obtain ⟨outcome, hs, hinst⟩ := bind_eq_ok_iff.1 hinst
  obtain rfl := Except.ok.inj hinst
  simp only [decide_eq_true_eq]
  exact clauseTrue_iff_always_or_satisfied h (follows_of_assign ha) hs ht

/-- A constraint whose atoms have values is satisfied when a literal holds. -/
theorem isSatisfied_iff_anyHolds {k : Constraint α} {truth : Nat → Option Bool}
    (h : ∀ x ∈ k.literals, ∃ b, truth x.natAbs = some b) :
    (∃ b, k.isSatisfied truth = some b) ∧
      (k.isSatisfied truth = some true ↔ anyHolds truth k.literals = true) := by
  obtain ⟨b, hb, hiff⟩ := Constraint.isSatisfied_of_defined h
  refine ⟨⟨b, hb⟩, ?_⟩
  rw [hb, Option.some.injEq, hiff, anyHolds, List.any_eq_true]
  simp only [decide_eq_true_eq]

end OneClause

/-! ## The constraints of the network -/

section Network

variable [WeightArith α] {p : Problem α}

section Satisfied

variable {merged : MergeTable α} {truth : Nat → Option Bool}
  (hdef : ∀ literals ∈ Table.keys merged, ∀ x ∈ literals, ∃ b, truth x.natAbs = some b)

include hdef

omit [WeightArith α] in
/-- A numbered constraint is satisfied when a literal of the merged one holds. -/
theorem isSatisfied_numbered (w : α) {e : (List Int × Merged α) × Nat}
    (he : e ∈ (Table.toList merged).zipIdx) :
    (∃ b, ((numbered e).settled w).isSatisfied truth = some b) ∧
      (((numbered e).settled w).isSatisfied truth = some true ↔ anyHolds truth e.1.1 = true) := by
  have hkey : e.1.1 ∈ Table.keys merged :=
    List.mem_map_of_mem (f := Prod.fst) (List.fst_mem_of_mem_zipIdx he)
  have hliterals : ∀ x ∈ ((numbered e).settled w).literals, ∃ b, truth x.natAbs = some b := by
    intro x hx
    rw [Constraint.settled_literals] at hx
    exact hdef e.1.1 hkey x hx
  have hk := isSatisfied_iff_anyHolds hliterals
  rwa [Constraint.settled_literals] at hk

/-- The frequencies of a formula over the satisfied constraints are those over the merged
constraints with a literal that holds. -/
theorem sum_frequency_constraints {space : AtomSpace} {net : Network α}
    (hn : p.networkOf space merged = .ok net) (i : Nat) :
    (∀ k ∈ net.constraints, ∃ b, k.isSatisfied truth = some b) ∧
    ((net.constraints.filter fun k => k.isSatisfied truth = some true).map fun k =>
      (dependenciesOf merged).frequency k.id i).sum =
        ((Table.toList merged).map fun e =>
          (if anyHolds truth e.1 then 1 else 0) * e.2.frequency i).sum := by
  constructor
  · rw [(p.constraints_of_networkOf hn).1, constraintsOf_eq, List.map_map]
    intro k hk
    obtain ⟨e, he, rfl⟩ := List.mem_map.1 hk
    exact (isSatisfied_numbered hdef _ he).1
  · rw [sum_filter_eq_sum_ite]
    refine congrArg List.sum (p.map_constraints_of_networkOf hn fun e he => ?_)
    have hfreq : (dependenciesOf merged).frequency ((numbered e).settled net.weightHard).id i =
        e.1.2.frequency i := by
      rw [Constraint.settled_id]
      exact frequency_dependenciesOf he i
    simp only [decide_eq_true_eq, (isSatisfied_numbered hdef _ he).2, hfreq]
    by_cases hany : anyHolds truth e.1.1 = true
    · rw [if_pos hany, if_pos hany, Int.one_mul]
    · rw [if_neg hany, if_neg hany, Int.zero_mul]

end Satisfied

end Network

/-! ## The main statement -/

/-- **Grounding preserves the number of true groundings**: in every world a formula has as many true
groundings as its frequencies over the satisfied constraints add up to, and those that are true in
every world. -/
theorem ncard_true_groundings [WeightArith α] {p : Problem α} {g : Grounding α}
    (hg : p.ground = .ok g) (htrack : p.options.trackDependencies = true)
    (hneg : p.options.noNegativeWeights = false) (hd : p.domains.DuplicateFree)
    (hq : p.query.Nodup) (hh : p.hidden.Nodup) {i : Nat} {c : Clause α}
    (hc : p.clauses[i]? = some c) {truth : Nat → Option Bool} (ht : g.space.Assigns truth) :
    ∃ deps, g.network.dependencies = some deps ∧
      (∀ k ∈ g.network.constraints, ∃ b, k.isSatisfied truth = some b) ∧
      ({σ ∈ p.valuations c | p.ClauseTrue g.space truth c σ}.ncard : Int) =
        ((g.network.constraints.filter fun k => k.isSatisfied truth = some true).map fun k =>
          deps.frequency k.id i).sum +
        {σ ∈ p.valuations c | ∀ truth', g.space.Assigns truth' →
          p.ClauseTrue g.space truth' c σ}.ncard := by
  obtain ⟨_, hb, _⟩ := p.ground_eq_ok_iff.1 hg
  have h := hasSpace_of_build hb hd hq hh
  obtain ⟨ins, merged, hi, hm, hn⟩ := p.merged_of_ground hg
  rw [hneg] at hm
  have hdef : ∀ literals ∈ Table.keys merged, ∀ x ∈ literals, ∃ b, truth x.natAbs = some b := by
    intro literals hl x hx
    obtain ⟨h1, h2⟩ := range_of_mem_keys hi hm hl h hx
    exact ht _ h1 h2
  obtain ⟨hsat, hsum⟩ := sum_frequency_constraints hdef hn i
  refine ⟨dependenciesOf merged, (p.constraints_of_networkOf hn).2 htrack, hsat, ?_⟩
  have htotal := MergeTable.sum_frequency_addAll
    (fun literals => if anyHolds truth literals then 1 else 0) i hm
  rw [filter_flatMap_contributions, sum_satisfied_contributions, Table.toList_empty, List.map_nil,
    List.sum_nil] at htotal
  rw [hsum, htotal, ncard_eq_add_countP h hd (p.instancesOf_of_instances hi hc) ht]
  omega

/-- The first rule about friends, in the world in which everyone is a friend of everyone. -/
theorem ncard_true_groundings_friends :
    ∃ g c, (friends { trackDependencies := true }).ground = .ok g ∧
      (friends { trackDependencies := true }).clauses[0]? = some c ∧
      g.space.Assigns (fun _ => some true) ∧
      ∃ deps, g.network.dependencies = some deps ∧
        (∀ k ∈ g.network.constraints, ∃ b, k.isSatisfied (fun _ => some true) = some b) ∧
        ({σ ∈ (friends { trackDependencies := true }).valuations c |
            (friends { trackDependencies := true }).ClauseTrue g.space (fun _ => some true) c
              σ}.ncard : Int) =
          ((g.network.constraints.filter fun k =>
            k.isSatisfied (fun _ => some true) = some true).map fun k =>
              deps.frequency k.id (0 : Nat)).sum +
          {σ ∈ (friends { trackDependencies := true }).valuations c |
            ∀ truth', g.space.Assigns truth' →
              (friends { trackDependencies := true }).ClauseTrue g.space truth' c σ}.ncard := by
  have hshape : (friends { trackDependencies := true }).ground.map (fun g => g.groundings) =
      .ok 12 := by cbv
  obtain ⟨g, hg, _⟩ := map_eq_ok_iff.1 hshape
  have ht : g.space.Assigns fun _ => some true := fun _ _ _ => ⟨true, rfl⟩
  exact ⟨g, _, hg, rfl, ht, ncard_true_groundings hg rfl rfl
    (DomainMap.ofDomains_duplicateFree _) (List.nodup_singleton _) List.nodup_nil rfl ht⟩

end Problem

end MarkovLogic
