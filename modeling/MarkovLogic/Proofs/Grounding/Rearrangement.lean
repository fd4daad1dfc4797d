import MarkovLogic.Proofs.Grounding.Enumeration
import MarkovLogic.Proofs.Grounding.KeptLiterals
import MarkovLogic.Proofs.Grounding.Outcome
import MarkovLogic.Proofs.ExactWeight
import Mathlib

/-!
# Rearranged literals

The literals of a clause can change their order and be repeated (`Clause.Rearranged`) without any
effect on a grounding that succeeds (`Problem.ground_eq_of_rearranged`). The order of the variables
is that of their names and domains (`Clause.orderedVariables_eq_of_mem`), so the assignments come in
the same order, and under each assignment the clause simplifies to the same literals
(`Problem.simplify_eq_of_rearranged`).
-/

namespace MarkovLogic

variable {α : Type}

/-- The clauses differ at most in the order and the repetition of their literals. -/
structure Clause.Rearranged (c c' : Clause α) : Prop where
  literals : ∀ l, l ∈ c'.literals ↔ l ∈ c.literals
  weight : c'.weight = c.weight
  label : c'.label = c.label

theorem Clause.Rearranged.isHard {c c' : Clause α} (h : c.Rearranged c') :
    c'.isHard = c.isHard := by
  rw [Clause.isHard, Clause.isHard, h.weight]

/-- The same grounding of rearranged clauses. -/
structure Instance.Rearranged (inst inst' : Instance α) : Prop where
  formula : inst'.formula = inst.formula
  clause : inst.clause.Rearranged inst'.clause
  assignment : inst'.assignment = inst.assignment
  outcome : inst'.outcome = inst.outcome

/-- The same violation of rearranged clauses. -/
structure Violation.Rearranged (v v' : Violation α) : Prop where
  clause : v.clause.Rearranged v'.clause
  assignment : v'.assignment = v.assignment

/-! ## Variables -/

namespace Clause

theorem mem_orderedVariables {c : Clause α} {v : Variable} :
    v ∈ c.orderedVariables ↔ ∃ l ∈ c.literals, v ∈ l.atom.vars := by
  rw [c.orderedVariables_perm.mem_iff, vars, mem_distinct, List.mem_flatMap]

/-- Variables with domains come in one order only. -/
theorem orderedVariables_eq_of_mem {c c' : Clause α}
    (hmem : ∀ v, v ∈ c'.orderedVariables ↔ v ∈ c.orderedVariables)
    (hdomain : ∀ v ∈ c.orderedVariables, v.domain.isSome = true) :
    c'.orderedVariables = c.orderedVariables := by
  have hperm : c'.orderedVariables.Perm c.orderedVariables :=
    (List.perm_ext_iff_of_nodup c'.nodup_orderedVariables c.nodup_orderedVariables).2 hmem
  refine hperm.eq_of_pairwise ?_ c'.orderedVariables_sorted c.orderedVariables_sorted
  intro v w hv hw hvw hwv
  obtain ⟨dv, hdv⟩ := Option.isSome_iff_exists.1 (hdomain v ((hmem v).1 hv))
  obtain ⟨dw, hdw⟩ := Option.isSome_iff_exists.1 (hdomain w hw)
  obtain ⟨⟨nv, _⟩, domv, _⟩ := v
  obtain ⟨⟨nw, _⟩, domw, _⟩ := w
  simp only at hdv hdw hvw hwv
  subst hdv hdw
  simp only [Option.getD_some] at hvw hwv
  rcases hvw with hlt | ⟨rfl, hle⟩
  · rcases hwv with hlt' | ⟨rfl, -⟩
    · exact absurd (String.lt_trans hlt hlt') (String.lt_irrefl _)
    · exact absurd hlt (String.lt_irrefl _)
  · rcases hwv with hlt' | ⟨-, hle'⟩
    · exact absurd hlt' (String.lt_irrefl _)
    · obtain rfl := String.le_antisymm hle hle'
      rfl

end Clause

namespace Problem

variable {p : Problem α} {space : AtomSpace} {c c' : Clause α}

/-- The variables of a clause that can be grounded have domains. -/
theorem isSome_domain_of_variablePools {pools : List (Variable × List String)}
    (h : p.variablePools c = .ok pools) : ∀ v ∈ c.orderedVariables, v.domain.isSome = true := by
  unfold variablePools at h
  split at h
  · cases h
  · intro v hv
    obtain ⟨entry, -, hentry⟩ := exists_of_forall₂_right (mapM_eq_ok_iff.1 h).flip hv
    unfold pool? at hentry
    cases hd : v.domain with
    | none =>
      rw [hd] at hentry
      cases hentry
    | some name => rfl

theorem variablePools_eq_of_rearranged (hc : c.Rearranged c')
    {pools pools' : List (Variable × List String)} (h : p.variablePools c = .ok pools)
    (h' : p.variablePools c' = .ok pools') : pools' = pools := by
  have hvars : c'.orderedVariables = c.orderedVariables := by
    refine Clause.orderedVariables_eq_of_mem (fun v => ?_) (isSome_domain_of_variablePools h)
    simp only [Clause.mem_orderedVariables, hc.literals]
  rw [variablePools_eq h, variablePools_eq h', hvars]

/-! ## Simplification -/

section

variable {assignment : Assignment}

theorem Keeps.of_rearranged (hc : c.Rearranged c') {literals : List Int}
    (h : p.Keeps space assignment c literals) : p.Keeps space assignment c' literals where
  ne_nil := h.ne_nil
  mem_iff x := by simpa only [hc.literals] using h.mem_iff x
  undecided l hl := h.undecided l ((hc.literals l).1 hl)
  consistent := h.consistent

theorem Simplifies.of_rearranged (hc : c.Rearranged c') {r : Option (List Int)}
    (h : p.Simplifies space assignment c r) : p.Simplifies space assignment c' r := by
  cases h with
  | satisfied hl hd => exact .satisfied ((hc.literals _).2 hl) hd
  | closed h => exact .closed fun l hl => h l ((hc.literals l).1 hl)
  | opposite hl hm hx hneg =>
    exact .opposite ((hc.literals _).2 hl) ((hc.literals _).2 hm) hx hneg
  | kept h ha => exact .kept (h.of_rearranged hc) ha

/-- Exactly the refuted groundings of hard clauses are violated. -/
theorem eq_violated_iff {outcome : Grounded}
    (h : p.simplify space c assignment = .ok outcome) :
    outcome = .violated ↔ c.isHard = true ∧ p.Refutes space assignment c := by
  constructor
  · rintro rfl
    refine ⟨?_, refutes_of_violated h⟩
    rcases simplify_cases h with ⟨_, h⟩ | ⟨_, h⟩ | ⟨_, _, _, ⟨_, h⟩ | ⟨_, h⟩⟩
    · cases h
    · by_contra hsoft
      rw [if_neg hsoft] at h
      cases h
    · cases h
    · cases h
  · rintro ⟨hhard, hr⟩
    rcases simplify_cases h with ⟨hn, _⟩ | ⟨_, h⟩ | ⟨found, hne, hfound, _⟩
    · obtain ⟨l, hl, hd⟩ := exists_decides_of_openLiterals hn
      exact absurd hd (not_decides_true_of_false (hr l hl))
    · rw [h, if_pos hhard]
    · obtain ⟨x, hx⟩ := List.exists_mem_of_ne_nil found hne
      obtain ⟨l, hl, hs⟩ := (((mem_openLiterals hfound).1 x).1 hx).resolve_left List.not_mem_nil
      exact absurd hs (not_signs_of_decides (hr l hl) x)

/-- **Rearranged clauses simplify alike.** -/
theorem simplify_eq_of_rearranged (hc : c.Rearranged c') {outcome outcome' : Grounded}
    (h : p.simplify space c assignment = .ok outcome)
    (h' : p.simplify space c' assignment = .ok outcome') : outcome' = outcome := by
  have hkept : outcome'.kept? = outcome.kept? :=
    (simplifies_of_simplify h').unique ((simplifies_of_simplify h).of_rearranged hc)
  have hviolated : outcome' = .violated ↔ outcome = .violated := by
    rw [eq_violated_iff h, eq_violated_iff h', hc.isHard]
    simp only [Refutes, hc.literals]
  cases outcome with
  | dropped => cases outcome' <;> simp_all [Grounded.kept?]
  | violated => exact hviolated.2 rfl
  | kept literals => cases outcome' <;> simp_all [Grounded.kept?]

end

/-! ## Groundings -/

theorem instancesOf_of_rearranged (hc : c.Rearranged c') {i : Nat} {own own' : List (Instance α)}
    (h : p.instancesOf space (c, i) = .ok own) (h' : p.instancesOf space (c', i) = .ok own') :
    List.Forall₂ Instance.Rearranged own own' := by
  obtain ⟨pools, hp, hown⟩ := bind_eq_ok_iff.1 h
  obtain ⟨pools', hp', hown'⟩ := bind_eq_ok_iff.1 h'
  clear h h'
  obtain rfl := variablePools_eq_of_rearranged hc hp hp'
  replace hown := mapM_eq_ok_iff.1 hown
  replace hown' := mapM_eq_ok_iff.1 hown'
  generalize tuples (pools'.map Prod.snd) = listed at hown hown'
  induction hown generalizing own' with
  | nil =>
    cases hown'
    exact .nil
  | cons hi _ ih =>
    cases hown' with
    | cons hi' hrest' =>
      refine .cons ?_ (ih hrest')
      obtain ⟨a, ha, hi⟩ := bind_eq_ok_iff.1 hi
      obtain ⟨o, ho, hi⟩ := bind_eq_ok_iff.1 hi
      obtain ⟨a', ha', hi'⟩ := bind_eq_ok_iff.1 hi'
      obtain ⟨o', ho', hi'⟩ := bind_eq_ok_iff.1 hi'
      obtain rfl := Except.ok.inj (ha.symm.trans ha')
      obtain rfl := simplify_eq_of_rearranged hc ho ho'
      rw [← Except.ok.inj hi, ← Except.ok.inj hi']
      exact ⟨rfl, hc, rfl, rfl⟩

theorem groups_of_rearranged {clauses clauses' : List (Clause α)}
    (hc : List.Forall₂ Clause.Rearranged clauses clauses') :
    ∀ {n : Nat} {groups groups' : List (List (Instance α))},
      (clauses.zipIdx n).mapM (p.instancesOf space) = .ok groups →
      (clauses'.zipIdx n).mapM (p.instancesOf space) = .ok groups' →
        List.Forall₂ Instance.Rearranged groups.flatten groups'.flatten := by
  induction hc with
  | nil =>
    intro n groups groups' h h'
    obtain rfl := Except.ok.inj h
    obtain rfl := Except.ok.inj h'
    exact .nil
  | cons hc _ ih =>
    intro n groups groups' h h'
    rw [List.zipIdx_cons] at h h'
    cases mapM_eq_ok_iff.1 h with
    | cons ho hrest =>
      cases mapM_eq_ok_iff.1 h' with
      | cons ho' hrest' =>
        rw [List.flatten_cons, List.flatten_cons]
        exact List.rel_append (instancesOf_of_rearranged hc ho ho')
          (ih (mapM_eq_ok_iff.2 hrest) (mapM_eq_ok_iff.2 hrest'))

/-- Rearranged clauses have the same groundings. -/
theorem instances_of_rearranged {clauses : List (Clause α)}
    (hc : List.Forall₂ Clause.Rearranged p.clauses clauses) {ins ins' : List (Instance α)}
    (h : p.instances space = .ok ins)
    (h' : Problem.instances { p with clauses } space = .ok ins') :
    List.Forall₂ Instance.Rearranged ins ins' := by
  obtain ⟨groups, hg, h⟩ := bind_eq_ok_iff.1 h
  obtain ⟨groups', hg', h'⟩ := bind_eq_ok_iff.1 h'
  have hof : Problem.instancesOf { p with clauses } space = p.instancesOf space := by
    apply instancesOf_congr <;> rfl
  rw [hof] at hg'
  rw [← Except.ok.inj h, ← Except.ok.inj h']
  exact groups_of_rearranged hc hg hg'

end Problem

/-! ## What the groundings add up to -/

namespace Instance.Rearranged

variable {ins ins' : List (Instance α)}

theorem flatMap_contributions [WeightArith α] (h : List.Forall₂ Rearranged ins ins')
    (noNeg : Bool) :
    ins'.flatMap (contributions noNeg) = ins.flatMap (contributions noNeg) := by
  induction h with
  | nil => rfl
  | @cons inst inst' _ _ hi _ ih =>
    have hinst : inst'.contributions noNeg = inst.contributions noNeg := by
      unfold contributions Clause.contributions
      rw [hi.outcome, hi.formula, hi.clause.weight]
    rw [List.flatMap_cons, List.flatMap_cons, ih, hinst]

theorem countP_isDropped (h : List.Forall₂ Rearranged ins ins') :
    ins'.countP isDropped = ins.countP isDropped := by
  induction h with
  | nil => rfl
  | @cons inst inst' _ _ hi _ ih =>
    have hinst : inst'.isDropped = inst.isDropped := by
      unfold isDropped
      rw [hi.outcome]
    rw [List.countP_cons, List.countP_cons, ih, hinst]

theorem filterMap_violation (h : List.Forall₂ Rearranged ins ins') :
    List.Forall₂ Violation.Rearranged (ins.filterMap violation?) (ins'.filterMap violation?) := by
  induction h with
  | nil => exact .nil
  | @cons inst inst' _ _ hi _ ih =>
    rw [List.filterMap_cons, List.filterMap_cons, violation?, violation?, hi.outcome]
    cases inst.outcome with
    | dropped => exact ih
    | violated => exact .cons ⟨hi.clause, hi.assignment⟩ ih
    | kept literals => exact ih

end Instance.Rearranged

/-- **Order and repetition of literals do not matter.** If the literals of the clauses are
rearranged and both problems can be grounded, the results are the same: the network with its
numbered constraints, atoms and dependencies, the space and the counts. The violations are the same
up to the literals of the clauses that they show. -/
theorem Problem.ground_eq_of_rearranged [WeightArith α] {p : Problem α}
    {clauses : List (Clause α)} (hc : List.Forall₂ Clause.Rearranged p.clauses clauses)
    {g g' : Grounding α} (hg : p.ground = .ok g)
    (hg' : Problem.ground { p with clauses } = .ok g') :
    g'.network = g.network ∧ g'.space = g.space ∧ g'.groundings = g.groundings ∧
      g'.dropped = g.dropped ∧
      List.Forall₂ Violation.Rearranged g.violations g'.violations := by
  obtain ⟨-, hb, -⟩ := p.ground_eq_ok_iff.1 hg
  obtain ⟨-, hb', -⟩ := Problem.ground_eq_ok_iff _ |>.1 hg'
  have hspace : g'.space = g.space := Except.ok.inj (hb'.symm.trans hb)
  obtain ⟨ins, merged, hi, hm, hn, hlength, hcount, hviolated⟩ := p.recorded_of_ground hg
  obtain ⟨ins', merged', hi', hm', hn', hlength', hcount', hviolated'⟩ :=
    Problem.recorded_of_ground _ hg'
  rw [hspace] at hi' hn'
  have hins := instances_of_rearranged hc hi hi'
  have hmerged : merged' = merged := by
    rw [Instance.Rearranged.flatMap_contributions hins] at hm'
    exact Except.ok.inj (hm'.symm.trans hm)
  have hnetwork : g'.network = g.network := by
    rw [hmerged] at hn'
    exact Except.ok.inj (hn'.symm.trans hn)
  refine ⟨hnetwork, hspace, ?_, ?_, ?_⟩
  · rw [hlength', hlength, hins.length_eq]
  · rw [hcount', hcount, Instance.Rearranged.countP_isDropped hins]
  · rw [hviolated', hviolated]
    exact Instance.Rearranged.filterMap_violation hins

/-! ## Literals there and back -/

/-- The clause with its literals in reverse order and then again in their order. -/
def Clause.thereAndBack (c : Clause α) : Clause α :=
  { c with literals := c.literals.reverse ++ c.literals, nonempty := by simp [c.nonempty] }

theorem Clause.rearranged_thereAndBack (clauses : List (Clause α)) :
    List.Forall₂ Clause.Rearranged clauses (clauses.map Clause.thereAndBack) := by
  rw [List.forall₂_map_right_iff, List.forall₂_same]
  intro c _
  exact ⟨by simp [thereAndBack], rfl, rfl⟩

/-- The rules about friends with the same options and other literals. -/
def Problem.friendsThereAndBack : Problem Int :=
  let p := Problem.friends { trackDependencies := true, noNegativeWeights := true }
  { p with clauses := p.clauses.map Clause.thereAndBack }

theorem Problem.ground_eq_of_rearranged_friends :
    List.Forall₂ Clause.Rearranged
        (friends { trackDependencies := true, noNegativeWeights := true }).clauses
        friendsThereAndBack.clauses ∧
      ∃ g g', (friends { trackDependencies := true, noNegativeWeights := true }).ground = .ok g ∧
        friendsThereAndBack.ground = .ok g' ∧ g.groundings = 12 ∧
        g'.network = g.network ∧ g'.space = g.space ∧ g'.groundings = g.groundings ∧
        g'.dropped = g.dropped ∧ List.Forall₂ Violation.Rearranged g.violations g'.violations := by
  have hshape : (friends { trackDependencies := true, noNegativeWeights := true }).ground.map
      (fun g => g.groundings) = .ok 12 := by cbv
  have hshape' : friendsThereAndBack.ground.map (fun g => g.groundings) = .ok 12 := by cbv
  obtain ⟨g, hg, hcount⟩ := map_eq_ok_iff.1 hshape
  obtain ⟨g', hg', -⟩ := map_eq_ok_iff.1 hshape'
  have hc := Clause.rearranged_thereAndBack
    (friends { trackDependencies := true, noNegativeWeights := true }).clauses
  exact ⟨hc, g, g', hg, hg', hcount, ground_eq_of_rearranged hc hg hg'⟩

end MarkovLogic
