import MarkovLogic.Proofs.Grounding.Instances
import MarkovLogic.Proofs.Grounding.Valuations
import MarkovLogic.Proofs.Domain.Ascending

/-!
# The order of the groundings

The groundings are made clause by clause, and within a clause in the order of the product of its
variables' sorted symbols (`map_choice_instances`). So their formula indices never go down
(`formulas_ascending`).
-/

namespace MarkovLogic

variable {α : Type}

/-- Variables come in the order of their names, and of their domains where names agree. -/
theorem Clause.orderedVariables_sorted (c : Clause α) : c.orderedVariables.Pairwise fun v w =>
    v.name.text < w.name.text ∨
      (v.name.text = w.name.text ∧ v.domain.getD "" ≤ w.domain.getD "") := by
  have h : c.orderedVariables.Pairwise fun v w => (v.name.text < w.name.text ||
      (v.name.text = w.name.text && !decide (w.domain.getD "" < v.domain.getD ""))) = true := by
    apply List.pairwise_mergeSort
    · intro u v w huv hvw
      simp only [Bool.or_eq_true, Bool.and_eq_true, decide_eq_true_eq, Bool.not_eq_true',
        decide_eq_false_iff_not, String.not_lt] at huv hvw ⊢
      rcases huv with huv | ⟨huv, hdom⟩
      · rcases hvw with hvw | ⟨hvw, -⟩
        · exact .inl (String.lt_trans huv hvw)
        · exact .inl (hvw ▸ huv)
      · rcases hvw with hvw | ⟨hvw, hdom'⟩
        · exact .inl (huv ▸ hvw)
        · exact .inr ⟨huv.trans hvw, String.le_trans hdom hdom'⟩
    · intro v w
      simp only [Bool.or_eq_true, Bool.and_eq_true, decide_eq_true_eq, Bool.not_eq_true',
        decide_eq_false_iff_not, String.not_lt]
      by_cases hvw : v.name.text < w.name.text
      · exact .inl (.inl hvw)
      by_cases hwv : w.name.text < v.name.text
      · exact .inr (.inl hwv)
      have heq : v.name.text = w.name.text :=
        String.le_antisymm (String.not_lt.1 hwv) (String.not_lt.1 hvw)
      rcases String.le_total (v.domain.getD "") (w.domain.getD "") with hle | hle
      · exact .inl (.inr ⟨heq, hle⟩)
      · exact .inr (.inr ⟨heq.symm, hle⟩)
  simpa only [Bool.or_eq_true, Bool.and_eq_true, decide_eq_true_eq, Bool.not_eq_true',
    decide_eq_false_iff_not, String.not_lt] using h

/-- The formula of a grounding and the symbol that it chooses for each variable. -/
def Instance.choice (inst : Instance α) : Nat × List (Variable × String) :=
  (inst.formula, inst.assignment.map fun e => (e.1, e.2.symbol.text))

namespace Problem

/-- The choices of symbols for a clause: the product of the sorted domains of its variables. -/
def choicesOf (p : Problem α) (c : Clause α) : List (List (Variable × String)) :=
  (tuples (c.orderedVariables.map fun v =>
    sortSymbols (p.domains.symbols (.ofOption v.domain)))).map c.orderedVariables.zip

/-- The choices of all clauses in order. -/
def choices (p : Problem α) : List (Nat × List (Variable × String)) :=
  p.clauses.zipIdx.flatMap fun e => (p.choicesOf e.1).map (e.2, ·)

variable {p : Problem α} {space : AtomSpace}

theorem choice_instanceAt {i : Nat} {c : Clause α} {vars : List Variable} {tuple : List String}
    {inst : Instance α} (h : p.instanceAt space i c vars tuple = .ok inst) :
    inst.choice = (i, vars.zip tuple) := by
  obtain ⟨assignment, ha, h⟩ := bind_eq_ok_iff.1 h
  obtain ⟨outcome, _, h⟩ := bind_eq_ok_iff.1 h
  rw [← Except.ok.inj h, Instance.choice, assign_eq ha]

theorem map_choice_instancesOf {entry : Clause α × Nat} {own : List (Instance α)}
    (h : p.instancesOf space entry = .ok own) :
    own.map Instance.choice = (p.choicesOf entry.1).map (entry.2, ·) := by
  obtain ⟨pools, hp, hown⟩ := bind_eq_ok_iff.1 h
  clear h
  have hsnd : pools.map Prod.snd = entry.1.orderedVariables.map fun v =>
      sortSymbols (p.domains.symbols (.ofOption v.domain)) := by
    rw [variablePools_eq hp, List.map_map]
    rfl
  rw [map_fst_pools hp, hsnd] at hown
  unfold choicesOf
  rw [List.map_map]
  replace hown := mapM_eq_ok_iff.1 hown
  generalize tuples _ = listed at hown ⊢
  induction hown with
  | nil => rfl
  | cons hi _ ih => rw [List.map_cons, List.map_cons, ih, choice_instanceAt hi, Function.comp_apply]

/-- **The groundings are made in the order of the clauses and of the products of their sorted
domains.** -/
theorem map_choice_instances {ins : List (Instance α)} (h : p.instances space = .ok ins) :
    ins.map Instance.choice = p.choices := by
  obtain ⟨groups, hg, hflat⟩ := bind_eq_ok_iff.1 h
  rw [← Except.ok.inj hflat]
  unfold choices
  replace hg := mapM_eq_ok_iff.1 hg
  clear h hflat
  generalize p.clauses.zipIdx = entries at hg
  induction hg with
  | nil => rfl
  | cons ho _ ih =>
    rw [List.flatten_cons, List.map_append, List.flatMap_cons, ih, map_choice_instancesOf ho]

theorem formulas_ascending {ins : List (Instance α)} (h : p.instances space = .ok ins) :
    ins.Pairwise fun inst inst' => inst.formula ≤ inst'.formula := by
  have hchoices : p.choices.Pairwise fun e f => e.1 ≤ f.1 := by
    unfold choices
    rw [List.pairwise_flatMap]
    constructor
    · rintro ⟨c, i⟩ _
      rw [List.pairwise_map]
      exact List.pairwise_of_forall fun _ _ => Nat.le_refl i
    · have hindex : (p.clauses.zipIdx.map Prod.snd).Pairwise (· < ·) := by
        rw [List.zipIdx_map_snd]
        exact List.pairwise_lt_range'
      rw [List.pairwise_map] at hindex
      refine hindex.imp fun {e f} hlt x hx y hy => ?_
      obtain ⟨_, _, rfl⟩ := List.mem_map.1 hx
      obtain ⟨_, _, rfl⟩ := List.mem_map.1 hy
      exact Nat.le_of_lt hlt
  rw [← map_choice_instances h, List.pairwise_map] at hchoices
  exact hchoices

end Problem

end MarkovLogic
