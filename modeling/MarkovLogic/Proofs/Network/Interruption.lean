import MarkovLogic.Proofs.Network.Dependencies
import MarkovLogic.Proofs.Network.History
import MarkovLogic.Proofs.Network.RealWeights
import MarkovLogic.Proofs.Distinct
import Mathlib

/-!
# Failed reweightings

All inputs are checked before a weight changes, so a reweighting that fails a check leaves the
network as it was. What the checks let pass is a frequency too large for a floating-point value: the
loop stops at its constraint, and the constraints before that one have their new weights
(`Network.Interrupted`). A reweighting fails in these two ways only
(`Network.unchanged_or_interrupted`), and the second one does happen
(`Network.weights_ne_of_reweight_error`).
-/

namespace MarkovLogic

namespace Network

/-! ## Where the loop stops -/

section Loop

variable {α : Type} [WeightArith α] (deps : DependencyMap) (f : FormulaWeights α)
  (policy : MixedPolicy) (weightHard : α)

/-- The weight that reweighting computes for a constraint. -/
def computedWeight (c : Constraint α) : Except Overflow α :=
  f.combine weightHard policy c.isHard (((deps.entry? c.id).map Table.toList).getD [])

/-- The computed weight of a constraint, or its own if there is none. -/
def newWeight (c : Constraint α) : α :=
  (computedWeight deps f policy weightHard c).toOption.getD c.weight

variable {deps f policy weightHard}

theorem newWeight_eq {c : Constraint α} {w : α}
    (h : computedWeight deps f policy weightHard c = .ok w) :
    newWeight deps f policy weightHard c = w := by
  rw [newWeight, h]
  rfl

theorem assignWeights_cons_of_ok {net : Network α} {c : Constraint α} {cs : List (Constraint α)}
    {w : α} (h : computedWeight deps f policy net.weightHard c = .ok w) :
    assignWeights deps f policy (c :: cs) net =
      assignWeights deps f policy cs (net.putConstraint { c with weight := w }) := by
  rw [assignWeights, ← computedWeight, h]

theorem assignWeights_cons_of_error {net : Network α} {c : Constraint α}
    {cs : List (Constraint α)} {e : Overflow}
    (h : computedWeight deps f policy net.weightHard c = .error e) :
    assignWeights deps f policy (c :: cs) net = (net, .error e) := by
  rw [assignWeights, ← computedWeight, h]

/-- A loop that fails has gone through the constraints before the one at which it fails. -/
theorem exists_of_assignWeights_eq_error {e : Overflow} {net' : Network α}
    {cs : List (Constraint α)} :
    ∀ {net : Network α}, assignWeights deps f policy cs net = (net', .error e) →
      ∃ pre c post, cs = pre ++ c :: post ∧
        (∀ d ∈ pre, ∃ w, computedWeight deps f policy net.weightHard d = .ok w) ∧
        computedWeight deps f policy net.weightHard c = .error e ∧
        net' = pre.foldl (fun net' d => net'.putConstraint
          { d with weight := newWeight deps f policy net.weightHard d }) net := by
  induction cs with
  | nil =>
    intro net h
    cases h
  | cons c cs ih =>
    intro net h
    cases hc : computedWeight deps f policy net.weightHard c with
    | error e' =>
      rw [assignWeights_cons_of_error hc] at h
      cases h
      exact ⟨[], c, cs, rfl, by simp, hc, rfl⟩
    | ok w =>
      rw [assignWeights_cons_of_ok hc] at h
      obtain ⟨pre, d, post, rfl, hpre, hd, rfl⟩ := ih h
      refine ⟨c :: pre, d, post, rfl, List.forall_mem_cons.2 ⟨⟨w, hc⟩, hpre⟩, hd, ?_⟩
      rw [List.foldl_cons, newWeight_eq hc]
      rfl

end Loop

/-! ## What is left after a failure -/

/-- The loop has stopped at a constraint because of a frequency too large for a floating-point
value. The constraints with smaller numbers have their new weights, and all else is as it was. -/
structure Interrupted (net net' : Network Number) (deps : DependencyMap) (f : FormulaWeights Number)
    (policy : MixedPolicy) (c : Constraint Number) : Prop where
  mem : c ∈ net.constraints
  tooLarge : ∃ frequencies, deps.entry? c.id = some frequencies ∧
    ∃ k ∈ frequencies.toList, f.isHard k.1 = false ∧ Number.realOfInt k.2 = .error .tooLarge
  weights : List.Forall₂ (fun d d' => if d.id < c.id
      then ∃ w, computedWeight deps f policy net.weightHard d = .ok w ∧ d' = { d with weight := w }
      else d' = d) net.constraints net'.constraints
  rest : net' = { net with constraints := net'.constraints }

section

variable {net net' : Network Number} {deps : DependencyMap} {policy : MixedPolicy}

/-- The constraints before one in their order are those with smaller numbers. -/
theorem mem_before_iff (hn : (net.constraints.map (·.id)).Nodup)
    {pre post : List (Constraint Number)} {c : Constraint Number}
    (h : net.orderedConstraints = pre ++ c :: post) :
    (pre.map (·.id)).Nodup ∧ ∀ d, d ∈ pre ↔ d ∈ net.constraints ∧ d.id < c.id := by
  have hasc : ((pre ++ c :: post).map (·.id)).Pairwise (· < ·) := h ▸ ascending_mergeSort _ hn
  have hmem : ∀ d, d ∈ net.constraints ↔ d ∈ pre ++ c :: post :=
    fun d => h ▸ (List.mergeSort_perm _ _).mem_iff.symm
  rw [List.map_append, List.map_cons, List.pairwise_append, List.pairwise_cons] at hasc
  obtain ⟨hpre, ⟨hpost, -⟩, hless⟩ := hasc
  refine ⟨hpre.imp ne_of_lt, fun d => ⟨fun hd => ⟨?_, ?_⟩, fun ⟨hd, hlt⟩ => ?_⟩⟩
  · exact (hmem d).2 (List.mem_append_left _ hd)
  · exact hless _ (List.mem_map_of_mem hd) _ List.mem_cons_self
  · rcases List.mem_append.1 ((hmem d).1 hd) with hd | hd
    · exact hd
    · rcases List.mem_cons.1 hd with rfl | hd
      · exact absurd hlt (lt_irrefl _)
      · exact absurd hlt (hpost _ (List.mem_map_of_mem hd)).not_gt

/-- The failing loop in a network with distinct numbers. -/
theorem interrupted_of_assignWeights {xs : List Float} {hardFlags : List Bool} {e : Overflow}
    (hn : (net.constraints.map (·.id)).Nodup) {w : Float} (hw : net.weightHard = .real w)
    (h : assignWeights deps (.reals xs hardFlags) policy net.orderedConstraints net =
      (net', .error e)) :
    ∃ c, net.Interrupted net' deps (.reals xs hardFlags) policy c := by
  obtain ⟨pre, c, post, hsplit, hpre, hc, rfl⟩ := exists_of_assignWeights_eq_error h
  have hmem : c ∈ net.orderedConstraints := by rw [hsplit]; simp
  obtain ⟨hnodup, hbefore⟩ := mem_before_iff hn hsplit
  rw [foldl_putConstraint _ hnodup]
  refine ⟨c, (List.mergeSort_perm _ _).mem_iff.1 hmem, ?_, ?_, rfl⟩
  · rw [computedWeight, hw] at hc
    obtain ⟨k, hk, hsoft, hlarge⟩ := FormulaWeights.exists_of_combine_reals_eq_error hc
    cases hentry : deps.entry? c.id with
    | none =>
      rw [hentry] at hk
      cases hk
    | some frequencies =>
      rw [hentry] at hk
      exact ⟨frequencies, rfl, k, hk, hsoft, hlarge⟩
  · rw [List.forall₂_map_right_iff, List.forall₂_same]
    intro d hd
    split
    · next hlt =>
      have hbefore := (hbefore d).2 ⟨hd, hlt⟩
      obtain ⟨v, hv⟩ := hpre d hbefore
      rw [find?_id_eq_some hnodup hbefore]
      exact ⟨v, hv, by rw [Option.map_some, Option.getD_some, newWeight_eq hv]⟩
    · next hge =>
      have hnone : pre.find? (·.id = d.id) = none := by
        rw [List.find?_eq_none]
        intro b hb hid
        exact hge (of_decide_eq_true hid ▸ ((hbefore b).1 hb).2)
      rw [hnone]
      rfl

/-- **A reweighting that fails leaves the network as it was, or has met a frequency too large for a
floating-point value.** In the second case the inputs have passed the checks. -/
theorem unchanged_or_interrupted (hmade : net.Made) {weights : List Number} {hardFlags : List Bool}
    {e : ReweightError} (h : net.reweight weights hardFlags policy = (net', .error e)) :
    net' = net ∨ e = .overflow .tooLarge ∧
      ∃ deps f c, net.checkReweight weights hardFlags = .ok (deps, f) ∧
        net.Interrupted net' deps f policy c := by
  unfold reweight at h
  cases hcheck : net.checkReweight weights hardFlags with
  | error e' =>
    rw [hcheck] at h
    exact .inl (Prod.mk.inj h).1.symm
  | ok r =>
    obtain ⟨deps, f⟩ := r
    rw [hcheck] at h
    obtain ⟨-, xs, -, rfl⟩ := reals_of_checkReweight hcheck
    obtain ⟨w₀, hw₀⟩ := hmade.exists_settle
    obtain ⟨w, -, hw⟩ := Number.settle_eq_ok_iff.1 hw₀
    cases hloop : assignWeights deps (.reals xs hardFlags) policy net.orderedConstraints net with
    | mk net'' result =>
      simp only [hloop] at h
      obtain ⟨rfl, herror⟩ := Prod.mk.inj h
      cases result with
      | ok u => cases herror
      | error o =>
        obtain ⟨c, hc⟩ := interrupted_of_assignWeights hmade.nodup_ids hw hloop
        cases o
        exact .inr ⟨(Except.error.inj herror).symm, deps, _, c, rfl, hc⟩

end

/-! ## A reweighting that stops half-way -/

/-- Constraints about one atom, not in the order of their numbers. -/
def lopsided : List (Constraint Number) :=
  [⟨7, [1], .real 0.5, false⟩, ⟨0, [-1], .real 0.25, false⟩, ⟨3, [1, -1], .real 0.0, false⟩]

/-- One formula produced all of them, constraint 3 the given number of times. -/
def lopsidedDependencies (n : Int) : DependencyMap :=
  ⟨Table.ofList [(7, Table.ofList [(0, 2)]), (0, Table.ofList [(0, 1)]),
    (3, Table.ofList [(0, n)])]⟩

def lopsidedNetwork (n : Int) : Network Number where
  constraints := lopsided
  atoms := [⟨1, false⟩]
  weightHard := .real 10.0
  queryFirst := 1
  queryLast := 0
  dependencies := some (lopsidedDependencies n)
  positive := Table.ofList [(1, [7, 3])]
  negative := Table.ofList [(1, [0, 3])]
  maxWidth := 2

theorem ofEntries_lopsided {n : Int} (hn : n ≠ 0) :
    DependencyMap.ofEntries (lopsidedDependencies n).pairs = .ok (lopsidedDependencies n) := by
  apply DependencyMap.ofEntries_pairs
  simpa [lopsidedDependencies, Table.ofList, Table.empty, insertEntry] using hn

theorem assemble_lopsided (n : Int) : assemble lopsided [⟨1, false⟩] (.real 10.0) 1 0
    (some (lopsidedDependencies n)) = .ok (lopsidedNetwork n) := by
  rfl

/-- The weights play no part in the order of the constraints. -/
theorem ordered_lopsided (x y z : Number) : [⟨7, [1], x, false⟩, ⟨0, [-1], y, false⟩,
    (⟨3, [1, -1], z, false⟩ : Constraint Number)].mergeSort (fun c d => c.id ≤ d.id) =
      [⟨0, [-1], y, false⟩, ⟨3, [1, -1], z, false⟩, ⟨7, [1], x, false⟩] := by
  cbv

theorem checkReweight_lopsided (n : Int) :
    (lopsidedNetwork n).checkReweight [.real 1.0] [false] =
      .ok (lopsidedDependencies n, .reals [1.0] [false]) := by
  have hindices : (lopsidedDependencies n).formulaIndices = [0] := by cbv
  refine checkReweight_eq_ok rfl rfl rfl ?_ ?_
  · intro c hc
    simp only [lopsidedNetwork, lopsided, List.mem_cons, List.not_mem_nil, or_false] at hc
    rcases hc with rfl | rfl | rfl <;> rfl
  · rw [hindices]
    simp

/-- A frequency that does not convert stops the computation of the weight. -/
theorem computedWeight_lopsided {n : Int} (hn : Number.realOfInt n = .error .tooLarge) :
    computedWeight (lopsidedDependencies n) (.reals [1.0] [false]) .hardWins (.real 10.0)
      ⟨3, [1, -1], .real 0.0, false⟩ = .error .tooLarge := by
  have hentry : DependencyMap.entry? (lopsidedDependencies n) 3 =
      some (Table.ofList [(0, n)]) := by rfl
  have hstep : FormulaWeights.step (.reals [1.0] [false]) (.real 10.0) .hardWins
      (false, .real 0.0) (0, n) = .error .tooLarge := by
    change (Number.scale (.real 1.0) n >>= _) = _
    rw [Number.scale, hn]
    rfl
  unfold computedWeight
  rw [hentry]
  change (([(0, n)].foldlM _ (false, Number.real 0.0)) >>= _) = _
  rw [List.foldlM_cons, hstep]
  rfl

theorem reweight_lopsided {n : Int} (hn : Number.realOfInt n = .error .tooLarge) :
    (lopsidedNetwork n).reweight [.real 1.0] [false] .hardWins =
      ((lopsidedNetwork n).putConstraint ⟨0, [-1], .real 1.0, false⟩,
        .error (.overflow .tooLarge)) := by
  have horder : (lopsidedNetwork n).orderedConstraints = [⟨0, [-1], .real 0.25, false⟩,
      ⟨3, [1, -1], .real 0.0, false⟩, ⟨7, [1], .real 0.5, false⟩] :=
    ordered_lopsided (.real 0.5) (.real 0.25) (.real 0.0)
  have hfirst : computedWeight (lopsidedDependencies n) (.reals [1.0] [false]) .hardWins
      (.real 10.0) ⟨0, [-1], .real 0.25, false⟩ = .ok (.real 1.0) := by rfl
  unfold reweight
  rw [checkReweight_lopsided]
  simp only [horder]
  rw [assignWeights_cons_of_ok hfirst, assignWeights_cons_of_error (computedWeight_lopsided hn)]
  rfl

theorem realOfInt_tooLarge : Number.realOfInt (10 ^ 400) = .error .tooLarge := by
  have h : (Float.ofInt (10 ^ 400)).isFinite = false := by decide +kernel
  cases hy : Number.realOfInt (10 ^ 400) with
  | ok y => exact absurd (Number.realOfInt_eq_ok_iff.1 hy).1 (by rw [h]; decide)
  | error e => cases e; rfl

theorem weights_lopsidedNetwork (n : Int) :
    (lopsidedNetwork n).weights = [(0, .real 0.25), (3, .real 0.0), (7, .real 0.5)] :=
  congrArg (List.map _) (ordered_lopsided (.real 0.5) (.real 0.25) (.real 0.0))

theorem weights_putConstraint_lopsidedNetwork (n : Int) :
    ((lopsidedNetwork n).putConstraint ⟨0, [-1], .real 1.0, false⟩).weights =
      [(0, .real 1.0), (3, .real 0.0), (7, .real 0.5)] :=
  congrArg (List.map _) (ordered_lopsided (.real 0.5) (.real 1.0) (.real 0.0))

theorem weights_lopsidedNetwork_ne (n : Int) :
    ((lopsidedNetwork n).putConstraint ⟨0, [-1], .real 1.0, false⟩).weights ≠
      (lopsidedNetwork n).weights := by
  rw [weights_lopsidedNetwork, weights_putConstraint_lopsidedNetwork]
  intro h
  have hfirst : Number.real 1.0 = .real 0.25 := (Prod.mk.inj (List.cons.inj h).1).2
  exact absurd (Number.real.inj hfirst) (by decide)

/-- The loop stops at constraint 3. -/
theorem interrupted_lopsided : (lopsidedNetwork (10 ^ 400)).Made ∧
    ∃ net', (lopsidedNetwork (10 ^ 400)).reweight [.real 1.0] [false] .hardWins =
        (net', .error (.overflow .tooLarge)) ∧
      ∃ deps f c, (lopsidedNetwork (10 ^ 400)).checkReweight [.real 1.0] [false] = .ok (deps, f) ∧
        (lopsidedNetwork (10 ^ 400)).Interrupted net' deps f .hardWins c := by
  have hmade : (lopsidedNetwork (10 ^ 400)).Made := .assembled (assemble_lopsided _)
  have hfail := reweight_lopsided realOfInt_tooLarge
  refine ⟨hmade, _, hfail, ?_⟩
  rcases unchanged_or_interrupted hmade hfail with hsame | ⟨-, h⟩
  · exact absurd (congrArg weights hsame) (weights_lopsidedNetwork_ne _)
  · exact h

/-- **A reweighting can fail with some weights changed.** -/
theorem weights_ne_of_reweight_error :
    DependencyMap.ofEntries (lopsidedDependencies (10 ^ 400)).pairs =
        .ok (lopsidedDependencies (10 ^ 400)) ∧
      assemble lopsided [⟨1, false⟩] (.real 10.0) 1 0 (some (lopsidedDependencies (10 ^ 400))) =
        .ok (lopsidedNetwork (10 ^ 400)) ∧
      ∃ net', (lopsidedNetwork (10 ^ 400)).reweight [.real 1.0] [false] .hardWins =
          (net', .error (.overflow .tooLarge)) ∧
        (lopsidedNetwork (10 ^ 400)).weights = [(0, .real 0.25), (3, .real 0.0), (7, .real 0.5)] ∧
        net'.weights = [(0, .real 1.0), (3, .real 0.0), (7, .real 0.5)] ∧
        net'.weights ≠ (lopsidedNetwork (10 ^ 400)).weights :=
  ⟨ofEntries_lopsided (Int.pow_ne_zero (by decide)), assemble_lopsided _, _,
    reweight_lopsided realOfInt_tooLarge, weights_lopsidedNetwork _,
    weights_putConstraint_lopsidedNetwork _, weights_lopsidedNetwork_ne _⟩

end Network

end MarkovLogic
