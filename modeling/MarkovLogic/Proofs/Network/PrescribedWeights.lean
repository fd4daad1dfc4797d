import MarkovLogic.Proofs.Network.Persistence
import Mathlib.Data.List.DropRight

/-!
# The weights that reweighting prescribes

A constraint gets a weight that its recorded contributions decide (`FormulaWeights.prescribed`).
Where hard contributions win, one of them makes it the hard weight. Taken in sequence, every hard
contribution starts the sum anew at the hard weight, so that only what is recorded behind the last
one counts (`FormulaWeights.behindHard`). The running weight is described once for both policies, by
induction from the last contribution backwards (`FormulaWeights.exists_foldlM_step`).

The prescription reads neither weights nor truth values of the network. So a reweighting forgets
what earlier edits and reweightings have left, and done again it changes nothing
(`Network.recomputes_of_supplied`).
-/

namespace MarkovLogic

/-- The contributions recorded for a constraint, in recording order. -/
def DependencyMap.recorded (deps : DependencyMap) (constraint : Int) : List (Nat × Int) :=
  ((deps.entry? constraint).map Table.toList).getD []

/-! ## One constraint -/

namespace FormulaWeights

section Prescription

variable (xs : List Float) (hardFlags : List Bool)

/-- Formula weight times frequency, added up from left to right. -/
def addUp (start : Float) (entries : List (Nat × Int)) : Float :=
  entries.foldl (fun total e => total + xs[e.1]?.getD 0.0 * Float.ofInt e.2) start

/-- Some contribution comes from a formula that is flagged hard. -/
def hasHard (entries : List (Nat × Int)) : Bool :=
  entries.any fun e => (reals xs hardFlags).isHard e.1

/-- The contributions behind the last one from a formula that is flagged hard; all of them if there
is none. -/
def behindHard (entries : List (Nat × Int)) : List (Nat × Int) :=
  entries.rtakeWhile fun e => !(reals xs hardFlags).isHard e.1

/-- The weight that the contributions prescribe for a constraint. -/
def prescribed (weightHard : Float) (isHard : Bool) (entries : List (Nat × Int)) :
    MixedPolicy → Float
  | .hardWins => if isHard || hasHard xs hardFlags entries then weightHard else addUp xs 0.0 entries
  | .sequential =>
    addUp xs (if isHard || hasHard xs hardFlags entries then weightHard else 0.0)
      (behindHard xs hardFlags entries)

end Prescription

variable {xs : List Float} {hardFlags : List Bool} {policy : MixedPolicy} {w : Float}
  {entries : List (Nat × Int)} {e : Nat × Int}

theorem addUp_concat (start : Float) :
    addUp xs start (entries ++ [e]) =
      addUp xs start entries + xs[e.1]?.getD 0.0 * Float.ofInt e.2 := by
  rw [addUp, List.foldl_append]
  rfl

theorem hasHard_concat :
    hasHard xs hardFlags (entries ++ [e]) =
      (hasHard xs hardFlags entries || (reals xs hardFlags).isHard e.1) := by
  simp [hasHard]

theorem behindHard_concat_hard (h : (reals xs hardFlags).isHard e.1 = true) :
    behindHard xs hardFlags (entries ++ [e]) = [] := by
  rw [behindHard, List.rtakeWhile_concat_neg _ _ _ (by simp [h])]

theorem behindHard_concat_soft (h : (reals xs hardFlags).isHard e.1 = false) :
    behindHard xs hardFlags (entries ++ [e]) = behindHard xs hardFlags entries ++ [e] := by
  rw [behindHard, List.rtakeWhile_concat_pos _ _ _ (by simp [h])]
  rfl

theorem behindHard_of_soft (h : hasHard xs hardFlags entries = false) :
    behindHard xs hardFlags entries = entries := by
  rw [behindHard, List.rtakeWhile_eq_self_iff]
  simpa [hasHard] using h

/-- **The running weight and its mark after all contributions.** Taken in sequence, the weight is
the sum from the last hard contribution on; without hard contributions it is the sum of all. -/
theorem exists_foldlM_step (policy : MixedPolicy) (w : Float) (b : Bool) (t : Float)
    (h : ∀ e ∈ entries, (reals xs hardFlags).isHard e.1 = false →
      ∃ y, Number.realOfInt e.2 = .ok y) :
    ∃ total, entries.foldlM ((reals xs hardFlags).step (.real w) policy) (b, .real t) =
        .ok (b || hasHard xs hardFlags entries, .real total) ∧
      (policy = .sequential → total =
        addUp xs (if hasHard xs hardFlags entries then w else t)
          (behindHard xs hardFlags entries)) ∧
      ((b || hasHard xs hardFlags entries) = false → total = addUp xs t entries) := by
  -- the last contribution decides whether the ones before it count
  induction entries using List.reverseRecOn with
  | nil => exact ⟨t, by simp [hasHard, pure, Except.pure], fun _ => rfl, fun _ => rfl⟩
  | append_singleton entries e ih =>
    obtain ⟨total, hloop, hsequence, hsoft⟩ := ih fun d hd => h d (List.mem_append_left _ hd)
    have hstep : ∀ {s}, (reals xs hardFlags).step (.real w) policy
          (b || hasHard xs hardFlags entries, .real total) e = .ok s →
        (entries ++ [e]).foldlM ((reals xs hardFlags).step (.real w) policy) (b, .real t) =
          .ok s := fun hs =>
      (foldlM_append_eq_ok_iff _).2 ⟨_, hloop, (foldlM_cons_eq_ok_iff _).2 ⟨_, hs, rfl⟩⟩
    rw [hasHard_concat]
    cases hhard : (reals xs hardFlags).isHard e.1 with
    | true =>
      refine ⟨w, ?_, fun _ => ?_, ?_⟩
      · rw [hstep (step_hard hhard), Bool.or_true, Bool.or_true]
      · rw [behindHard_concat_hard hhard, Bool.or_true]
        rfl
      · simp
    | false =>
      obtain ⟨y, hy⟩ := h e (by simp) hhard
      obtain ⟨-, rfl⟩ := Number.realOfInt_eq_ok_iff.1 hy
      refine ⟨if policy = .sequential || !(b || hasHard xs hardFlags entries)
        then total + xs[e.1]?.getD 0.0 * Float.ofInt e.2 else total, ?_, ?_, ?_⟩
      · rw [hstep (step_reals_soft hhard hy), Bool.or_false]
      · rintro rfl
        rw [behindHard_concat_soft hhard, addUp_concat, Bool.or_false, ← hsequence rfl]
        rfl
      · intro hnone
        rw [Bool.or_false] at hnone
        rw [addUp_concat, ← hsoft hnone, if_pos (by simp [hnone])]

/-- **A constraint gets the weight that its contributions prescribe**, if the frequencies of the
soft ones convert. -/
theorem combine_reals (isHard : Bool)
    (h : ∀ e ∈ entries, (reals xs hardFlags).isHard e.1 = false →
      ∃ y, Number.realOfInt e.2 = .ok y) :
    (reals xs hardFlags).combine (.real w) policy isHard entries =
      .ok (.real (prescribed xs hardFlags w isHard entries policy)) := by
  obtain ⟨total, hloop, hsequence, hsoft⟩ :=
    exists_foldlM_step policy w isHard (if isHard then w else 0.0) h
  have hstart : (if isHard then Number.real w else WeightArith.zero) =
      .real (if isHard then w else 0.0) := by
    cases isHard <;> rfl
  unfold combine
  refine bind_eq_ok_iff.2 ⟨_, by rw [hstart]; exact hloop, ?_⟩
  cases policy with
  | hardWins =>
    simp only [prescribed, decide_true, Bool.and_true]
    split
    · rfl
    · next hnone =>
      rw [Bool.not_eq_true] at hnone
      rw [hsoft hnone, (Bool.or_eq_false_iff.1 hnone).1]
      rfl
  | sequential =>
    simp only [prescribed, reduceCtorEq, decide_false, Bool.and_false]
    rw [hsequence rfl]
    cases isHard <;> cases hasHard xs hardFlags entries <;> rfl

/-- The policies prescribe different weights only where there is a hard contribution and the last
contribution is soft. -/
theorem of_prescribed_ne {isHard : Bool}
    (h : prescribed xs hardFlags w isHard entries .hardWins ≠
      prescribed xs hardFlags w isHard entries .sequential) :
    (isHard = true ∨ ∃ e ∈ entries, (reals xs hardFlags).isHard e.1 = true) ∧
      ∃ e ∈ entries, (reals xs hardFlags).isHard e.1 = false ∧ entries.getLast? = some e := by
  simp only [prescribed] at h
  cases hmark : isHard || hasHard xs hardFlags entries with
  | false =>
    rw [hmark, behindHard_of_soft (Bool.or_eq_false_iff.1 hmark).2] at h
    exact absurd rfl h
  | true =>
    refine ⟨by simpa [hasHard] using hmark, ?_⟩
    rw [hmark] at h
    -- with a hard contribution at the end, both weights are the hard weight
    cases entries using List.reverseRecOn with
    | nil => exact absurd rfl h
    | append_singleton entries e =>
      cases hlast : (reals xs hardFlags).isHard e.1 with
      | true =>
        rw [behindHard_concat_hard hlast] at h
        exact absurd rfl h
      | false => exact ⟨e, by simp, hlast, by simp⟩

end FormulaWeights

/-! ## All constraints -/

/-- The constraint with the weight that its recorded contributions prescribe. -/
def Constraint.withPrescribed (deps : DependencyMap) (xs : List Float) (hardFlags : List Bool)
    (w : Float) (policy : MixedPolicy) (c : Constraint Number) : Constraint Number :=
  { c with
    weight :=
      .real (FormulaWeights.prescribed xs hardFlags w c.isHard (deps.recorded c.id) policy) }

namespace Network

/-- The network with the weights that the recorded contributions prescribe. -/
def withPrescribed (net : Network Number) (deps : DependencyMap) (xs : List Float)
    (hardFlags : List Bool) (w : Float) (policy : MixedPolicy) : Network Number :=
  { net with
    constraints := net.constraints.map (Constraint.withPrescribed deps xs hardFlags w policy) }

/-- A reweighting has all it needs: the network has dependencies with an entry for each of its
constraints, the weights and the hard flags of the formulas are equally many and cover every
recorded formula, and weights and frequencies convert to floating-point values. -/
structure Supplied (net : Network Number) (deps : DependencyMap) (weights : List Number)
    (xs : List Float) (hardFlags : List Bool) : Prop where
  dependencies : net.dependencies = some deps
  weights : weights.mapM Number.toReal = .ok xs
  lengths : xs.length = hardFlags.length
  entries : ∀ c ∈ net.constraints, deps.contains c.id = true
  formulas : ∀ i ∈ deps.formulaIndices, i < xs.length
  frequencies : ∀ c ∈ net.constraints, ∀ e ∈ deps.recorded c.id,
    ∃ y, Number.realOfInt e.2 = .ok y

/-- What a reweighting makes of a network that has all it needs. -/
structure Recomputes (net : Network Number) (deps : DependencyMap) (weights : List Number)
    (xs : List Float) (hardFlags : List Bool) (w : Float) : Prop where
  /-- Every constraint gets its prescribed weight, and nothing else changes. -/
  prescribes : ∀ policy, net.reweight weights hardFlags policy =
    (net.withPrescribed deps xs hardFlags w policy, .ok net.constraints.length)
  /-- Edits and reweightings before it, failed ones included, leave no trace in the constraints. -/
  forgets : ∀ ops policy,
    ((net.after ops).reweight weights hardFlags policy).1.constraints =
        (net.reweight weights hardFlags policy).1.constraints ∧
      ((net.after ops).reweight weights hardFlags policy).2 =
        (net.reweight weights hardFlags policy).2
  /-- Done again it changes nothing. -/
  repeats : ∀ policy,
    (net.reweight weights hardFlags policy).1.reweight weights hardFlags policy =
      net.reweight weights hardFlags policy
  /-- The policies differ only on a constraint that is hard or has a hard contribution, and whose
  last contribution is soft. -/
  differs : ∀ c ∈ net.constraints,
    ((net.reweight weights hardFlags .hardWins).1.lookup c.id).weight ≠
        ((net.reweight weights hardFlags .sequential).1.lookup c.id).weight →
      (c.isHard = true ∨
          ∃ e ∈ deps.recorded c.id, (FormulaWeights.reals xs hardFlags).isHard e.1 = true) ∧
        ∃ e ∈ deps.recorded c.id, (FormulaWeights.reals xs hardFlags).isHard e.1 = false ∧
          (deps.recorded c.id).getLast? = some e

section

variable {net : Network Number} {deps : DependencyMap} {weights : List Number} {xs : List Float}
  {hardFlags : List Bool} {w : Float} {policy : MixedPolicy}

/-- **A reweighting that has all it needs gives every constraint its prescribed weight.** -/
theorem reweight_of_supplied (hmade : net.Made) (hw : net.weightHard = .real w)
    (h : net.Supplied deps weights xs hardFlags) :
    net.reweight weights hardFlags policy =
      (net.withPrescribed deps xs hardFlags w policy, .ok net.constraints.length) := by
  have hcheck : net.checkReweight weights hardFlags = .ok (deps, .reals xs hardFlags) :=
    checkReweight_eq_ok h.dependencies (Number.mapM_settle_eq_ok_iff.2 ⟨xs, h.weights, rfl⟩)
      (by rw [List.length_map, h.lengths]) h.entries (by simpa using h.formulas)
  refine reweight_eq hcheck hmade.nodup_ids fun c hc => ?_
  rw [hw]
  exact FormulaWeights.combine_reals c.isHard fun e he _ => h.frequencies c hc e he

theorem lookup_withPrescribed (hmade : net.Made) {c : Constraint Number}
    (hc : c ∈ net.constraints) : (net.withPrescribed deps xs hardFlags w policy).lookup c.id =
      c.withPrescribed deps xs hardFlags w policy :=
  lookup_eq (g := Constraint.withPrescribed deps xs hardFlags w policy) (fun _ => rfl) rfl
    hmade.nodup_ids hc

/-! ## After other operations -/

/-- Operations take nothing away that a reweighting needs. -/
theorem Supplied.after (hmade : net.Made) (h : net.Supplied deps weights xs hardFlags)
    (ops : List (Operation Number)) : (net.after ops).Supplied deps weights xs hardFlags := by
  obtain ⟨atoms, -, hafter⟩ := after_eq hmade ops
  have hmem : ∀ c ∈ (net.after ops).constraints, ∃ d ∈ net.constraints, d.id = c.id := by
    rw [hafter]
    intro c hc
    obtain ⟨d, hd, rfl⟩ := List.mem_map.1 hc
    exact ⟨d, hd, rfl⟩
  refine { h with dependencies := ?_, entries := ?_, frequencies := ?_ }
  · rw [hafter]
    exact h.dependencies
  · intro c hc
    obtain ⟨d, hd, hid⟩ := hmem c hc
    exact hid ▸ h.entries d hd
  · intro c hc
    obtain ⟨d, hd, hid⟩ := hmem c hc
    exact hid ▸ h.frequencies d hd

/-- A reweighting after other operations gives the weights that it would have given before them. -/
theorem reweight_after (hmade : net.Made) (hw : net.weightHard = .real w)
    (h : net.Supplied deps weights xs hardFlags) (ops : List (Operation Number)) :
    (net.after ops).reweight weights hardFlags policy =
      ({ net.withPrescribed deps xs hardFlags w policy with atoms := (net.after ops).atoms },
        .ok net.constraints.length) := by
  obtain ⟨atoms, -, hafter⟩ := after_eq hmade ops
  have hw' : (net.after ops).weightHard = .real w := by
    rw [hafter]
    exact hw
  have hlength : (net.after ops).constraints.length = net.constraints.length := by
    rw [hafter, List.length_map]
  -- the prescription reads of a constraint what operations leave alone
  have hsame : (net.after ops).withPrescribed deps xs hardFlags w policy =
      { net.withPrescribed deps xs hardFlags w policy with atoms := (net.after ops).atoms } := by
    rw [hafter]
    simp only [withPrescribed, List.map_map]
    rfl
  rw [reweight_of_supplied (made_after hmade ops) hw' (h.after hmade ops), hlength, hsame]

/-- **What reweighting computes.** The weights are those that the recorded contributions prescribe,
whatever the network has been through. -/
theorem recomputes_of_supplied (hmade : net.Made) (h : net.Supplied deps weights xs hardFlags) :
    ∃ w, net.weightHard = .real w ∧ net.Recomputes deps weights xs hardFlags w := by
  obtain ⟨w₀, hw₀⟩ := hmade.exists_settle
  obtain ⟨w, -, hw⟩ := Number.settle_eq_ok_iff.1 hw₀
  have hnow : ∀ policy, net.reweight weights hardFlags policy =
      (net.withPrescribed deps xs hardFlags w policy, .ok net.constraints.length) :=
    fun policy => reweight_of_supplied hmade hw h
  refine ⟨w, hw, {
    prescribes := hnow
    forgets := ?_
    repeats := ?_
    differs := ?_ }⟩
  · intro ops policy
    rw [reweight_after hmade hw h, hnow]
    exact ⟨rfl, rfl⟩
  · intro policy
    have hatoms : (net.after [.reweight weights hardFlags policy]).atoms = net.atoms :=
      congrArg (·.1.atoms) (hnow policy)
    refine (reweight_after hmade hw h [.reweight weights hardFlags policy]).trans ?_
    rw [hatoms, hnow]
    rfl
  · intro c hc hne
    rw [hnow, hnow, lookup_withPrescribed hmade hc, lookup_withPrescribed hmade hc] at hne
    exact FormulaWeights.of_prescribed_ne fun hsame => hne (congrArg Number.real hsame)

end

/-! ## Hard and soft contributions mixed -/

/-- A soft and a hard constraint, one that no formula produced, and one of soft formulas only. The
weights are left over from something else. -/
def mixed : List (Constraint Number) :=
  [⟨4, [1, -2], .int 7, false⟩, ⟨1, [-1], .real 0.5, true⟩, ⟨9, [2], .real 3.0, false⟩,
    ⟨2, [2, 1], .real (-1.0), false⟩]

/-- Soft and hard formulas take turns on constraint 4; no hard one produced constraint 1. -/
def mixedDependencies : DependencyMap :=
  ⟨Table.ofList [(4, Table.ofList [(0, 2), (1, 1), (2, -3), (3, 1), (4, 2)]),
    (1, Table.ofList [(0, 1), (2, 2)]), (9, Table.empty), (2, Table.ofList [(0, 1), (4, -1)])]⟩

def mixedWeights : List Number :=
  [.int 1, .real 0.5, .real 0.25, .real 3.0, .real (-1.5)]

def mixedFlags : List Bool :=
  [false, true, false, true, false]

def mixedNetwork : Network Number where
  constraints := [⟨4, [1, -2], .int 7, false⟩, ⟨1, [-1], .real 10.0, true⟩,
    ⟨9, [2], .real 3.0, false⟩, ⟨2, [2, 1], .real (-1.0), false⟩]
  atoms := [⟨1, false⟩, ⟨2, true⟩]
  weightHard := .real 10.0
  queryFirst := 1
  queryLast := 2
  dependencies := some mixedDependencies
  positive := Table.ofList [(1, [4, 2]), (2, [9, 2])]
  negative := Table.ofList [(2, [4]), (1, [1])]
  maxWidth := 2

theorem made_mixedNetwork : mixedNetwork.Made := by
  have hassemble : assemble mixed [⟨1, false⟩, ⟨2, true⟩] (.int 10) 1 2 (some mixedDependencies) =
      .ok mixedNetwork := rfl
  exact .assembled hassemble

theorem supplied_mixedNetwork : mixedNetwork.Supplied mixedDependencies mixedWeights
    [1.0, 0.5, 0.25, 3.0, -1.5] mixedFlags where
  dependencies := rfl
  weights := rfl
  lengths := rfl
  entries := by decide
  formulas := by
    have hindices : mixedDependencies.formulaIndices = [0, 1, 2, 3, 4] := by cbv
    rw [hindices]
    decide
  frequencies := by
    have hvalues : ∀ c ∈ [4, 1, 9, 2], ∀ e ∈ mixedDependencies.recorded c,
        e.2 = -3 ∨ e.2 = -1 ∨ e.2 = 1 ∨ e.2 = 2 := by decide
    intro c hc e he
    have hid : c.id ∈ [4, 1, 9, 2] := List.mem_map_of_mem (f := (·.id)) hc
    rcases hvalues c.id hid e he with h | h | h | h
    · exact ⟨-3.0, by rw [h]; rfl⟩
    · exact ⟨-1.0, by rw [h]; rfl⟩
    · exact ⟨1.0, by rw [h]; rfl⟩
    · exact ⟨2.0, by rw [h]; rfl⟩

/-- The policies differ on constraint 4, where a soft contribution comes last, and on constraint 1,
which is hard without a hard formula. -/
theorem recomputes_mixedNetwork : mixedNetwork.Made ∧
    mixedNetwork.Supplied mixedDependencies mixedWeights [1.0, 0.5, 0.25, 3.0, -1.5] mixedFlags ∧
    ∃ w, mixedNetwork.weightHard = .real w ∧
      mixedNetwork.Recomputes mixedDependencies mixedWeights [1.0, 0.5, 0.25, 3.0, -1.5]
        mixedFlags w ∧
      (mixedNetwork.reweight mixedWeights mixedFlags .hardWins).1.constraints.map (·.weight) =
        [.real 10.0, .real 10.0, .real 0.0, .real 2.5] ∧
      (mixedNetwork.reweight mixedWeights mixedFlags .sequential).1.constraints.map (·.weight) =
        [.real 7.0, .real 11.5, .real 0.0, .real 2.5] := by
  obtain ⟨w, hw, h⟩ := recomputes_of_supplied made_mixedNetwork supplied_mixedNetwork
  refine ⟨made_mixedNetwork, supplied_mixedNetwork, w, hw, h, ?_, ?_⟩
  · obtain rfl := Number.real.inj hw
    rw [h.prescribes]
    rfl
  · obtain rfl := Number.real.inj hw
    rw [h.prescribes]
    rfl

end Network

end MarkovLogic
