import MarkovLogic.Network.Reweighting
import MarkovLogic.Proofs.ExactWeight
import MarkovLogic.Proofs.Runs
import MarkovLogic.Proofs.Table

/-!
# What reweighting computes

Reweighting gives every constraint the weight that `FormulaWeights.combine` computes for it and
changes nothing else (`Network.reweight_eq`). When hard contributions win, a hard constraint gets
the hard weight (`combine_hard`), and over exact weights a constraint without hard contributions
gets the sum of formula weight times frequency (`combine_soft`).
-/

namespace MarkovLogic

/-! ## One constraint -/

namespace FormulaWeights

/-- Under the policy that hard contributions win, a hard constraint has the hard weight. -/
theorem combine_hard {α : Type} [WeightArith α] (f : FormulaWeights α) (weightHard : α)
    (frequencies : List (Nat × Int)) :
    f.combine weightHard .hardWins true frequencies = .ok weightHard := by
  have hfold : ∀ start : α, ∃ total,
      frequencies.foldlM (f.step weightHard .hardWins) (true, start) = .ok (true, total) := by
    induction frequencies with
    | nil => exact fun start => ⟨start, rfl⟩
    | cons e rest ih =>
      intro start
      by_cases he : f.isHard e.1 = true
      · obtain ⟨total, ht⟩ := ih weightHard
        refine ⟨total, (foldlM_cons_eq_ok_iff _).2 ⟨(true, weightHard), ?_, ht⟩⟩
        rw [step, if_pos he]
      · obtain ⟨total, ht⟩ := ih start
        refine ⟨total, (foldlM_cons_eq_ok_iff _).2 ⟨(true, start), ?_, ht⟩⟩
        rw [step, if_neg he, if_neg (by simp)]
  obtain ⟨total, ht⟩ := hfold weightHard
  unfold combine
  refine bind_eq_ok_iff.2 ⟨(true, total), ?_, rfl⟩
  rw [if_pos rfl, ht]

variable {R : Type} [CommRing R] [LinearOrder R] (f : FormulaWeights R) (weightHard : R)
  (policy : MixedPolicy)

/-- **Without hard contributions the exact weight is the sum of weight times frequency.** -/
theorem combine_soft {frequencies : List (Nat × Int)}
    (h : ∀ e ∈ frequencies, f.isHard e.1 = false) :
    f.combine weightHard policy false frequencies =
      .ok (frequencies.map fun e => f.weight e.1 * (e.2 : R)).sum := by
  have hfold : ∀ start : R, frequencies.foldlM (f.step weightHard policy) (false, start) =
      .ok (false, start + (frequencies.map fun e => f.weight e.1 * (e.2 : R)).sum) := by
    induction frequencies with
    | nil =>
      intro start
      rw [List.map_nil, List.sum_nil, add_zero]
      rfl
    | cons e rest ih =>
      intro start
      refine (foldlM_cons_eq_ok_iff _).2 ⟨(false, start + f.weight e.1 * (e.2 : R)), ?_, ?_⟩
      · rw [step, if_neg (by simp [h e List.mem_cons_self]), if_pos (by simp)]
        rfl
      · rw [ih fun e he => h e (List.mem_cons_of_mem _ he), List.map_cons, List.sum_cons, add_assoc]
  unfold combine
  refine bind_eq_ok_iff.2
    ⟨(false, (frequencies.map fun e => f.weight e.1 * (e.2 : R)).sum), ?_, rfl⟩
  rw [if_neg (by decide), hfold, WeightArith.exact_zero, zero_add]

end FormulaWeights

/-! ## All constraints -/

namespace Network

variable {α : Type}

/-- Putting reweighted constraints into a network one after the other replaces each constraint by
the one with its number. -/
theorem foldl_putConstraint (v : Constraint α → α) {cs : List (Constraint α)}
    (hn : (cs.map (·.id)).Nodup) : ∀ net : Network α,
      cs.foldl (fun net c => net.putConstraint { c with weight := v c }) net =
        { net with constraints := net.constraints.map fun d =>
            ((cs.find? (·.id = d.id)).map fun c => { c with weight := v c }).getD d } := by
  induction cs with
  | nil =>
    intro net
    simp
  | cons c cs ih =>
    intro net
    obtain ⟨hc, hn⟩ := List.nodup_cons.1 hn
    rw [List.foldl_cons, ih hn]
    unfold putConstraint
    simp only [List.map_map, Network.mk.injEq, and_true]
    refine List.map_congr_left fun d _ => ?_
    by_cases hd : d.id = c.id
    · have hnone : cs.find? (·.id = c.id) = none := by
        rw [List.find?_eq_none]
        intro e he heq
        exact hc (by simpa using ⟨e, he, by simpa using heq⟩)
      simp [hd, hnone]
    · simp [hd, Ne.symm hd]

theorem find?_id_eq_some {cs : List (Constraint α)} (hn : (cs.map (·.id)).Nodup)
    {c : Constraint α} (hc : c ∈ cs) : cs.find? (·.id = c.id) = some c := by
  induction cs with
  | nil => cases hc
  | cons d cs ih =>
    obtain ⟨hd, hn⟩ := List.nodup_cons.1 hn
    rcases List.mem_cons.1 hc with rfl | hc
    · simp
    · have hne : ¬ d.id = c.id := by
        intro he
        have hm : c.id ∈ cs.map (·.id) := List.mem_map_of_mem hc
        rw [← he] at hm
        exact hd hm
      rw [List.find?_cons_of_neg (by simpa using hne), ih hn hc]

variable [WeightArith α] {deps : DependencyMap} {f : FormulaWeights α} {policy : MixedPolicy}
  {v : Constraint α → α}

theorem assignWeights_eq_foldl {cs : List (Constraint α)} :
    ∀ {net : Network α}, (∀ c ∈ cs, f.combine net.weightHard policy c.isHard
      (((deps.entry? c.id).map Table.toList).getD []) = .ok (v c)) →
      assignWeights deps f policy cs net =
        (cs.foldl (fun net c => net.putConstraint { c with weight := v c }) net, .ok ()) := by
  induction cs with
  | nil => intro net _; rfl
  | cons c cs ih =>
    intro net h
    rw [assignWeights, h c List.mem_cons_self, List.foldl_cons]
    have htail : ∀ d ∈ cs, f.combine (net.putConstraint { c with weight := v c }).weightHard policy
        d.isHard (((deps.entry? d.id).map Table.toList).getD []) = .ok (v d) := by
      intro d hd
      exact h d (List.mem_cons_of_mem _ hd)
    exact ih htail

/-- The loop over the constraints gives each its computed weight and changes nothing else. -/
theorem assignWeights_eq {net : Network α} (hn : (net.constraints.map (·.id)).Nodup)
    (h : ∀ c ∈ net.constraints, f.combine net.weightHard policy c.isHard
      (((deps.entry? c.id).map Table.toList).getD []) = .ok (v c)) :
    assignWeights deps f policy net.orderedConstraints net =
      ({ net with constraints := net.constraints.map fun c => { c with weight := v c } },
        .ok ()) := by
  have hperm : net.orderedConstraints.Perm net.constraints := List.mergeSort_perm _ _
  have hn' : (net.orderedConstraints.map (·.id)).Nodup := (hperm.map _).nodup_iff.2 hn
  rw [assignWeights_eq_foldl fun c hc => h c (hperm.mem_iff.1 hc), foldl_putConstraint v hn']
  have hmap : (net.constraints.map fun d => ((net.orderedConstraints.find? (·.id = d.id)).map
      fun c => { c with weight := v c }).getD d) =
      net.constraints.map fun c => { c with weight := v c } := by
    refine List.map_congr_left fun d hd => ?_
    rw [find?_id_eq_some hn' (hperm.mem_iff.2 hd)]
    rfl
  rw [hmap]

/-- The inputs of a reweighting pass the checks when every constraint has an entry and every formula
of an entry a weight. -/
theorem checkReweight_eq_ok {net : Network α} (hdeps : net.dependencies = some deps)
    {weights settled : List α} (hw : weights.mapM WeightArith.settle = .ok settled)
    {hardFlags : List Bool} (hl : settled.length = hardFlags.length)
    (hc : ∀ c ∈ net.constraints, deps.contains c.id = true)
    (hf : ∀ i ∈ deps.formulaIndices, i < settled.length) :
    net.checkReweight weights hardFlags = .ok (deps, ⟨settled, hardFlags⟩) := by
  have hentry : net.withoutEntry? deps = none := by
    unfold withoutEntry?
    rw [Option.map_eq_none_iff, List.find?_eq_none]
    intro c hmem
    have := hc c ((List.mergeSort_perm _ _).mem_iff.1 hmem)
    simp [this]
  unfold checkReweight
  rw [hdeps]
  simp only
  refine bind_eq_ok_iff.2 ⟨settled, mapError_eq_ok_iff.2 hw, ?_⟩
  simp only [hl, hentry, ne_eq, not_true, if_false]
  cases hmax : deps.formulaIndices.max? with
  | none => rfl
  | some i =>
    have hi := hf i (List.max?_mem hmax)
    simp only [if_neg (by omega : ¬ hardFlags.length ≤ i)]
    rfl

/-- **A reweighting whose inputs pass the checks gives every constraint its computed weight.** -/
theorem reweight_eq {net : Network α} {weights : List α} {hardFlags : List Bool}
    (hcheck : net.checkReweight weights hardFlags = .ok (deps, f))
    (hn : (net.constraints.map (·.id)).Nodup)
    (h : ∀ c ∈ net.constraints, f.combine net.weightHard policy c.isHard
      (((deps.entry? c.id).map Table.toList).getD []) = .ok (v c)) :
    net.reweight weights hardFlags policy =
      ({ net with constraints := net.constraints.map fun c => { c with weight := v c } },
        .ok net.constraints.length) := by
  unfold reweight
  rw [hcheck]
  simp only [assignWeights_eq hn h]
  rfl

end Network

end MarkovLogic
