import MarkovLogic.Proofs.Grounding.HardWeight
import MarkovLogic.Proofs.Grounding.Acceptance
import MarkovLogic.Proofs.Grounding.Outline

/-!
# What replacing negative weights does to scores

Over exact weights a clause of weight `w < 0` takes `-w` from the score of a world in which a kept
grounding of it is true. Replaced, it adds `-w` for each false literal of the grounding. Up to a
constant these differ by `-w` times the number of false literals, less one if all are false
(`Instance.score_true`). Summed over all groundings this is by how much the two networks disagree on
the difference between two worlds (`Problem.disagrees_of_ground`): they agree where the groundings
have single literals, and not in general (`Problem.scores_apart_badWeather`).
-/

namespace MarkovLogic

/-! ## False literals -/

/-- The number of literals that are false. -/
def falseCount (truth : Nat → Option Bool) (literals : List Int) : Nat :=
  literals.countP fun x => Constraint.holds truth x = some false

/-- The number of false literals, less one if no literal is true. -/
def excess (truth : Nat → Option Bool) (literals : List Int) : Int :=
  falseCount truth literals - if anyHolds truth literals then 0 else 1

theorem holds_neg (truth : Nat → Option Bool) {x : Int} (hx : x ≠ 0) :
    Constraint.holds truth (-x) = (Constraint.holds truth x).map (!·) := by
  have hsign : decide (0 < -x) = !decide (0 < x) := by
    by_cases hpos : 0 < x
    · rw [decide_eq_true hpos, decide_eq_false (by omega)]
      rfl
    · rw [decide_eq_false hpos, decide_eq_true (by omega)]
      rfl
  unfold Constraint.holds
  rw [Int.natAbs_neg, hsign, Option.map_map]
  congr 1
  funext b
  cases b <;> cases decide (0 < x) <;> rfl

/-- The negated unit of a literal is true when the literal is false. -/
theorem anyHolds_neg (truth : Nat → Option Bool) {x : Int} (hx : x ≠ 0) :
    anyHolds truth [-x] = decide (Constraint.holds truth x = some false) := by
  unfold anyHolds
  rw [List.any_cons, List.any_nil, Bool.or_false, holds_neg truth hx]
  cases Constraint.holds truth x with
  | none => rfl
  | some b => cases b <;> rfl

section

variable {R : Type} [CommRing R]

/-- Units of negated literals weigh together as much as there are false literals. -/
theorem sum_negated (truth : Nat → Option Bool) (v : R) {literals : List Int}
    (h : ∀ x ∈ literals, x ≠ 0) :
    (literals.map fun x => if anyHolds truth [-x] then v else 0).sum =
      falseCount truth literals * v := by
  unfold falseCount
  induction literals with
  | nil => simp
  | cons x rest ih =>
    obtain ⟨hx, hrest⟩ := List.forall_mem_cons.1 h
    rw [List.map_cons, List.sum_cons, ih hrest, List.countP_cons, anyHolds_neg truth hx]
    by_cases hfalse : Constraint.holds truth x = some false
    · simp only [hfalse, decide_true, if_true]
      push_cast
      ring
    · simp [hfalse]

/-- A single literal is never in excess. -/
theorem excess_singleton {truth : Nat → Option Bool} {x : Int}
    (h : ∃ b, truth x.natAbs = some b) : excess truth [x] = 0 := by
  obtain ⟨b, hb⟩ := h
  have hx : Constraint.holds truth x = some (b == decide (0 < x)) := by
    rw [Constraint.holds, hb, Option.map_some]
  unfold excess falseCount anyHolds
  cases hval : (b == decide (0 < x)) <;> simp [hx, hval]

end

variable {R : Type} [CommRing R] [LinearOrder R]

/-! ## One grounding -/

namespace Instance

/-- The literals of a kept grounding of a clause of negative weight, and the magnitude of the
weight. -/
def negative? (inst : Instance R) : Option (List Int × R) :=
  match inst.outcome, inst.clause.weight with
  | .kept literals, some w => if w < 0 then some (literals, -w) else none
  | _, _ => none

/-- The magnitude of the weight for each false literal of a kept grounding of a clause of negative
weight, less once if all its literals are false. -/
def surplus (truth : Nat → Option Bool) (inst : Instance R) : R :=
  inst.negative?.elim 0 fun e => e.2 * excess truth e.1

/-- The magnitude of the weight of a kept grounding of a clause of negative weight. -/
def magnitude (inst : Instance R) : R :=
  inst.negative?.elim 0 Prod.snd

/-- The total weight of the satisfied contributions. -/
def score (noNeg : Bool) (truth : Nat → Option Bool) (inst : Instance R) : R :=
  ((inst.contributions noNeg).map fun e =>
    if anyHolds truth e.2.literals then e.2.weight.getD 0 else 0).sum

/-- **Replacement changes the score of a grounding by its surplus**, and by its magnitude whatever
the world. -/
theorem score_true {inst : Instance R} (hsoft : inst.clause.isHard = false)
    (hzero : ∀ literals, inst.outcome = .kept literals → ∀ x ∈ literals, x ≠ 0)
    (truth : Nat → Option Bool) :
    inst.score true truth = inst.score false truth + inst.surplus truth + inst.magnitude := by
  unfold score surplus magnitude negative? contributions Clause.contributions
  obtain ⟨w, hw⟩ : ∃ w, inst.clause.weight = some w := by
    cases hw : inst.clause.weight with
    | none =>
      rw [Clause.isHard, hw] at hsoft
      cases hsoft
    | some w => exact ⟨w, rfl⟩
  cases ho : inst.outcome with
  | dropped => simp
  | violated => simp
  | kept literals =>
    by_cases hneg : w < 0
    · have hisNeg : WeightArith.isNegative w = true := decide_eq_true hneg
      have hunits := sum_negated truth (-w) (hzero literals ho)
      simp only [hw, hisNeg, Bool.true_and, Bool.false_and, if_true, if_false, hneg,
        Bool.false_eq_true, List.map_map, Function.comp_def, Option.getD_some, Option.elim_some,
        List.map_cons, List.map_nil, List.sum_cons, List.sum_nil, WeightArith.exact_neg, hunits,
        excess]
      cases anyHolds truth literals <;> push_cast <;> simp <;> ring
    · have hisNeg : WeightArith.isNegative w = false := decide_eq_false hneg
      simp [hw, hisNeg, hneg]

/-- Over a list of groundings the changes add up. -/
theorem sum_score_true {ins : List (Instance R)} {truth : Nat → Option Bool}
    (hsoft : ∀ inst ∈ ins, inst.clause.isHard = false)
    (hzero : ∀ inst ∈ ins, ∀ literals, inst.outcome = .kept literals → ∀ x ∈ literals, x ≠ 0) :
    (ins.map (score true truth)).sum =
      (ins.map (score false truth)).sum + (ins.map (surplus truth)).sum +
        (ins.map magnitude).sum := by
  rw [← List.sum_map_add, ← List.sum_map_add]
  exact congrArg List.sum (List.map_congr_left fun inst hinst =>
    score_true (hsoft inst hinst) (hzero inst hinst) truth)

theorem outcome_of_negative? {inst : Instance R} {literals : List Int} {v : R}
    (h : inst.negative? = some (literals, v)) : inst.outcome = .kept literals := by
  unfold negative? at h
  split at h
  · next kept w ho hw =>
    split at h
    · rw [ho, (Prod.mk.inj (Option.some.inj h)).1]
    · cases h
  · cases h

/-- A grounding with a single literal has no surplus. -/
theorem surplus_eq_zero {inst : Instance R} {truth : Nat → Option Bool}
    (hsingle : ∀ literals v, inst.negative? = some (literals, v) → literals.length = 1)
    (hdef : ∀ literals, inst.outcome = .kept literals → ∀ x ∈ literals,
      ∃ b, truth x.natAbs = some b) : inst.surplus truth = 0 := by
  unfold surplus
  cases hn : inst.negative? with
  | none => rfl
  | some e =>
    obtain ⟨literals, v⟩ := e
    obtain ⟨x, rfl⟩ := List.length_eq_one_iff.1 (hsingle literals v hn)
    have hx := hdef [x] (outcome_of_negative? hn) x List.mem_cons_self
    rw [Option.elim_some, excess_singleton hx, Int.cast_zero, mul_zero]

end Instance

/-! ## All groundings -/

namespace Problem

/-- The problem with the choice whether clauses of negative weight are replaced. -/
def replacing (p : Problem R) (noNeg : Bool) : Problem R :=
  { p with options := { p.options with noNegativeWeights := noNeg } }

variable {p : Problem R}

/-- The score of a network without hard constraints is that of the contributions. -/
theorem score_of_networkOf {space : AtomSpace} {entries : List (Nat × Contribution R)}
    {merged : MergeTable R} {net : Network R}
    (hm : MergeTable.addAll Table.empty entries = .ok merged)
    (hn : p.networkOf space merged = .ok net) (hsoft : ∀ e ∈ entries, e.2.weight.isNone = false)
    {truth : Nat → Option Bool}
    (hdef : ∀ literals ∈ Table.keys merged, ∀ x ∈ literals, ∃ b, truth x.natAbs = some b) :
    net.score truth =
      (entries.map fun e => if anyHolds truth e.2.literals then e.2.weight.getD 0 else 0).sum := by
  have hmerged : ∀ e ∈ Table.toList merged, e.2.isHard = false := by
    intro e he
    rw [Merged.isHard_addAll (MergeTable.addAll_of_mem hm he), Merged.empty, Bool.false_or,
      List.any_eq_false]
    intro e' he'
    rw [hsoft e' (List.mem_of_mem_filter he')]
    decide
  have hconstraints : net.constraints.map (fun k => if k.isTrue truth then k.weight else 0) =
      (Table.toList merged).map fun e => if anyHolds truth e.1 then e.2.weight else 0 := by
    refine p.map_constraints_of_networkOf hn fun e he => ?_
    have hweight : ((numbered e).settled net.weightHard).weight = e.1.2.weight := by
      unfold Constraint.settled
      have hsoft : (numbered e).isHard = false := hmerged e.1 (List.fst_mem_of_mem_zipIdx he)
      rw [hsoft, if_neg (by decide)]
      rfl
    rw [Constraint.isTrue, hweight]
    simp only [decide_eq_true_eq, (isSatisfied_numbered hdef _ he).2]
  have hsum := MergeTable.sum_addAll
    (μ := fun literals m => if anyHolds truth literals then m.weight else 0)
    (δ := fun e => if anyHolds truth e.2.literals then e.2.weight.getD 0 else 0)
    (fun literals => by simp [Merged.empty, WeightArith.exact_zero]) (fun {m m' i c} hadd => ?_) hm
  · rw [Network.score, sum_filter_eq_sum_ite, hconstraints, hsum, Table.toList_empty,
      List.map_nil, List.sum_nil, zero_add]
  · obtain ⟨-, -, hweight⟩ := Merged.add_eq_ok_iff.1 hadd
    cases hw : c.weight with
    | none =>
      rw [hw] at hweight
      simp only at hweight
      rw [hweight]
      simp
    | some w =>
      rw [hw] at hweight
      simp only [WeightArith.exact_add] at hweight
      rw [← Except.ok.inj hweight]
      cases anyHolds truth c.literals <;> simp

/-- Whether clauses of negative weight are replaced does not decide whether a problem can be
grounded, nor its groundings. -/
theorem exists_ground_replacing {noNeg : Bool} {g : Grounding R}
    (hg : (p.replacing noNeg).ground = .ok g) (noNeg' : Bool) :
    ∃ g', (p.replacing noNeg').ground = .ok g' ∧ g'.space = g.space := by
  obtain ⟨hclosed, hb, _⟩ := (p.replacing noNeg).ground_eq_ok_iff.1 hg
  obtain ⟨ins, _, hi, -⟩ := (p.replacing noNeg).merged_of_ground hg
  have hsame : (p.replacing noNeg').instances g.space = (p.replacing noNeg).instances g.space := by
    apply instances_congr <;> rfl
  exact exists_ground_of_exact_instances (p := p.replacing noNeg') hclosed hb (hsame.trans hi)

section

variable (hsoft : ∀ c ∈ p.clauses, c.isHard = false)

include hsoft

/-- Without hard clauses a ground network gives all its constraints a truth value in every world,
and its score is that of the groundings. -/
theorem score_of_ground {noNeg : Bool} {g : Grounding R} (hg : (p.replacing noNeg).ground = .ok g)
    {ins : List (Instance R)} (hi : (p.replacing noNeg).instances g.space = .ok ins)
    {truth : Nat → Option Bool} (ht : g.space.Assigns truth) :
    (∀ k ∈ g.network.constraints, ∃ b, k.isSatisfied truth = some b) ∧
      g.network.score truth = (ins.map (Instance.score noNeg truth)).sum := by
  obtain ⟨_, hb, _⟩ := (p.replacing noNeg).ground_eq_ok_iff.1 hg
  obtain ⟨ins', merged, hi', hm, hn⟩ := (p.replacing noNeg).merged_of_ground hg
  obtain rfl : ins' = ins := Except.ok.inj (hi'.symm.trans hi)
  have hdef : ∀ literals ∈ Table.keys merged, ∀ x ∈ literals, ∃ b, truth x.natAbs = some b := by
    intro literals hl x hx
    obtain ⟨h1, h2⟩ := range_of_mem_keys hi hm hl (hasSpace_of_layout hb) hx
    exact ht _ h1 h2
  have hentries : ∀ e ∈ ins'.flatMap (Instance.contributions noNeg), e.2.weight.isNone = false := by
    intro e he
    obtain ⟨inst, hinst, he⟩ := List.mem_flatMap.1 he
    rw [isNone_of_mem_contributions he]
    obtain ⟨hc, -⟩ := (p.replacing noNeg).clause_of_mem_instances hi hinst
    exact hsoft _ (List.mem_of_getElem? hc)
  constructor
  · intro k hk
    obtain ⟨m, id, hmem, -⟩ := exists_merged_of_networkOf hn hk
    have hkey : k.literals ∈ Table.keys merged :=
      List.mem_map_of_mem (f := Prod.fst) (List.fst_mem_of_mem_zipIdx hmem)
    exact (isSatisfied_iff_anyHolds (hdef _ hkey)).1
  · rw [score_of_networkOf hm hn hentries hdef, List.map_flatMap, List.flatMap_def,
      List.sum_flatten, List.map_map]
    rfl

omit hsoft [CommRing R] [LinearOrder R] in
/-- A kept grounding has numbers of the space. -/
theorem range_of_outcome {space : AtomSpace} {ins : List (Instance R)}
    (hi : p.instances space = .ok ins) (h : p.HasSpace space) {inst : Instance R}
    (hinst : inst ∈ ins) {literals : List Int} (ho : inst.outcome = .kept literals) {x : Int}
    (hx : x ∈ literals) : 1 ≤ x.natAbs ∧ x.natAbs ≤ space.size := by
  obtain ⟨-, hs⟩ := p.clause_of_mem_instances hi hinst
  rw [ho] at hs
  exact range_of_keeps h (keeps_of_simplify hs) hx

/-- In every world the scores with and without replacement differ by the surpluses, and by the
magnitudes whatever the world. -/
theorem score_replacing {plain replaced : Grounding R}
    (hplain : (p.replacing false).ground = .ok plain)
    (hreplaced : (p.replacing true).ground = .ok replaced) (hspace : replaced.space = plain.space)
    {ins : List (Instance R)} (hi : ∀ noNeg, (p.replacing noNeg).instances plain.space = .ok ins)
    {truth : Nat → Option Bool} (ht : plain.space.Assigns truth) :
    (∀ k ∈ plain.network.constraints ++ replaced.network.constraints,
      ∃ b, k.isSatisfied truth = some b) ∧
    replaced.network.score truth = plain.network.score truth +
      (ins.map (Instance.surplus truth)).sum + (ins.map Instance.magnitude).sum := by
  obtain ⟨_, hb, _⟩ := (p.replacing false).ground_eq_ok_iff.1 hplain
  obtain ⟨hdef, hscore⟩ := score_of_ground hsoft hplain (hi false) ht
  obtain ⟨hdef', hscore'⟩ := score_of_ground hsoft hreplaced (hspace ▸ hi true) (hspace ▸ ht)
  refine ⟨List.forall_mem_append.2 ⟨hdef, hdef'⟩, ?_⟩
  rw [hscore', hscore]
  refine Instance.sum_score_true (fun inst hinst => ?_) fun inst hinst literals ho x hx => ?_
  · obtain ⟨hc, -⟩ := (p.replacing false).clause_of_mem_instances (hi false) hinst
    exact hsoft _ (List.mem_of_getElem? hc)
  · have := (range_of_outcome (hi false) (hasSpace_of_layout hb) hinst ho hx).1
    omega

/-- **Replacing negative weights changes the difference between two worlds by their surpluses.** A
problem without hard clauses that can be grounded with or without replacement can be grounded both
ways over the same space. In the network with replacement the difference of the scores of two worlds
is that of the other network and the difference of the surpluses of the groundings together. So the
differences agree where kept groundings of clauses of negative weight have one literal. -/
theorem disagrees_of_ground {noNeg : Bool} {g : Grounding R}
    (hg : (p.replacing noNeg).ground = .ok g) :
    ∃ plain replaced ins, (p.replacing false).ground = .ok plain ∧
      (p.replacing true).ground = .ok replaced ∧
      plain.space = g.space ∧ replaced.space = g.space ∧ p.instances g.space = .ok ins ∧
      ∀ truth truth', g.space.Assigns truth → g.space.Assigns truth' →
        (∀ k ∈ plain.network.constraints ++ replaced.network.constraints,
          (∃ b, k.isSatisfied truth = some b) ∧ ∃ b, k.isSatisfied truth' = some b) ∧
        replaced.network.score truth - replaced.network.score truth' =
          plain.network.score truth - plain.network.score truth' +
            ((ins.map (Instance.surplus truth)).sum - (ins.map (Instance.surplus truth')).sum) ∧
        ((∀ inst ∈ ins, ∀ literals v, inst.negative? = some (literals, v) → literals.length = 1) →
          replaced.network.score truth - replaced.network.score truth' =
            plain.network.score truth - plain.network.score truth') := by
  obtain ⟨plain, hplain, hspace⟩ := exists_ground_replacing hg false
  obtain ⟨replaced, hreplaced, hspace'⟩ := exists_ground_replacing hg true
  obtain ⟨_, hb, _⟩ := (p.replacing noNeg).ground_eq_ok_iff.1 hg
  obtain ⟨ins, _, hi, -⟩ := (p.replacing noNeg).merged_of_ground hg
  have hinstances : ∀ noNeg', (p.replacing noNeg').instances plain.space = .ok ins := by
    intro noNeg'
    rw [← hi, hspace]
    apply instances_congr <;> rfl
  refine ⟨plain, replaced, ins, hplain, hreplaced, hspace, hspace', hspace ▸ hinstances _, ?_⟩
  intro truth truth' ht ht'
  obtain ⟨hdef, hscore⟩ := score_replacing hsoft hplain hreplaced (hspace'.trans hspace.symm)
    hinstances (hspace ▸ ht)
  obtain ⟨hdef', hscore'⟩ := score_replacing hsoft hplain hreplaced (hspace'.trans hspace.symm)
    hinstances (hspace ▸ ht')
  refine ⟨fun k hk => ⟨hdef k hk, hdef' k hk⟩, ?_, fun hsingle => ?_⟩
  · rw [hscore, hscore']
    ring
  · have hsurplus : ∀ {truth}, g.space.Assigns truth →
        (ins.map (Instance.surplus truth)).sum = 0 := by
      intro truth ht
      apply List.sum_eq_zero
      intro v hv
      obtain ⟨inst, hinst, rfl⟩ := List.mem_map.1 hv
      refine Instance.surplus_eq_zero (hsingle inst hinst) fun literals ho x hx => ?_
      obtain ⟨h1, h2⟩ := range_of_outcome hi (hasSpace_of_layout hb) hinst ho hx
      exact ht _ h1 h2
    rw [hscore, hscore', hsurplus ht, hsurplus ht']
    ring

end

/-! ## A clause with two literals -/

/-- Rain or snow is unlikely. -/
def badWeather : Problem Int :=
  let x : Term := .var ⟨⟨"x", Eq.refl true⟩, some "place", Eq.refl true⟩
  { clauses := [⟨[⟨⟨⟨"Rain", by decide⟩, [x]⟩, true⟩, ⟨⟨⟨"Snow", by decide⟩, [x]⟩, true⟩],
      some (-1), "", by simp⟩]
    schema := Table.ofList [(⟨"Rain", 1⟩, [some "place"]), (⟨"Snow", 1⟩, [some "place"])]
    domains := (DomainMap.ofDomains (Domains.ofList [(.text "place", ["Oslo"])])).domains
    query := [⟨"Rain", 1⟩, ⟨"Snow", 1⟩]
    hidden := []
    evidence := Table.empty
    options := {} }

theorem soft_badWeather : ∀ c ∈ badWeather.clauses, c.isHard = false := by
  intro c hc
  obtain rfl := List.mem_singleton.1 hc
  rfl

/-- **The scores of two worlds can differ by another amount once negative weights are replaced**: in
bad weather of both kinds and in good weather. -/
theorem scores_apart_badWeather :
    ∃ plain replaced, (badWeather.replacing false).ground = .ok plain ∧
      (badWeather.replacing true).ground = .ok replaced ∧ plain.space = replaced.space ∧
      plain.space.Assigns (fun _ => some true) ∧ plain.space.Assigns (fun _ => some false) ∧
      (plain.network.score fun _ => some true) - (plain.network.score fun _ => some false) = -1 ∧
      (replaced.network.score fun _ => some true) -
        (replaced.network.score fun _ => some false) = -2 := by
  have hplain : (badWeather.replacing false).ground.map (fun g =>
      (g.network.score fun _ => some true) - (g.network.score fun _ => some false)) =
        .ok (-1) := by cbv
  have hreplaced : (badWeather.replacing true).ground.map (fun g =>
      (g.network.score fun _ => some true) - (g.network.score fun _ => some false)) =
        .ok (-2) := by cbv
  obtain ⟨plain, hg, hscore⟩ := map_eq_ok_iff.1 hplain
  obtain ⟨replaced, hg', hscore'⟩ := map_eq_ok_iff.1 hreplaced
  obtain ⟨_, hb, _⟩ := (badWeather.replacing false).ground_eq_ok_iff.1 hg
  obtain ⟨_, hb', _⟩ := (badWeather.replacing true).ground_eq_ok_iff.1 hg'
  exact ⟨plain, replaced, hg, hg', Except.ok.inj (hb.symm.trans hb'), fun _ _ _ => ⟨true, rfl⟩,
    fun _ _ _ => ⟨false, rfl⟩, hscore, hscore'⟩

theorem disagrees_badWeather :
    (∀ c ∈ badWeather.clauses, c.isHard = false) ∧
    ∃ plain replaced ins, (badWeather.replacing false).ground = .ok plain ∧
      (badWeather.replacing true).ground = .ok replaced ∧
      badWeather.instances plain.space = .ok ins ∧
      (replaced.network.score fun _ => some true) - (replaced.network.score fun _ => some false) =
        (plain.network.score fun _ => some true) - (plain.network.score fun _ => some false) +
          ((ins.map (Instance.surplus fun _ => some true)).sum -
            (ins.map (Instance.surplus fun _ => some false)).sum) := by
  have hshape : (badWeather.replacing false).ground.map (fun g => g.groundings) = .ok 1 := by cbv
  obtain ⟨g, hg, -⟩ := map_eq_ok_iff.1 hshape
  obtain ⟨plain, replaced, ins, hplain, hreplaced, hspace, -, hi, h⟩ :=
    disagrees_of_ground soft_badWeather hg
  obtain ⟨-, hdifference, -⟩ :=
    h (fun _ => some true) (fun _ => some false) (fun _ _ _ => ⟨true, rfl⟩) fun _ _ _ => ⟨false, rfl⟩
  exact ⟨soft_badWeather, plain, replaced, ins, hplain, hreplaced, hspace ▸ hi, hdifference⟩

end Problem

end MarkovLogic
