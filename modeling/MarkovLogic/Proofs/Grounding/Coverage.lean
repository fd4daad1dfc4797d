import MarkovLogic.KnowledgeBase.Basic
import MarkovLogic.Proofs.Grounding.NormalForm
import MarkovLogic.Proofs.Grounding.Outline
import MarkovLogic.Proofs.Network.History
import MarkovLogic.Proofs.Network.RealWeights

/-!
# What is hard and what is recorded

Hardness is kept twice: as a mark of the constraint and through the formulas of its recorded entry.
The two agree through all merges (`Problem.isHard_iff_exists_source`), and the entries cover the
network and mention no formula that is not a clause. So weights learned for the clauses can always
be brought into the network (`Problem.reweightable_of_ground`).
-/

namespace MarkovLogic

variable {α : Type}

/-- Every constraint has an entry, the hard ones have a hard clause in it, the others none, and no
entry has a formula that is no clause. -/
structure Problem.Covers (p : Problem α) (net : Network α) (deps : DependencyMap) : Prop where
  entry : ∀ c ∈ net.constraints, ∃ frequencies, deps.entry? c.id = some frequencies ∧
    (c.isHard = true ↔
      ∃ i ∈ frequencies.keys, ∃ clause, p.clauses[i]? = some clause ∧ clause.isHard = true)
  formulas : ∀ i ∈ deps.formulaIndices, i < p.clauses.length

/-- All recorded frequencies have a floating-point value. -/
def DependencyMap.Convertible (deps : DependencyMap) : Prop :=
  ∀ c frequencies, deps.entry? c = some frequencies →
    ∀ e ∈ frequencies.toList, ∃ y, Number.realOfInt e.2 = .ok y

/-- The sum of formula weight times frequency in recording order. -/
def recordedSum (xs : List Float) (frequencies : Table Nat Int) : Float :=
  frequencies.toList.foldl (fun total e => total + xs[e.1]?.getD 0.0 * Float.ofInt e.2) 0.0

/-- The network with the sum of learned weights on every constraint that is not hard. -/
def Network.learned (net : Network Number) (deps : DependencyMap) (xs : List Float) :
    Network Number :=
  { net with constraints := net.constraints.map fun c =>
      { c with weight := if c.isHard then net.weightHard
        else .real (recordedSum xs ((deps.entry? c.id).getD Table.empty)) } }

namespace Problem

/-! ## Hardness through merges -/

section Merges

variable [WeightArith α] {p : Problem α} {space : AtomSpace} {ins : List (Instance α)}
  {merged : MergeTable α} (hi : p.instances space = .ok ins)
  (hm : MergeTable.addAll Table.empty
    (ins.flatMap (Instance.contributions p.options.noNegativeWeights)) = .ok merged)

include hi in
theorem isNone_of_mem_shares {noNeg : Bool} {e : Nat × Contribution α}
    (he : e ∈ ins.flatMap (Instance.contributions noNeg)) {clause : Clause α}
    (hc : p.clauses[e.1]? = some clause) : e.2.weight.isNone = clause.isHard := by
  obtain ⟨inst, hinst, he⟩ := List.mem_flatMap.1 he
  have hclause := (p.clause_of_mem_instances hi hinst).1
  rw [← (literals_of_mem_contributions he).1, hc, Option.some.injEq] at hclause
  rw [isNone_of_mem_contributions he, hclause]

include hi hm

/-- **A merged constraint is hard when one of its recorded formulas is a hard clause.** -/
theorem isHard_iff_exists_source {literals : List Int} {m : Merged α}
    (hmem : (literals, m) ∈ Table.toList merged) :
    m.isHard = true ↔
      ∃ i ∈ m.sources.keys, ∃ clause, p.clauses[i]? = some clause ∧ clause.isHard = true := by
  have hadd := MergeTable.addAll_of_mem hm hmem
  have hhard : m.isHard = true ↔
      ∃ e ∈ (ins.flatMap (Instance.contributions p.options.noNegativeWeights)).filter
        (fun e => e.2.literals = literals), e.2.weight.isNone = true := by
    rw [Merged.isHard_addAll hadd, ← List.any_eq_true]
    rfl
  rw [hhard]
  constructor
  · rintro ⟨e, he, hnone⟩
    obtain ⟨clause, hc, -⟩ := clause_of_mem_shares hi (List.mem_of_mem_filter he)
    rw [isNone_of_mem_shares hi (List.mem_of_mem_filter he) hc] at hnone
    exact ⟨e.1, (mem_sources_iff hi hm hmem).2 ⟨e, he, rfl⟩, clause, hc, hnone⟩
  · rintro ⟨i, hsource, clause, hc, hclause⟩
    obtain ⟨e, he, rfl⟩ := (mem_sources_iff hi hm hmem).1 hsource
    exact ⟨e, he, by rw [isNone_of_mem_shares hi (List.mem_of_mem_filter he) hc, hclause]⟩

theorem covers_of_networkOf {net : Network α} (hn : p.networkOf space merged = .ok net) :
    p.Covers net (dependenciesOf merged) := by
  constructor
  · intro c hc
    obtain ⟨m, k, he, hid, hhard, -⟩ := exists_merged_of_networkOf hn hc
    refine ⟨m.sources, hid ▸ entry?_dependenciesOf he, ?_⟩
    rw [hhard]
    exact isHard_iff_exists_source hi hm (List.fst_mem_of_mem_zipIdx he)
  · intro i hindex
    obtain ⟨literals, m, hmem, hsource⟩ := exists_of_mem_formulaIndices hindex
    exact lt_of_mem_sources hi hm hmem hsource

end Merges

/-! ## Learned weights -/

section Learning

variable {p : Problem Number} {net : Network Number} {deps : DependencyMap}
  (hcov : p.Covers net deps) (hdeps : net.dependencies = some deps)
  {weights : List Number} {xs : List Float} (hxs : weights.mapM Number.toReal = .ok xs)
  (hl : xs.length = p.clauses.length)

include hcov hdeps hxs hl

theorem checkReweight_of_covers {hardFlags : List Bool}
    (hf : hardFlags.length = p.clauses.length) :
    net.checkReweight weights hardFlags = .ok (deps, .reals xs hardFlags) := by
  refine Network.checkReweight_eq_ok hdeps (Number.mapM_settle_eq_ok_iff.2 ⟨xs, hxs, rfl⟩) ?_ ?_ ?_
  · rw [List.length_map, hl, hf]
  · intro c hc
    obtain ⟨frequencies, hentry, -⟩ := hcov.entry c hc
    exact (Table.contains_iff _).2 ((Table.mem_keys_iff _).2 ⟨frequencies, hentry⟩)
  · intro i hi
    rw [List.length_map, hl]
    exact hcov.formulas i hi

variable (hmade : net.Made) (hconv : deps.Convertible)

include hmade hconv

/-- **Reweighting never fails** once the numbers of weights and flags fit. -/
theorem reweights_of_covers {hardFlags : List Bool} (hf : hardFlags.length = p.clauses.length)
    (policy : MixedPolicy) :
    ∃ net', net.reweight weights hardFlags policy = (net', .ok net.constraints.length) := by
  obtain ⟨w₀, hw₀⟩ := hmade.exists_settle
  obtain ⟨w, -, hw⟩ := Number.settle_eq_ok_iff.1 hw₀
  have hcombine : ∀ c : Constraint Number, ∃ v, FormulaWeights.combine (.reals xs hardFlags)
      net.weightHard policy c.isHard (((deps.entry? c.id).map Table.toList).getD []) = .ok v := by
    intro c
    have hall : ∀ e ∈ ((deps.entry? c.id).map Table.toList).getD [],
        ∃ y, Number.realOfInt e.2 = .ok y := by
      cases hentry : deps.entry? c.id with
      | none => exact fun e he => absurd he List.not_mem_nil
      | some frequencies => exact hconv c.id frequencies hentry
    rw [hw]
    obtain ⟨x, hx⟩ := FormulaWeights.exists_combine_reals c.isHard fun e he _ => hall e he
    exact ⟨_, hx⟩
  choose v hv using hcombine
  exact ⟨_, Network.reweight_eq (checkReweight_of_covers hcov hdeps hxs hl hf) hmade.nodup_ids
    fun c _ => hv c⟩

/-- **With the clauses' own flags no contribution is lost**: a hard constraint has the hard weight
and every other one the sum of what was recorded. -/
theorem reweight_of_covers :
    net.reweight weights (Clause.hardFlags p.clauses) .hardWins =
      (net.learned deps xs, .ok net.constraints.length) := by
  obtain ⟨w₀, hw₀⟩ := hmade.exists_settle
  obtain ⟨w, -, hw⟩ := Number.settle_eq_ok_iff.1 hw₀
  have hf : (Clause.hardFlags p.clauses).length = p.clauses.length := List.length_map ..
  refine Network.reweight_eq (checkReweight_of_covers hcov hdeps hxs hl hf) hmade.nodup_ids
    fun c hc => ?_
  obtain ⟨frequencies, hentry, hhard⟩ := hcov.entry c hc
  rw [hentry]
  cases hc : c.isHard with
  | true => exact FormulaWeights.combine_hard ..
  | false =>
    rw [hw]
    refine FormulaWeights.combine_reals_soft (fun e he => ?_) (hconv c.id frequencies hentry)
    -- a formula of the entry that is flagged hard would make the constraint hard
    have hkey : e.1 ∈ frequencies.keys := List.mem_map_of_mem he
    unfold FormulaWeights.isHard FormulaWeights.reals Clause.hardFlags
    simp only [List.getElem?_map]
    cases hclause : p.clauses[e.1]? with
    | none => rfl
    | some clause =>
      have hsoft : ¬ clause.isHard = true := fun hh => by
        rw [hhard.2 ⟨e.1, hkey, clause, hclause, hh⟩] at hc
        cases hc
      simpa using hsoft

end Learning

/-- **What is marked hard and what is recorded agree**, and learned weights can be brought in. -/
theorem reweightable_of_ground {p : Problem Number} {g : Grounding Number} (hg : p.ground = .ok g)
    (htrack : p.options.trackDependencies = true) :
    ∃ deps, g.network.dependencies = some deps ∧ p.Covers g.network deps ∧
      (deps.Convertible → ∀ {weights : List Number} {xs : List Float},
        weights.mapM Number.toReal = .ok xs → xs.length = p.clauses.length →
        (∀ hardFlags : List Bool, hardFlags.length = p.clauses.length → ∀ policy, ∃ net',
          g.network.reweight weights hardFlags policy =
            (net', .ok g.network.constraints.length)) ∧
        g.network.reweight weights (Clause.hardFlags p.clauses) .hardWins =
          (g.network.learned deps xs, .ok g.network.constraints.length)) := by
  obtain ⟨ins, merged, hi, hm, hn⟩ := p.merged_of_ground hg
  have hdeps := (p.constraints_of_networkOf hn).2 htrack
  obtain ⟨_, -, hassemble⟩ := p.networkOf_eq_ok_iff.1 hn
  have hmade := Network.Made.assembled hassemble
  have hcov := covers_of_networkOf hi hm hn
  refine ⟨_, hdeps, hcov, fun hconv weights xs hxs hl => ⟨?_, ?_⟩⟩
  · intro hardFlags hf policy
    exact reweights_of_covers hcov hdeps hxs hl hmade hconv hf policy
  · exact reweight_of_covers hcov hdeps hxs hl hmade hconv

/-! ## A hard and a replaced clause about the same atoms -/

/-- A rule that is replaced because of its negative weight, a hard one whose constraints are those
of the replacement, and one that repeats a literal. -/
def opposed : Problem Number :=
  let a : Term := .var ⟨⟨"a", by decide⟩, some "thing", by decide⟩
  let b : Term := .var ⟨⟨"b", by decide⟩, some "thing", by decide⟩
  let good (t : Term) : Atom := ⟨⟨"Good", by decide⟩, [t]⟩
  { clauses := [
      ⟨[⟨good a, true⟩], some (.int (-1)), "", by simp⟩,
      ⟨[⟨good a, false⟩], none, "", by simp⟩,
      ⟨[⟨good a, true⟩, ⟨good b, true⟩], some (.int 2), "", by simp⟩]
    schema := Table.ofList [(⟨"Good", 1⟩, [some "thing"])]
    domains := (DomainMap.ofDomains (Domains.ofList [(.text "thing", ["Lamp", "Door"])])).domains
    query := [⟨"Good", 1⟩]
    hidden := []
    evidence := Table.empty
    options :=
      { weightHard := some (.int 8), trackDependencies := true, noNegativeWeights := true } }

/-- The shares of a grounding with the given formula, weight and kept literals, where clauses of
negative weight are replaced. -/
def rowShares (row : Nat × Option Number × Option (List Int)) : List (Nat × Contribution Number) :=
  match row.2.2 with
  | none => []
  | some literals =>
    if row.2.1.any WeightArith.isNegative then
      literals.map fun l => (row.1, ⟨[-l], row.2.1.map WeightArith.neg, -1⟩)
    else [(row.1, ⟨literals, row.2.1, 1⟩)]

/-- Formula, weight and kept literals of its groundings. -/
def opposedRows : List (Nat × Option Number × Option (List Int)) := [
  (0, some (.int (-1)), some [1]), (0, some (.int (-1)), some [2]),
  (1, none, some [-1]), (1, none, some [-2]),
  (2, some (.int 2), some [1]), (2, some (.int 2), some [1, 2]),
  (2, some (.int 2), some [1, 2]), (2, some (.int 2), some [2])]

theorem rows_opposed : ((AtomSpace.build opposed.schema opposed.domains opposed.query
      opposed.hidden).mapError GroundingError.space >>= fun space => (opposed.instances space).map
      fun ins => ins.map fun inst => (inst.formula, inst.clause.weight, inst.outcome.kept?)) =
    .ok opposedRows := by
  cbv

/-- Its contributions: constraint `¬Good(Lamp)` has a replaced one and a hard one. -/
def opposedShares : List (Nat × Contribution Number) := [
  (0, ⟨[-1], some (.int 1), -1⟩), (0, ⟨[-2], some (.int 1), -1⟩),
  (1, ⟨[-1], none, 1⟩), (1, ⟨[-2], none, 1⟩),
  (2, ⟨[1], some (.int 2), 1⟩), (2, ⟨[1, 2], some (.int 2), 1⟩),
  (2, ⟨[1, 2], some (.int 2), 1⟩), (2, ⟨[2], some (.int 2), 1⟩)]

def opposedDependencies : DependencyMap :=
  ⟨Table.ofList [(0, Table.ofList [(0, -1), (1, 1)]), (1, Table.ofList [(0, -1), (1, 1)]),
    (2, Table.ofList [(2, 1)]), (3, Table.ofList [(2, 2)]), (4, Table.ofList [(2, 1)])]⟩

theorem contributions_opposed {space : AtomSpace} {ins : List (Instance Number)}
    (hb : AtomSpace.build opposed.schema opposed.domains opposed.query opposed.hidden = .ok space)
    (hi : opposed.instances space = .ok ins) :
    ins.flatMap (Instance.contributions opposed.options.noNegativeWeights) = opposedShares := by
  have hrows : ins.map (fun inst => (inst.formula, inst.clause.weight, inst.outcome.kept?)) =
      opposedRows := by
    have h := rows_opposed
    rw [hb] at h
    change (opposed.instances space).map _ = _ at h
    rw [hi] at h
    exact Except.ok.inj h
  calc ins.flatMap (Instance.contributions opposed.options.noNegativeWeights)
      = ins.flatMap fun inst =>
          rowShares (inst.formula, inst.clause.weight, inst.outcome.kept?) :=
        List.flatMap_congr fun inst _ => Instance.contributions_eq_shares ..
    _ = opposedRows.flatMap rowShares := by rw [← hrows, List.flatMap_map]
    _ = opposedShares := rfl

theorem exists_ground_opposed : ∃ g, opposed.ground = .ok g := by
  obtain ⟨space, hb, h⟩ := bind_eq_ok_iff.1 rows_opposed
  obtain ⟨ins, hi, -⟩ := map_eq_ok_iff.1 h
  replace hb := mapError_eq_ok_iff.1 hb
  have hclosed : ∀ s ∈ opposed.evidence.keys, s ∉ opposed.query ∧ s ∉ opposed.hidden := by
    intro s hs
    cases hs
  have hreal : ∀ e ∈ ins.flatMap (Instance.contributions opposed.options.noNegativeWeights),
      ∀ w, e.2.weight = some w → ∃ x, w.toReal = .ok x := by
    have hone : ∃ x, Number.toReal (.int 1) = .ok x := ⟨1.0, rfl⟩
    have htwo : ∃ x, Number.toReal (.int 2) = .ok x := ⟨2.0, rfl⟩
    rw [contributions_opposed hb hi]
    simp [opposedShares, hone, htwo]
  have hhard : ∀ w, opposed.options.weightHard = some w → ∃ x, w.toReal = .ok x := by
    intro w hw
    obtain rfl := Option.some.inj hw
    exact ⟨8.0, rfl⟩
  obtain ⟨g, hg, -⟩ := exists_ground_of_instances hclosed hb hi hreal hhard
  exact ⟨g, hg⟩

theorem convertible_opposed {g : Grounding Number} (hg : opposed.ground = .ok g)
    {deps : DependencyMap} (hdeps : g.network.dependencies = some deps) : deps.Convertible := by
  obtain ⟨-, hb, -⟩ := opposed.ground_eq_ok_iff.1 hg
  obtain ⟨ins, merged, hi, hm, hn⟩ := opposed.merged_of_ground hg
  rw [(opposed.constraints_of_networkOf hn).2 rfl, Option.some.injEq] at hdeps
  rw [contributions_opposed hb hi] at hm
  have hdeps' : deps = opposedDependencies := by
    rw [← hdeps, dependenciesOf_eq_outline, MergeTable.outline_addAll hm]
    rfl
  have hvalues : ∀ entry ∈ opposedDependencies.entries.toList, ∀ e ∈ entry.2.toList,
      e.2 = -1 ∨ e.2 = 1 ∨ e.2 = 2 := by decide
  subst hdeps'
  intro c frequencies hentry e he
  rcases hvalues _ ((Table.get?_eq_some_iff _).1 hentry) e he with hvalue | hvalue | hvalue
  · exact ⟨-1.0, by rw [hvalue]; rfl⟩
  · exact ⟨1.0, by rw [hvalue]; rfl⟩
  · exact ⟨2.0, by rw [hvalue]; rfl⟩

theorem reweightable_of_ground_opposed : ∃ g, opposed.ground = .ok g ∧
    opposed.options.trackDependencies = true ∧
    ∃ deps, g.network.dependencies = some deps ∧ deps.Convertible ∧
      [.int 3, .real 0.25, .real (-1.5)].mapM Number.toReal = .ok [3.0, 0.25, -1.5] ∧
      [3.0, 0.25, -1.5].length = opposed.clauses.length ∧
      opposed.Covers g.network deps ∧
      (∀ hardFlags : List Bool, hardFlags.length = opposed.clauses.length → ∀ policy, ∃ net',
        g.network.reweight [.int 3, .real 0.25, .real (-1.5)] hardFlags policy =
          (net', .ok g.network.constraints.length)) ∧
      g.network.reweight [.int 3, .real 0.25, .real (-1.5)] (Clause.hardFlags opposed.clauses)
          .hardWins =
        (g.network.learned deps [3.0, 0.25, -1.5], .ok g.network.constraints.length) := by
  obtain ⟨g, hg⟩ := exists_ground_opposed
  obtain ⟨deps, hdeps, hcov, hlearn⟩ := reweightable_of_ground hg rfl
  have hconv := convertible_opposed hg hdeps
  have hxs : [.int 3, .real 0.25, .real (-1.5)].mapM Number.toReal = .ok [3.0, 0.25, -1.5] := rfl
  obtain ⟨hall, hown⟩ := hlearn hconv hxs rfl
  exact ⟨g, hg, rfl, deps, hdeps, hconv, hxs, rfl, hcov, hall, hown⟩

end Problem

end MarkovLogic
