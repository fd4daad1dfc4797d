import MarkovLogic.Proofs.Grounding.Acceptance
import MarkovLogic.Proofs.Grounding.Enumeration
import MarkovLogic.Proofs.Network.Dependencies
import Mathlib

/-!
# The normal form of ground networks

Once all groundings are made, a network comes out, and it is in normal form
(`Problem.normal_of_groundClauses`). All shares of a formula have one sign, so that no share ever
takes a count back to zero (`Problem.neverCancels`) and no count is dropped
(`Problem.keys_sources`). The constraints get their shares in the order of the formulas, so the
recorded formulas ascend.
-/

namespace MarkovLogic

variable {α : Type}

/-- The constraints have non-empty entries with ascending formulas, and the frequencies of a formula
are negative if its clause is replaced and positive if it is not. -/
structure Problem.Records [WeightArith α] (p : Problem α) (net : Network α)
    (deps : DependencyMap) : Prop where
  accepted : DependencyMap.ofEntries deps.pairs = .ok deps
  keys : deps.entries.keys = net.constraints.map (·.id)
  entry : ∀ c ∈ net.constraints, ∃ frequencies, deps.entry? c.id = some frequencies ∧
    frequencies.keys ≠ [] ∧ frequencies.keys.Pairwise (· < ·) ∧
    ∀ i ∈ frequencies.keys, i < p.clauses.length
  sign : ∀ {i clause}, p.clauses[i]? = some clause → ∀ c ∈ net.constraints,
    ∀ {frequencies n}, deps.entry? c.id = some frequencies → frequencies.get? i = some n →
      if clause.isReplaced p.options.noNegativeWeights then n < 0 else 0 < n

namespace Problem

variable [WeightArith α] {p : Problem α} {space : AtomSpace} {ins : List (Instance α)}
  (hi : p.instances space = .ok ins)

/-! ## Shares in order -/

section Shares

variable {noNeg : Bool}

include hi

theorem shares_ascending : (ins.flatMap (Instance.contributions noNeg)).Pairwise
    fun e f => e.1 ≤ f.1 := by
  rw [List.pairwise_flatMap]
  constructor
  · intro inst _
    refine List.pairwise_of_forall_mem_list fun e he f hf => ?_
    rw [(literals_of_mem_contributions he).1, (literals_of_mem_contributions hf).1]
  · refine (formulas_ascending hi).imp fun {inst inst'} hle e he f hf => ?_
    rw [(literals_of_mem_contributions he).1, (literals_of_mem_contributions hf).1]
    exact hle

theorem clause_of_mem_shares {e : Nat × Contribution α}
    (he : e ∈ ins.flatMap (Instance.contributions noNeg)) :
    ∃ c, p.clauses[e.1]? = some c ∧ e.2.frequency = c.direction noNeg := by
  obtain ⟨inst, hinst, he⟩ := List.mem_flatMap.1 he
  rw [Instance.contributions_eq_shares] at he
  rw [Instance.fst_of_mem_shares he, (p.clause_of_mem_instances hi hinst).1]
  exact ⟨_, rfl, Instance.frequency_of_mem_shares he⟩

theorem direction_of_mem_shares {e : Nat × Contribution α}
    (he : e ∈ ins.flatMap (Instance.contributions noNeg)) {i : Nat} (hf : e.1 = i) {c : Clause α}
    (hc : p.clauses[i]? = some c) : e.2.frequency = c.direction noNeg := by
  obtain ⟨c', hc', he⟩ := clause_of_mem_shares hi he
  rw [hf, hc, Option.some.injEq] at hc'
  rw [he, hc']

/-- **Shares never cancel**: a count is the number of shares so far, up to a sign that is the same
for all of them. -/
theorem neverCancels : MergeTable.NeverCancels (ins.flatMap (Instance.contributions noNeg)) := by
  intro pre e post mid hsplit hmid
  have hmem : ∀ f ∈ pre ++ e :: post, f ∈ ins.flatMap (Instance.contributions noNeg) := by
    intro f hf
    exact hsplit ▸ hf
  obtain ⟨c, hc, he⟩ := clause_of_mem_shares hi (hmem e (by simp))
  have hcount := Merged.frequency_eq_mul (i := e.1) (d := c.direction noNeg)
    (MergeTable.get?_addAll e.2.literals hmid) ?_
  · rw [hcount, he]
    unfold Clause.direction
    split <;> omega
  · intro f hf hformula
    have hpre := List.mem_append_left (e :: post) (List.mem_of_mem_filter hf)
    exact direction_of_mem_shares hi (hmem f hpre) hformula hc

end Shares

/-! ## Recorded sources -/

section Sources

variable {noNeg : Bool} {merged : MergeTable α}
  (hm : MergeTable.addAll Table.empty (ins.flatMap (Instance.contributions noNeg)) = .ok merged)
  {literals : List Int} {m : Merged α} (hmem : (literals, m) ∈ Table.toList merged)

include hi hm hmem

/-- No count is ever dropped, so that the formulas are recorded in the order of their shares. -/
theorem keys_sources : m.sources.keys =
    (((ins.flatMap (Instance.contributions noNeg)).filter fun e => e.2.literals = literals).map
      Prod.fst).eraseDups :=
  ((neverCancels hi).filter hm literals).keys_addAll (MergeTable.addAll_of_mem hm hmem)

theorem mem_sources_iff {i : Nat} : i ∈ m.sources.keys ↔
    ∃ e ∈ (ins.flatMap (Instance.contributions noNeg)).filter fun e => e.2.literals = literals,
      e.1 = i := by
  rw [keys_sources hi hm hmem, List.mem_eraseDups, List.mem_map]

theorem sources_ascending : m.sources.keys.Pairwise (· < ·) := by
  rw [keys_sources hi hm hmem]
  apply ascending_eraseDups
  rw [List.pairwise_map]
  exact (shares_ascending hi).sublist List.filter_sublist

theorem sources_ne_nil : m.sources.keys ≠ [] := by
  have hkey : literals ∈ Table.keys merged := List.mem_map_of_mem (f := Prod.fst) hmem
  rcases (MergeTable.mem_keys_addAll hm).1 hkey with hempty | ⟨e, he, hl⟩
  · cases hempty
  · have hsource : e.1 ∈ m.sources.keys :=
      (mem_sources_iff hi hm hmem).2 ⟨e, List.mem_filter.2 ⟨he, by simpa using hl⟩, rfl⟩
    exact List.ne_nil_of_mem hsource

theorem lt_of_mem_sources {i : Nat} (h : i ∈ m.sources.keys) : i < p.clauses.length := by
  obtain ⟨e, he, rfl, -⟩ := MergeTable.exists_contribution_of_source hm hmem h
  obtain ⟨c, hc, -⟩ := clause_of_mem_shares hi he
  exact (List.getElem?_eq_some_iff.1 hc).1

/-- A recorded count has the sign with which the shares of its formula count. -/
theorem sign_of_source {i : Nat} {c : Clause α} (hc : p.clauses[i]? = some c) {n : Int}
    (hn : m.sources.get? i = some n) : if c.isReplaced noNeg then n < 0 else 0 < n := by
  have hsub := MergeTable.addAll_of_mem hm hmem
  have hkey : i ∈ m.sources.keys := (Table.mem_keys_iff _).2 ⟨n, hn⟩
  have hfrequency := Merged.frequency_eq_mul (i := i) (d := c.direction noNeg) hsub ?_
  · have hpos : 0 < ((ins.flatMap (Instance.contributions noNeg)).filter fun e =>
        e.2.literals = literals).countP fun e => e.1 = i := by
      obtain ⟨e, he, rfl⟩ := (mem_sources_iff hi hm hmem).1 hkey
      exact List.countP_pos_iff.2 ⟨e, he, by simp⟩
    rw [Merged.frequency, hn, Option.getD_some] at hfrequency
    rw [hfrequency, Clause.direction]
    split <;> omega
  · intro e he hformula
    exact direction_of_mem_shares hi (List.mem_of_mem_filter he) hformula hc

omit hi in
theorem ne_zero_of_source {i : Nat} {n : Int} (hn : m.sources.get? i = some n) : n ≠ 0 := by
  rintro rfl
  exact Merged.get?_sources_ne_zero (m := .empty) (fun _ => nofun)
    (MergeTable.addAll_of_mem hm hmem) i hn

end Sources

include hi in
/-- **The recorded dependencies are in normal form.** -/
theorem records_of_networkOf {merged : MergeTable α} (hm : MergeTable.addAll Table.empty
      (ins.flatMap (Instance.contributions p.options.noNegativeWeights)) = .ok merged)
    {net : Network α} (hn : p.networkOf space merged = .ok net) :
    p.Records net (dependenciesOf merged) := by
  have hconstraints := (p.constraints_of_networkOf hn).1
  have hentries : ∀ c ∈ net.constraints, ∃ literals m, (literals, m) ∈ Table.toList merged ∧
      DependencyMap.entry? (dependenciesOf merged) c.id = some m.sources := by
    intro c hc
    obtain ⟨m, k, he, hid, -⟩ := exists_merged_of_networkOf hn hc
    rw [hid]
    exact ⟨c.literals, m, List.fst_mem_of_mem_zipIdx he, entry?_dependenciesOf he⟩
  refine ⟨DependencyMap.ofEntries_pairs ?_, ?_, ?_, ?_⟩
  · intro e he f hf
    rw [toList_dependenciesOf] at he
    obtain ⟨⟨m, k⟩, hk, rfl⟩ := List.mem_map.1 he
    obtain ⟨⟨literals, m⟩, hmem, rfl⟩ := List.mem_map.1 (List.fst_mem_of_mem_zipIdx hk)
    exact ne_zero_of_source hm hmem ((Table.get?_eq_some_iff _).2 hf)
  · rw [hconstraints, Table.keys, toList_dependenciesOf, List.map_map, Table.values,
      List.zipIdx_map, List.map_map, constraintsOf_eq, List.map_map, List.map_map]
    apply List.map_congr_left
    intro e _
    exact (Constraint.settled_id net.weightHard (numbered e)).symm
  · intro c hc
    obtain ⟨literals, m, hmem, hentry⟩ := hentries c hc
    exact ⟨m.sources, hentry, sources_ne_nil hi hm hmem, sources_ascending hi hm hmem,
      fun i => lt_of_mem_sources hi hm hmem⟩
  · intro i clause hclause c hc frequencies n hf hget
    obtain ⟨literals, m, hmem, hentry⟩ := hentries c hc
    rw [hf, Option.some.injEq] at hentry
    subst hentry
    exact sign_of_source hi hm hmem hclause hget

end Problem

/-! ## The main statement -/

namespace Problem

/-- **Once all groundings are made, a network in normal form comes out**, provided that a given hard
weight converts to a floating-point value. -/
theorem normal_of_groundClauses {p : Problem Number} {space : AtomSpace}
    {progress : Progress Number}
    (hclosed : ∀ s ∈ p.evidence.keys, s ∉ p.query ∧ s ∉ p.hidden)
    (hb : AtomSpace.build p.schema p.domains p.query p.hidden = .ok space)
    (hp : p.groundClauses space = .ok progress)
    (hw : ∀ w, p.options.weightHard = some w → ∃ x, w.toReal = .ok x) :
    ∃ g, p.ground = .ok g ∧ g.space = space ∧ g.network.Normal space.size ∧
      (p.options.trackDependencies = true → ∃ deps, g.network.dependencies = some deps ∧
        p.Records g.network deps) ∧
      ∃ ins, p.instances space = .ok ins ∧ MergeTable.NeverCancels
        (ins.flatMap (Instance.contributions p.options.noNegativeWeights)) := by
  have hspace := hasSpace_of_layout hb
  obtain ⟨ins, hi, hm, -⟩ := p.groundClauses_eq_ok_iff.1 hp
  obtain ⟨w, w', hhard, hsettle⟩ := exists_hardWeight hm hw
  have hne : ∀ literals ∈ Table.keys progress.merged, literals ≠ [] :=
    fun _ hl => ne_nil_of_mem_keys hi hm hl
  have hasc : ∀ literals ∈ Table.keys progress.merged, Ascending literals :=
    fun _ hl => ascending_of_mem_keys hi hm hl
  have hrange : ∀ literals ∈ Table.keys progress.merged, ∀ x ∈ literals,
      1 ≤ x.natAbs ∧ x.natAbs ≤ space.size :=
    fun _ hl _ hx => range_of_mem_keys hi hm hl hspace hx
  obtain ⟨net, hnet⟩ : ∃ net, p.networkOf space progress.merged = .ok net :=
    exists_networkOf hne (fun literals hl x hx => (hrange literals hl x hx).1) hhard hsettle
  obtain ⟨g, hg, rfl, rfl⟩ := p.exists_ground hclosed hb hi hm hnet
  refine ⟨g, hg, rfl, normal_of_networkOf hnet hne hasc hrange, fun htrack => ?_, ins, hi,
    neverCancels hi⟩
  exact ⟨_, (p.constraints_of_networkOf hnet).2 htrack, records_of_networkOf hi hm hnet⟩

/-- The rules about friends with one floating-point weight for all soft clauses. -/
def evenFriends (weight weightHard : Float) : Problem Number :=
  let p := friends { trackDependencies := true }
  { clauses := p.clauses.map fun c => { c with weight := c.weight.map fun _ => .real weight }
    schema := p.schema
    domains := p.domains
    query := p.query
    hidden := p.hidden
    evidence := p.evidence
    options := { weightHard := some (.real weightHard), trackDependencies := true } }

/-- The clauses about friends have their groundings whatever the weights. -/
theorem exists_instances_evenFriends (x y : Float) : ∃ space ins,
    AtomSpace.build (evenFriends x y).schema (evenFriends x y).domains (evenFriends x y).query
      (evenFriends x y).hidden = .ok space ∧ (evenFriends x y).instances space = .ok ins := by
  have hshape : ((AtomSpace.build (evenFriends x y).schema (evenFriends x y).domains
      (evenFriends x y).query (evenFriends x y).hidden).mapError GroundingError.space >>=
      fun space => ((evenFriends x y).instances space).map List.length) = .ok 12 := by cbv
  obtain ⟨space, hb, hins⟩ := bind_eq_ok_iff.1 hshape
  obtain ⟨ins, hi, -⟩ := map_eq_ok_iff.1 hins
  exact ⟨space, ins, mapError_eq_ok_iff.1 hb, hi⟩

/-- The rules about friends, each soft one with the weight one half. -/
def halfFriends : Problem Number :=
  evenFriends 0.5 8.0

theorem normal_of_groundClauses_halfFriends : ∃ space progress,
    (∀ s ∈ halfFriends.evidence.keys, s ∉ halfFriends.query ∧ s ∉ halfFriends.hidden) ∧
    AtomSpace.build halfFriends.schema halfFriends.domains halfFriends.query halfFriends.hidden =
      .ok space ∧
    halfFriends.groundClauses space = .ok progress ∧
    (∀ w, halfFriends.options.weightHard = some w → ∃ x, w.toReal = .ok x) ∧
    ∃ g, halfFriends.ground = .ok g ∧ g.space = space ∧ g.network.Normal space.size ∧
      (halfFriends.options.trackDependencies = true →
        ∃ deps, g.network.dependencies = some deps ∧ halfFriends.Records g.network deps) ∧
      ∃ ins, halfFriends.instances space = .ok ins ∧ MergeTable.NeverCancels
        (ins.flatMap (Instance.contributions halfFriends.options.noNegativeWeights)) := by
  have hclosed : ∀ s ∈ halfFriends.evidence.keys,
      s ∉ halfFriends.query ∧ s ∉ halfFriends.hidden := by
    change ∀ s ∈ [(⟨"Smokes", 1⟩ : Signature)], s ∉ [(⟨"Friends", 2⟩ : Signature)] ∧ s ∉ []
    decide
  have hreal : ∀ c ∈ halfFriends.clauses, ∀ w, c.weight = some w → ∃ x, w = .real x := by
    intro c hc w hw
    obtain ⟨d, _, rfl⟩ := List.mem_map.1 hc
    obtain ⟨_, _, rfl⟩ := Option.map_eq_some_iff.1 hw
    exact ⟨0.5, rfl⟩
  have hw : ∀ w, halfFriends.options.weightHard = some w → ∃ x, w.toReal = .ok x := by
    intro w hw
    obtain rfl := Option.some.inj hw
    exact ⟨8.0, rfl⟩
  obtain ⟨space, ins, hb, hi⟩ := exists_instances_evenFriends 0.5 8.0
  obtain ⟨progress, hp⟩ := exists_groundClauses_real hreal hi
  exact ⟨space, progress, hclosed, hb, hp, hw, normal_of_groundClauses hclosed hb hp hw⟩

end Problem

end MarkovLogic
