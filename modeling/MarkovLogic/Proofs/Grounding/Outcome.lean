import MarkovLogic.Proofs.Grounding.Merging
import MarkovLogic.Proofs.Network.Assembly
import MarkovLogic.Domain.Builder

/-!
# The network of a grounding

A grounding succeeds with the network that the merged constraints make (`ground_eq_ok_iff`). Its
constraints are the merged ones in order, numbered from 0, and the recorded frequencies are those of
the merged constraints.
-/

namespace MarkovLogic

variable {α : Type}

namespace Problem

/-! ## Numbered constraints -/

/-- The constraint of a merged entry with its number. -/
def numbered (e : (List Int × Merged α) × Nat) : Constraint α :=
  ⟨e.2, e.1.1, e.1.2.weight, e.1.2.isHard⟩

theorem constraintsOf_eq (merged : MergeTable α) :
    constraintsOf merged = (Table.toList merged).zipIdx.map numbered := rfl

/-- The constraints are numbered apart. -/
theorem nodup_map_id_constraintsOf (merged : MergeTable α) :
    ((constraintsOf merged).map (·.id)).Nodup := by
  rw [constraintsOf_eq, List.map_map]
  have hn := (List.nodup_zipIdx_map_snd (Table.toList merged)).map Int.ofNat_injective
  rw [List.map_map] at hn
  exact hn

theorem toList_dependenciesOf (merged : MergeTable α) :
    (dependenciesOf merged).entries.toList =
      (Table.values merged).zipIdx.map fun e => ((e.2 : Int), e.1.sources) := by
  refine Table.toList_ofList ?_
  rw [List.map_map]
  have hn := (List.nodup_zipIdx_map_snd (Table.values merged)).map Int.ofNat_injective
  rw [List.map_map] at hn
  exact hn

/-- The entry recorded for a numbered constraint holds the sources of its merged constraint. -/
theorem entry?_dependenciesOf {merged : MergeTable α} {literals : List Int} {m : Merged α} {k : Nat}
    (h : ((literals, m), k) ∈ (Table.toList merged).zipIdx) :
    DependencyMap.entry? (dependenciesOf merged) k = some m.sources := by
  have hm : (m, k) ∈ (Table.values merged).zipIdx := by
    rw [List.mem_zipIdx_iff_getElem?] at h ⊢
    rw [Table.values, List.getElem?_map, h, Option.map_some]
  rw [DependencyMap.entry?, Table.get?_eq_some_iff, toList_dependenciesOf]
  exact List.mem_map.2 ⟨(m, k), hm, rfl⟩

/-- The formulas of the recorded entries are those of the merged constraints. -/
theorem exists_of_mem_formulaIndices {merged : MergeTable α} {i : Nat}
    (h : i ∈ (dependenciesOf merged).formulaIndices) :
    ∃ literals m, (literals, m) ∈ Table.toList merged ∧ i ∈ m.sources.keys := by
  unfold DependencyMap.formulaIndices Table.values at h
  rw [List.mem_eraseDups, toList_dependenciesOf] at h
  obtain ⟨sources, hs, hi⟩ := List.mem_flatMap.1 h
  obtain ⟨_, he, rfl⟩ := List.mem_map.1 hs
  obtain ⟨⟨m, k⟩, hm, rfl⟩ := List.mem_map.1 he
  obtain ⟨⟨literals, m⟩, hl, rfl⟩ := List.mem_map.1 (List.fst_mem_of_mem_zipIdx hm)
  exact ⟨literals, _, hl, hi⟩

theorem frequency_dependenciesOf {merged : MergeTable α} {literals : List Int} {m : Merged α}
    {k : Nat} (h : ((literals, m), k) ∈ (Table.toList merged).zipIdx) (i : Nat) :
    (dependenciesOf merged).frequency k i = m.frequency i := by
  have hentry := entry?_dependenciesOf h
  unfold DependencyMap.frequency Merged.frequency
  rw [hentry]
  rfl

/-! ## Success -/

variable [WeightArith α] (p : Problem α)

/-- The weight of hard constraints, given or by default. -/
def hardWeight (merged : MergeTable α) : Except Overflow α :=
  match p.options.weightHard with
  | some w => .ok w
  | none => MergeTable.defaultHardWeight merged

theorem networkOf_eq_ok_iff {space : AtomSpace} {merged : MergeTable α} {net : Network α} :
    p.networkOf space merged = .ok net ↔
      ∃ w, p.hardWeight merged = .ok w ∧
        Network.assemble (constraintsOf merged) (atomsOf (constraintsOf merged)) w 1 space.queryEnd
          (if p.options.trackDependencies then some (dependenciesOf merged) else none) =
            .ok net := by
  unfold networkOf hardWeight
  cases p.options.weightHard with
  | some w =>
    simp only [Except.ok.injEq, exists_eq_left']
    exact mapError_eq_ok_iff
  | none =>
    simp only
    rw [bind_eq_ok_iff]
    simp only [mapError_eq_ok_iff]

/-- The network of merged constraints holds them with their final weights, and what contributed to
them if that is tracked. -/
theorem constraints_of_networkOf {space : AtomSpace} {merged : MergeTable α} {net : Network α}
    (h : p.networkOf space merged = .ok net) :
    net.constraints = (constraintsOf merged).map (Constraint.settled net.weightHard) ∧
      (p.options.trackDependencies = true → net.dependencies = some (dependenciesOf merged)) := by
  obtain ⟨_, _, hassemble⟩ := p.networkOf_eq_ok_iff.1 h
  obtain ⟨-, -, -, -, _, _, -, -, rfl⟩ := Network.assemble_eq_ok_iff.1 hassemble
  exact ⟨rfl, fun htrack => if_pos htrack⟩

/-- What depends on literals, weight and hardness of the constraints can be read off the merged
ones. -/
theorem map_constraints_of_networkOf {β : Type} {space : AtomSpace} {merged : MergeTable α}
    {net : Network α} (h : p.networkOf space merged = .ok net) {f : Constraint α → β}
    {g : List Int × Merged α → β}
    (hfg : ∀ e ∈ (Table.toList merged).zipIdx, f ((numbered e).settled net.weightHard) = g e.1) :
    net.constraints.map f = (Table.toList merged).map g := by
  rw [(p.constraints_of_networkOf h).1, constraintsOf_eq, List.map_map, List.map_map]
  calc (Table.toList merged).zipIdx.map _
    _ = (Table.toList merged).zipIdx.map (g ∘ Prod.fst) := List.map_congr_left hfg
    _ = ((Table.toList merged).zipIdx.map Prod.fst).map g := by rw [List.map_map]
    _ = _ := by rw [List.zipIdx_map_fst]

/-- **Grounding succeeds when each of its parts does**, and the result is made of theirs. -/
theorem ground_eq_ok_iff {g : Grounding α} :
    p.ground = .ok g ↔
      (∀ s ∈ p.evidence.keys, s ∉ p.query ∧ s ∉ p.hidden) ∧
      AtomSpace.build p.schema p.domains p.query p.hidden = .ok g.space ∧
      ∃ progress, p.groundClauses g.space = .ok progress ∧
        p.networkOf g.space progress.merged = .ok g.network ∧
        g.groundings = progress.groundings ∧ g.dropped = progress.dropped ∧
        g.violations = progress.violations := by
  unfold ground
  cases hf : p.evidence.keys.find? fun s => p.query.contains s || p.hidden.contains s with
  | some s =>
    have hopen := List.find?_some hf
    have hs := List.mem_of_find?_eq_some hf
    simp only [Bool.or_eq_true, List.contains_iff_mem] at hopen
    constructor
    · intro h
      cases h
    · rintro ⟨hclosed, -⟩
      exact absurd (hclosed s hs) (by tauto)
  | none =>
    have hclosed : ∀ s ∈ p.evidence.keys, s ∉ p.query ∧ s ∉ p.hidden := by
      intro s hs
      have := List.find?_eq_none.1 hf s hs
      simpa only [Bool.or_eq_true, List.contains_iff_mem, not_or] using this
    obtain ⟨network, space, groundings, dropped, violations⟩ := g
    simp only [and_iff_right hclosed]
    rw [bind_eq_ok_iff]
    constructor
    · rintro ⟨space', hs, h⟩
      obtain ⟨progress, hp, h⟩ := bind_eq_ok_iff.1 h
      obtain ⟨network', hn, h⟩ := bind_eq_ok_iff.1 h
      cases h
      exact ⟨mapError_eq_ok_iff.1 hs, progress, hp, hn, rfl, rfl, rfl⟩
    · rintro ⟨hs, progress, hp, hn, rfl, rfl, rfl⟩
      exact ⟨space, mapError_eq_ok_iff.2 hs,
        bind_eq_ok_iff.2 ⟨progress, hp, bind_eq_ok_iff.2 ⟨network, hn, rfl⟩⟩⟩

/-- A grounding merges the contributions of all instances, makes the network of the result and
counts the instances. -/
theorem recorded_of_ground {g : Grounding α} (h : p.ground = .ok g) :
    ∃ ins merged, p.instances g.space = .ok ins ∧
      MergeTable.addAll Table.empty
        (ins.flatMap (Instance.contributions p.options.noNegativeWeights)) = .ok merged ∧
      p.networkOf g.space merged = .ok g.network ∧ g.groundings = ins.length ∧
      g.dropped = ins.countP Instance.isDropped ∧
      g.violations = ins.filterMap Instance.violation? := by
  obtain ⟨_, _, progress, hp, hn, hgroundings, hdropped, hviolations⟩ := p.ground_eq_ok_iff.1 h
  obtain ⟨ins, hi, hm, hlength, hcount, hviolated⟩ := p.groundClauses_eq_ok_iff.1 hp
  exact ⟨ins, progress.merged, hi, hm, hn, hgroundings.trans hlength, hdropped.trans hcount,
    hviolations.trans hviolated⟩

/-- The network of a grounding is that of the merged contributions of all instances. -/
theorem merged_of_ground {g : Grounding α} (h : p.ground = .ok g) :
    ∃ ins merged, p.instances g.space = .ok ins ∧
      MergeTable.addAll Table.empty
        (ins.flatMap (Instance.contributions p.options.noNegativeWeights)) = .ok merged ∧
      p.networkOf g.space merged = .ok g.network := by
  obtain ⟨ins, merged, hi, hm, hn, -⟩ := p.recorded_of_ground h
  exact ⟨ins, merged, hi, hm, hn⟩

/-- Parts that succeed make a grounding. -/
theorem exists_ground {space : AtomSpace} {ins : List (Instance α)} {merged : MergeTable α}
    {net : Network α} (hclosed : ∀ s ∈ p.evidence.keys, s ∉ p.query ∧ s ∉ p.hidden)
    (hb : AtomSpace.build p.schema p.domains p.query p.hidden = .ok space)
    (hi : p.instances space = .ok ins)
    (hm : MergeTable.addAll Table.empty
      (ins.flatMap (Instance.contributions p.options.noNegativeWeights)) = .ok merged)
    (hn : p.networkOf space merged = .ok net) :
    ∃ g, p.ground = .ok g ∧ g.space = space ∧ g.network = net := by
  let progress : Progress α := ⟨merged, ins.length, ins.countP Instance.isDropped,
    ins.filterMap Instance.violation?⟩
  have hp : p.groundClauses space = .ok progress :=
    p.groundClauses_eq_ok_iff.2 ⟨ins, hi, hm, rfl, rfl, rfl⟩
  refine ⟨⟨net, space, progress.groundings, progress.dropped, progress.violations⟩, ?_, rfl, rfl⟩
  exact p.ground_eq_ok_iff.2 ⟨hclosed, hb, progress, hp, hn, rfl, rfl, rfl⟩

end Problem

/-! ## A small problem -/

/-- Two persons, one of whom is known to smoke, and rules about friendship, which is open. -/
def Problem.friends (options : GroundingOptions Int) : Problem Int :=
  let x : Term := .var ⟨⟨"x", by decide⟩, some "person", by decide⟩
  let y : Term := .var ⟨⟨"y", by decide⟩, some "person", by decide⟩
  let friend (s t : Term) : Atom := ⟨⟨"Friends", by decide⟩, [s, t]⟩
  let smokes (s : Term) : Atom := ⟨⟨"Smokes", by decide⟩, [s]⟩
  { clauses := [
      ⟨[⟨friend x y, true⟩, ⟨friend y x, true⟩, ⟨smokes x, true⟩], some (-3), "", by simp⟩,
      ⟨[⟨friend x y, false⟩, ⟨friend y x, true⟩], none, "", by simp⟩,
      ⟨[⟨friend x y, true⟩, ⟨friend y x, true⟩], some 2, "", by simp⟩]
    schema := Table.ofList [(⟨"Friends", 2⟩, [some "person", some "person"])]
    domains := (DomainMap.ofDomains (Domains.ofList [(.text "person", ["Bob", "Anna"])])).domains
    query := [⟨"Friends", 2⟩]
    hidden := []
    evidence := Table.ofList [(⟨"Smokes", 1⟩, [["Anna"]])]
    options }

end MarkovLogic
