import MarkovLogic.Proofs.Grounding.HardWeight
import MarkovLogic.Proofs.Grounding.Coverage
import Mathlib.Data.List.FinRange
import Mathlib.Logic.Equiv.Fintype

/-!
# Clauses in another order

Moving the clauses of a problem to other places (`Problem.Moved`) moves its groundings along, so
that the same contributions are merged in another order and under other formula numbers
(`exists_instances_of_moved`). Merging adds up: hardness, frequencies and exact weights of a merged
constraint do not depend on that order (`Merged.Renumbered`). So the problems can be ground
together, and the networks differ by the numbers of their constraints and formulas
(`ground_permuted`).
-/

namespace MarkovLogic

variable {α : Type}

/-! ## Moving clauses -/

/-- The permutation of all numbers that moves those below `n` and fixes the others. -/
def renumbering {n : ℕ} (σ : Equiv.Perm (Fin n)) : Equiv.Perm ℕ :=
  σ.extendDomain Fin.equivSubtype

theorem renumbering_apply {n : ℕ} (σ : Equiv.Perm (Fin n)) (i : Fin n) :
    renumbering σ i = σ i :=
  Equiv.Perm.extendDomain_apply_image σ Fin.equivSubtype i

theorem renumbering_of_le {n : ℕ} (σ : Equiv.Perm (Fin n)) {i : ℕ} (h : n ≤ i) :
    renumbering σ i = i :=
  Equiv.Perm.extendDomain_apply_not_subtype σ Fin.equivSubtype (Nat.not_lt.2 h)

namespace Problem

/-- The problem with its clause `i` at place `σ i`. -/
def permuted (p : Problem α) (σ : Equiv.Perm (Fin p.clauses.length)) : Problem α :=
  { p with clauses := List.ofFn fun i => p.clauses[σ.symm i] }

/-- The second problem is the first with clause `i` at place `f i`. -/
structure Moved (f : Equiv.Perm ℕ) (p p' : Problem α) : Prop where
  clauses : ∀ i, p'.clauses[f i]? = p.clauses[i]?
  schema : p'.schema = p.schema
  domains : p'.domains = p.domains
  query : p'.query = p.query
  hidden : p'.hidden = p.hidden
  evidence : p'.evidence = p.evidence
  options : p'.options = p.options

theorem moved_permuted (p : Problem α) (σ : Equiv.Perm (Fin p.clauses.length)) :
    p.Moved (renumbering σ) (p.permuted σ) := by
  refine ⟨fun i => ?_, rfl, rfl, rfl, rfl, rfl, rfl⟩
  by_cases hi : i < p.clauses.length
  · rw [renumbering_apply σ ⟨i, hi⟩]
    simp [permuted, hi]
  · rw [renumbering_of_le σ (Nat.not_lt.1 hi), List.getElem?_eq_none (Nat.not_lt.1 hi)]
    simp [permuted, Nat.not_lt.1 hi]

namespace Moved

variable {f : Equiv.Perm ℕ} {p p' : Problem α} (h : Moved f p p')

include h

theorem symm : Moved f.symm p' p := by
  refine ⟨fun i => ?_, h.schema.symm, h.domains.symm, h.query.symm, h.hidden.symm,
    h.evidence.symm, h.options.symm⟩
  rw [← h.clauses, Equiv.apply_symm_apply]

/-- Clauses with their places, of which the second list is a permutation. -/
theorem zipIdx_perm :
    p'.clauses.zipIdx.Perm (p.clauses.zipIdx.map fun e => (e.1, f e.2)) := by
  have hn : (p.clauses.zipIdx.map fun e => (e.1, f e.2)).Nodup := by
    refine List.Nodup.of_map Prod.snd ?_
    rw [List.map_map]
    have hsnd := (List.nodup_zipIdx_map_snd p.clauses).map f.injective
    rwa [List.map_map] at hsnd
  have hn' : p'.clauses.zipIdx.Nodup :=
    List.Nodup.of_map Prod.snd (List.nodup_zipIdx_map_snd p'.clauses)
  refine (List.perm_ext_iff_of_nodup hn' hn).2 fun ⟨c, j⟩ => ?_
  rw [List.mem_zipIdx_iff_getElem?, ← f.apply_symm_apply j, h.clauses]
  constructor
  · intro hc
    exact List.mem_map.2 ⟨(c, f.symm j), List.mem_zipIdx_iff_getElem?.2 hc, rfl⟩
  · intro hc
    obtain ⟨⟨d, i⟩, hd, he⟩ := List.mem_map.1 hc
    obtain ⟨rfl, hi⟩ := Prod.mk.inj he
    rw [← f.injective hi]
    exact List.mem_zipIdx_iff_getElem?.1 hd

end Moved

end Problem

/-! ## Groundings of moved clauses -/

/-- The grounding with the number of its clause at the new place. -/
def Instance.moved (f : Equiv.Perm ℕ) (inst : Instance α) : Instance α :=
  { inst with formula := f inst.formula }

theorem Instance.contributions_moved [WeightArith α] (f : Equiv.Perm ℕ) (noNeg : Bool)
    (inst : Instance α) :
    (inst.moved f).contributions noNeg = (inst.contributions noNeg).map (Prod.map f id) := by
  unfold contributions moved
  cases inst.outcome with
  | kept literals => simp [Function.comp_def]
  | dropped => rfl
  | violated => rfl

namespace Problem

variable {f : Equiv.Perm ℕ} {p p' : Problem α} {space : AtomSpace}

theorem instancesOf_moved (h : Moved f p p') {entry : Clause α × ℕ} {own : List (Instance α)}
    (ho : p.instancesOf space entry = .ok own) :
    p'.instancesOf space (entry.1, f entry.2) = .ok (own.map (Instance.moved f)) := by
  rw [instancesOf_of_alike h.domains h.evidence rfl rfl (f entry.2) ho]
  refine congrArg Except.ok (List.map_congr_left fun inst hinst => ?_)
  obtain ⟨hclause, hformula, -⟩ := p.instance_of_mem ho hinst
  rw [Instance.moved, hclause, hformula]

/-- **Moved clauses have their groundings in another order.** -/
theorem exists_instances_of_moved (h : Moved f p p') {ins : List (Instance α)}
    (hi : p.instances space = .ok ins) :
    ∃ ins', p'.instances space = .ok ins' ∧ ins'.Perm (ins.map (Instance.moved f)) := by
  obtain ⟨groups, hg, hi⟩ := bind_eq_ok_iff.1 hi
  obtain rfl := Except.ok.inj hi
  have hmoved : List.Forall₂ (fun entry own => p'.instancesOf space entry = .ok own)
      (p.clauses.zipIdx.map fun e => (e.1, f e.2)) (groups.map (List.map (Instance.moved f))) := by
    rw [List.forall₂_map_left_iff, List.forall₂_map_right_iff]
    exact (mapM_eq_ok_iff.1 hg).imp fun _ _ ho => instancesOf_moved h ho
  obtain ⟨groups', hg', hperm⟩ := List.perm_comp_forall₂ h.zipIdx_perm hmoved
  refine ⟨groups'.flatten, bind_eq_ok_iff.2 ⟨groups', mapM_eq_ok_iff.2 hg', rfl⟩, ?_⟩
  rw [List.map_flatten]
  exact hperm.flatten

end Problem

/-! ## Merging in another order -/

section Merging

variable [WeightArith α] (f : Equiv.Perm ℕ)

/-- The merged constraints are hard together, and formula `i` of the first contributed as often as
formula `f i` of the second. -/
structure Merged.Renumbered (m m' : Merged α) : Prop where
  isHard : m'.isHard = m.isHard
  get?_sources : ∀ i, m'.sources.get? (f i) = m.sources.get? i

variable {f}

namespace Merged

/-- **The order of contributions to a constraint does not matter** to hardness and frequencies. -/
theorem renumbered_of_perm {entries entries' : List (ℕ × Contribution α)} {m m' : Merged α}
    (hp : entries'.Perm (entries.map (Prod.map f id)))
    (h : Merged.empty.addAll entries = .ok m) (h' : Merged.empty.addAll entries' = .ok m') :
    m.Renumbered f m' := by
  have hfrequency : ∀ i, m'.frequency (f i) = m.frequency i := by
    intro i
    have hfilter : (entries.map (Prod.map f id)).filter (fun e => e.1 = f i) =
        (entries.filter fun e => e.1 = i).map (Prod.map f id) := by
      rw [List.filter_map]
      simp [Function.comp_def]
    rw [frequency_addAll (f i) h', frequency_addAll i h,
      ((hp.filter _).map _).sum_eq, hfilter, List.map_map]
    rfl
  constructor
  · rw [isHard_addAll h', isHard_addAll h, hp.any_eq, List.any_map]
    rfl
  · intro i
    rw [get?_sources_addAll h', get?_sources_addAll h, hfrequency]

end Merged

namespace MergeTable

variable {entries entries' : List (ℕ × Contribution α)} {merged merged' : MergeTable α}
  (hp : entries'.Perm (entries.map (Prod.map f id)))
  (h : MergeTable.addAll Table.empty entries = .ok merged)
  (h' : MergeTable.addAll Table.empty entries' = .ok merged')

include hp

omit [WeightArith α] in
theorem filter_perm (literals : List Int) :
    (entries'.filter fun e => e.2.literals = literals).Perm
      ((entries.filter fun e => e.2.literals = literals).map (Prod.map f id)) := by
  have hfilter := hp.filter fun e => e.2.literals = literals
  rwa [List.filter_map] at hfilter

include h h'

theorem mem_keys_iff_of_perm {literals : List Int} :
    literals ∈ Table.keys merged' ↔ literals ∈ Table.keys merged := by
  rw [mem_keys_addAll h', mem_keys_addAll h]
  simp only [hp.mem_iff, List.mem_map, exists_exists_and_eq_and, Prod.map_snd, id]

theorem renumbered_of_mem {literals : List Int} {m m' : Merged α}
    (hm : (literals, m) ∈ Table.toList merged) (hm' : (literals, m') ∈ Table.toList merged') :
    m.Renumbered f m' :=
  Merged.renumbered_of_perm (filter_perm hp literals) (addAll_of_mem h hm) (addAll_of_mem h' hm')

end MergeTable

end Merging

/-! ## Exact weights in another order -/

section Exact

variable {R : Type} [CommRing R] [LinearOrder R] {f : Equiv.Perm ℕ}

theorem Merged.weight_of_perm {entries entries' : List (ℕ × Contribution R)} {m m' : Merged R}
    (hp : entries'.Perm (entries.map (Prod.map f id)))
    (h : Merged.empty.addAll entries = .ok m) (h' : Merged.empty.addAll entries' = .ok m') :
    m'.weight = m.weight := by
  rw [weight_addAll_exact h', weight_addAll_exact h, (hp.map _).sum_eq, List.map_map]
  rfl

variable {entries entries' : List (ℕ × Contribution R)} {merged merged' : MergeTable R}
  (hp : entries'.Perm (entries.map (Prod.map f id)))
  (h : MergeTable.addAll Table.empty entries = .ok merged)
  (h' : MergeTable.addAll Table.empty entries' = .ok merged')

include hp h h'

namespace MergeTable

theorem weight_of_mem {literals : List Int} {m m' : Merged R}
    (hm : (literals, m) ∈ Table.toList merged) (hm' : (literals, m') ∈ Table.toList merged') :
    m'.weight = m.weight :=
  Merged.weight_of_perm (filter_perm hp literals) (addAll_of_mem h hm) (addAll_of_mem h' hm')

/-- Hardness and weight belong to the literals, whatever the order. -/
theorem rows_perm :
    ((Table.values merged').map fun m => (m.isHard, m.weight)).Perm
      ((Table.values merged).map fun m => (m.isHard, m.weight)) := by
  have hget : ∀ literals,
      (Table.mapWithKey (fun _ m => (m.isHard, m.weight)) merged').get? literals =
        (Table.mapWithKey (fun _ m => (m.isHard, m.weight)) merged).get? literals := by
    intro literals
    rw [Table.get?_mapWithKey, Table.get?_mapWithKey]
    have hkeys : literals ∈ Table.keys merged' ↔ literals ∈ Table.keys merged :=
      mem_keys_iff_of_perm hp h h'
    cases hm : Table.get? merged literals with
    | none =>
      rw [Table.get?_eq_none_iff] at hm
      rw [(Table.get?_eq_none_iff _).2 fun hm' => hm (hkeys.1 hm')]
    | some m =>
      obtain ⟨m', hm'⟩ := (Table.mem_keys_iff _).1 (hkeys.2 ((Table.mem_keys_iff _).2 ⟨m, hm⟩))
      rw [hm']
      rw [Table.get?_eq_some_iff] at hm hm'
      simp only [Option.map_some, (renumbered_of_mem hp h h' hm hm').isHard,
        weight_of_mem hp h h' hm hm']
  have hperm := (Table.perm_of_get? hget).map Prod.snd
  simpa [Table.values, Table.mapWithKey, Function.comp_def] using hperm

theorem defaultHardWeight_of_perm : defaultHardWeight merged' = defaultHardWeight merged := by
  have hsum : ∀ table : MergeTable R,
      ((Table.values table).filter fun m => !m.isHard).map (fun m => |m.weight|) =
        (((Table.values table).map fun m => (m.isHard, m.weight)).filter fun row => !row.1).map
          fun row => |row.2| := by
    intro table
    rw [List.filter_map, List.map_map]
    rfl
  rw [defaultHardWeight_eq, defaultHardWeight_eq, hsum, hsum,
    (((rows_perm hp h h').filter _).map _).sum_eq]

end MergeTable

end Exact

/-! ## Networks -/

/-- The groundings agree up to the numbers of constraints and formulas, where formula `i` of the
first is formula `f i` of the second. -/
structure Grounding.Renumbered (f : Equiv.Perm ℕ) (g g' : Grounding α) : Prop where
  space : g'.space = g.space
  atoms : g'.network.atoms = g.network.atoms
  groundings : g'.groundings = g.groundings
  dropped : g'.dropped = g.dropped
  literals : ∀ literals, (∃ c ∈ g'.network.constraints, c.literals = literals) ↔
    ∃ c ∈ g.network.constraints, c.literals = literals
  isHard : ∀ c ∈ g.network.constraints, ∀ c' ∈ g'.network.constraints,
    c'.literals = c.literals → c'.isHard = c.isHard
  frequencies : ∃ deps deps', g.network.dependencies = some deps ∧
    g'.network.dependencies = some deps' ∧
    ∀ c ∈ g.network.constraints, ∀ c' ∈ g'.network.constraints, c'.literals = c.literals →
      ∃ frequencies frequencies', deps.entry? c.id = some frequencies ∧
        deps'.entry? c'.id = some frequencies' ∧
        ∀ i, frequencies'.get? (f i) = frequencies.get? i

/-- Hard constraints have the same weight in both networks, and so have constraints with the same
literals. -/
structure Grounding.SameWeights (g g' : Grounding α) : Prop where
  weightHard : g'.network.weightHard = g.network.weightHard
  weight : ∀ c ∈ g.network.constraints, ∀ c' ∈ g'.network.constraints,
    c'.literals = c.literals → c'.weight = c.weight

namespace Problem

section Parts

/-- Constraints with the same literals have the same atoms. -/
theorem atomsOf_eq_of_literals {constraints constraints' : List (Constraint α)}
    (h : ∀ literals, literals ∈ constraints'.map (·.literals) ↔
      literals ∈ constraints.map (·.literals)) :
    atomsOf constraints' = atomsOf constraints := by
  have hmem : ∀ (cs : List (Constraint α)) (id : Int), id ∈ (atomsOf cs).map (·.id) ↔
      ∃ literals ∈ cs.map (·.literals), ∃ x ∈ literals, id = x.natAbs := by
    intro cs id
    rw [mem_atomsOf_iff]
    simp
  have hids : (atomsOf constraints').map (·.id) = (atomsOf constraints).map (·.id) := by
    refine (atomsOf_ascending _).eq_of_mem_iff (atomsOf_ascending _) fun id => ?_
    rw [hmem, hmem]
    simp only [h]
  rw [map_id_atomsOf, map_id_atomsOf] at hids
  exact congrArg (List.map fun id => GroundAtom.mk id false) hids

variable [WeightArith α] {f : Equiv.Perm ℕ} {p p' : Problem α}

theorem map_literals_of_networkOf {space : AtomSpace} {merged : MergeTable α} {net : Network α}
    (hn : p.networkOf space merged = .ok net) :
    net.constraints.map (·.literals) = Table.keys merged :=
  p.map_constraints_of_networkOf hn fun _ _ => Constraint.settled_literals ..

theorem atoms_of_networkOf {space : AtomSpace} {merged : MergeTable α} {net : Network α}
    (hn : p.networkOf space merged = .ok net) : net.atoms = atomsOf (constraintsOf merged) := by
  obtain ⟨_, _, hassemble⟩ := p.networkOf_eq_ok_iff.1 hn
  obtain ⟨-, -, -, -, _, _, -, -, rfl⟩ := Network.assemble_eq_ok_iff.1 hassemble
  rfl

/-- Groundings in another order contribute the same in another order. -/
theorem contributions_perm (noNeg : Bool) {ins ins' : List (Instance α)}
    (hperm : ins'.Perm (ins.map (Instance.moved f))) :
    (ins'.flatMap (Instance.contributions noNeg)).Perm
      ((ins.flatMap (Instance.contributions noNeg)).map (Prod.map f id)) := by
  rw [List.map_flatMap]
  refine (hperm.flatMap_right _).trans ?_
  rw [List.flatMap_map]
  simp only [Instance.contributions_moved]
  exact List.Perm.refl _

/-- Evidence and atom space are no obstacle to the second problem if they are none to the first. -/
theorem closed_and_built_of_moved (h : Moved f p p') {g : Grounding α} (hg : p.ground = .ok g) :
    (∀ s ∈ p'.evidence.keys, s ∉ p'.query ∧ s ∉ p'.hidden) ∧
      AtomSpace.build p'.schema p'.domains p'.query p'.hidden = .ok g.space := by
  obtain ⟨hclosed, hb, -⟩ := p.ground_eq_ok_iff.1 hg
  rw [h.schema, h.domains, h.query, h.hidden, h.evidence]
  exact ⟨hclosed, hb⟩

/-- What two groundings with moved clauses have in common, and what they merge. -/
theorem exists_merged_of_moved (h : Moved f p p') {g g' : Grounding α} (hg : p.ground = .ok g)
    (hg' : p'.ground = .ok g') :
    g'.space = g.space ∧ g'.groundings = g.groundings ∧ g'.dropped = g.dropped ∧
    ∃ entries entries' merged merged', entries'.Perm (entries.map (Prod.map f id)) ∧
      MergeTable.addAll Table.empty entries = .ok merged ∧
      MergeTable.addAll Table.empty entries' = .ok merged' ∧
      p.networkOf g.space merged = .ok g.network ∧
      p'.networkOf g.space merged' = .ok g'.network := by
  obtain ⟨-, hb⟩ := closed_and_built_of_moved h hg
  obtain ⟨-, hb', -⟩ := p'.ground_eq_ok_iff.1 hg'
  have hspace : g'.space = g.space := Except.ok.inj (hb'.symm.trans hb)
  obtain ⟨ins, merged, hi, hm, hn, hlength, hcount, -⟩ := p.recorded_of_ground hg
  obtain ⟨ins', merged', hi', hm', hn', hlength', hcount', -⟩ := p'.recorded_of_ground hg'
  rw [hspace] at hi' hn'
  obtain ⟨moved, hmoved, hperm⟩ := exists_instances_of_moved h hi
  obtain rfl : ins' = moved := Except.ok.inj (hi'.symm.trans hmoved)
  refine ⟨hspace, ?_, ?_, _, _, merged, merged', ?_, hm, hm', hn, hn'⟩
  · rw [hlength', hlength, hperm.length_eq, List.length_map]
  · rw [hcount', hcount, hperm.countP_eq, List.countP_map]
    rfl
  · rw [h.options]
    exact contributions_perm _ hperm

theorem renumbered_of_moved (h : Moved f p p') (htrack : p.options.trackDependencies = true)
    {g g' : Grounding α} (hg : p.ground = .ok g) (hg' : p'.ground = .ok g') :
    g.Renumbered f g' := by
  obtain ⟨hspace, hgroundings, hdropped, entries, entries', merged, merged', hperm, hm, hm', hn,
    hn'⟩ := exists_merged_of_moved h hg hg'
  have hkeys : ∀ literals, literals ∈ Table.keys merged' ↔ literals ∈ Table.keys merged :=
    fun literals => MergeTable.mem_keys_iff_of_perm hperm hm hm'
  have htrack' : p'.options.trackDependencies = true := h.options ▸ htrack
  refine ⟨hspace, ?_, hgroundings, hdropped, fun literals => ?_, fun c hc c' hc' hl => ?_,
    _, _, (p.constraints_of_networkOf hn).2 htrack, (p'.constraints_of_networkOf hn').2 htrack',
    fun c hc c' hc' hl => ?_⟩
  · rw [atoms_of_networkOf hn, atoms_of_networkOf hn']
    refine atomsOf_eq_of_literals fun literals => ?_
    rw [map_literals_constraintsOf, map_literals_constraintsOf]
    exact hkeys literals
  · rw [← List.mem_map, ← List.mem_map, map_literals_of_networkOf hn,
      map_literals_of_networkOf hn']
    exact hkeys literals
  · obtain ⟨m, k, hmem, -, hhard, -⟩ := exists_merged_of_networkOf hn hc
    obtain ⟨m', k', hmem', -, hhard', -⟩ := exists_merged_of_networkOf hn' hc'
    rw [hl] at hmem'
    rw [hhard', hhard]
    exact (MergeTable.renumbered_of_mem hperm hm hm' (List.fst_mem_of_mem_zipIdx hmem)
      (List.fst_mem_of_mem_zipIdx hmem')).isHard
  · obtain ⟨m, k, hmem, hid, -⟩ := exists_merged_of_networkOf hn hc
    obtain ⟨m', k', hmem', hid', -⟩ := exists_merged_of_networkOf hn' hc'
    rw [hl] at hmem'
    rw [hid, hid']
    exact ⟨m.sources, m'.sources, entry?_dependenciesOf hmem, entry?_dependenciesOf hmem',
      (MergeTable.renumbered_of_mem hperm hm hm' (List.fst_mem_of_mem_zipIdx hmem)
        (List.fst_mem_of_mem_zipIdx hmem')).get?_sources⟩

end Parts

section Exact

variable {R : Type} [CommRing R] [LinearOrder R] {f : Equiv.Perm ℕ} {p p' : Problem R}

theorem sameWeights_of_moved (h : Moved f p p') {g g' : Grounding R} (hg : p.ground = .ok g)
    (hg' : p'.ground = .ok g') : g.SameWeights g' := by
  obtain ⟨-, -, -, entries, entries', merged, merged', hperm, hm, hm', hn, hn'⟩ :=
    exists_merged_of_moved h hg hg'
  have hweightHard : g'.network.weightHard = g.network.weightHard := by
    have hhard := hardWeight_of_networkOf hn
    have hhard' := hardWeight_of_networkOf hn'
    unfold hardWeight at hhard hhard'
    rw [h.options, MergeTable.defaultHardWeight_of_perm hperm hm hm', hhard] at hhard'
    exact (Except.ok.inj hhard').symm
  refine ⟨hweightHard, fun c hc c' hc' hl => ?_⟩
  obtain ⟨m, k, hmem, -, -, hweight⟩ := exists_merged_of_networkOf hn hc
  obtain ⟨m', k', hmem', -, -, hweight'⟩ := exists_merged_of_networkOf hn' hc'
  rw [hl] at hmem'
  have hm₁ := List.fst_mem_of_mem_zipIdx hmem
  have hm₂ := List.fst_mem_of_mem_zipIdx hmem'
  rw [hweight', hweight, hweightHard, (MergeTable.renumbered_of_mem hperm hm hm' hm₁ hm₂).isHard,
    MergeTable.weight_of_mem hperm hm hm' hm₁ hm₂]

theorem exists_ground_of_moved_exact (h : Moved f p p') {g : Grounding R}
    (hg : p.ground = .ok g) : ∃ g', p'.ground = .ok g' := by
  obtain ⟨hclosed, hb⟩ := closed_and_built_of_moved h hg
  obtain ⟨ins, _, hi, -⟩ := p.merged_of_ground hg
  obtain ⟨ins', hi', -⟩ := exists_instances_of_moved h hi
  obtain ⟨g', hg', -⟩ := exists_ground_of_exact_instances hclosed hb hi'
  exact ⟨g', hg'⟩

end Exact

section Floats

variable {f : Equiv.Perm ℕ} {p p' : Problem Number}

theorem exists_ground_of_moved_real (h : Moved f p p') {g : Grounding Number}
    (hg : p.ground = .ok g) : ∃ g', p'.ground = .ok g' := by
  obtain ⟨hclosed, hb⟩ := closed_and_built_of_moved h hg
  obtain ⟨ins, _, hi, hm, hn⟩ := p.merged_of_ground hg
  obtain ⟨ins', hi', hperm⟩ := exists_instances_of_moved h hi
  have hreal : ∀ e ∈ ins'.flatMap (Instance.contributions p'.options.noNegativeWeights),
      ∀ w, e.2.weight = some w → ∃ x, w.toReal = .ok x := by
    intro e he w hw
    rw [h.options, (contributions_perm _ hperm).mem_iff] at he
    obtain ⟨d, hd, rfl⟩ := List.mem_map.1 he
    exact exists_toReal_of_addAll hm hd hw
  obtain ⟨g', hg', -⟩ := exists_ground_of_instances hclosed hb hi' hreal fun w hw =>
    exists_toReal_of_networkOf hn (h.options ▸ hw)
  exact ⟨g', hg'⟩

end Floats

/-- **The order of the clauses only renames.** Problems with the same clauses in another order can
be ground together. If dependencies are recorded, the results agree up to the numbers of constraints
and of formulas, and over exact weights in all weights, the default hard weight included. -/
theorem ground_permuted :
    (∀ (p : Problem Number) (σ : Equiv.Perm (Fin p.clauses.length)),
      ((∃ g, p.ground = .ok g) ↔ ∃ g', (p.permuted σ).ground = .ok g') ∧
      (p.options.trackDependencies = true → ∀ g g', p.ground = .ok g →
        (p.permuted σ).ground = .ok g' → g.Renumbered (renumbering σ) g')) ∧
    ∀ (R : Type) [CommRing R] [LinearOrder R] (p : Problem R)
      (σ : Equiv.Perm (Fin p.clauses.length)),
      ((∃ g, p.ground = .ok g) ↔ ∃ g', (p.permuted σ).ground = .ok g') ∧
      (p.options.trackDependencies = true → ∀ g g', p.ground = .ok g →
        (p.permuted σ).ground = .ok g' → g.Renumbered (renumbering σ) g' ∧ g.SameWeights g') := by
  constructor
  · intro p σ
    have hmoved := p.moved_permuted σ
    refine ⟨⟨fun ⟨g, hg⟩ => exists_ground_of_moved_real hmoved hg,
      fun ⟨g', hg'⟩ => exists_ground_of_moved_real hmoved.symm hg'⟩, ?_⟩
    intro htrack g g' hg hg'
    exact renumbered_of_moved hmoved htrack hg hg'
  · intro R _ _ p σ
    have hmoved := p.moved_permuted σ
    refine ⟨⟨fun ⟨g, hg⟩ => exists_ground_of_moved_exact hmoved hg,
      fun ⟨g', hg'⟩ => exists_ground_of_moved_exact hmoved.symm hg'⟩, ?_⟩
    intro htrack g g' hg hg'
    exact ⟨renumbered_of_moved hmoved htrack hg hg', sameWeights_of_moved hmoved hg hg'⟩

/-- The rules about friends in reverse order make the same constraints in another order. -/
theorem ground_permuted_reversed :
    (∃ g g', opposed.ground = .ok g ∧ (opposed.permuted Fin.revPerm).ground = .ok g' ∧
      opposed.options.trackDependencies = true ∧
      g.Renumbered (renumbering (Fin.revPerm : Equiv.Perm (Fin 3))) g') ∧
    ∃ g g', (friends { trackDependencies := true, noNegativeWeights := true }).ground = .ok g ∧
      ((friends { trackDependencies := true, noNegativeWeights := true }).permuted
        Fin.revPerm).ground = .ok g' ∧
      g.network.constraints.map (·.literals) =
        [[-2], [-3], [-4], [-2, 3], [2, -3], [1], [2, 3], [4]] ∧
      g'.network.constraints.map (·.literals) =
        [[1], [2, 3], [4], [-2, 3], [2, -3], [-2], [-3], [-4]] ∧
      g.Renumbered (renumbering (Fin.revPerm : Equiv.Perm (Fin 3))) g' ∧ g.SameWeights g' := by
  constructor
  · obtain ⟨hground, hagree⟩ := ground_permuted.1 opposed Fin.revPerm
    obtain ⟨g, hg⟩ := exists_ground_opposed
    obtain ⟨g', hg'⟩ := hground.1 ⟨g, hg⟩
    exact ⟨g, g', hg, hg', rfl, hagree rfl g g' hg hg'⟩
  · have hshape : (friends { trackDependencies := true, noNegativeWeights := true }).ground.map
        (fun g => g.network.constraints.map (·.literals)) =
          .ok [[-2], [-3], [-4], [-2, 3], [2, -3], [1], [2, 3], [4]] := by cbv
    have hshape' : ((friends { trackDependencies := true, noNegativeWeights := true }).permuted
        Fin.revPerm).ground.map (fun g => g.network.constraints.map (·.literals)) =
          .ok [[1], [2, 3], [4], [-2, 3], [2, -3], [-2], [-3], [-4]] := by cbv
    obtain ⟨g, hg, hliterals⟩ := map_eq_ok_iff.1 hshape
    obtain ⟨g', hg', hliterals'⟩ := map_eq_ok_iff.1 hshape'
    obtain ⟨-, hagree⟩ := ground_permuted.2 Int
      (friends { trackDependencies := true, noNegativeWeights := true }) Fin.revPerm
    exact ⟨g, g', hg, hg', hliterals, hliterals', hagree rfl g g' hg hg'⟩

end Problem

end MarkovLogic
