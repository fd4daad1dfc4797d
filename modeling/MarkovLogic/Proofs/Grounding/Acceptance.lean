import MarkovLogic.Proofs.Grounding.Contributions
import MarkovLogic.Proofs.Grounding.Outcome
import MarkovLogic.Proofs.Network.Occurrences

/-!
# Merged constraints make a network

Assembly accepts the constraints and atoms of every merge table whose literals are non-empty and
mention no atom 0 (`exists_networkOf`), and the network is in normal form (`normal_of_networkOf`).
The hard weight is no obstacle: merged weights are floating-point values, so the default one
always exists (`exists_defaultHardWeight`). So a problem all of whose groundings can be simplified
to weights that convert can be ground (`exists_ground_of_instances`).
-/

namespace MarkovLogic

/-- Constraints numbered from 0, each with ascending literals over atoms from 1 to `size` that no
other one has, and exactly the atoms that they mention. -/
structure Network.Normal {α : Type} (net : Network α) (size : Nat) : Prop where
  ids : net.constraints.map (·.id) = (List.range net.constraints.length).map Int.ofNat
  literals_ne_nil : ∀ c ∈ net.constraints, c.literals ≠ []
  ascending : ∀ c ∈ net.constraints, c.literals.Pairwise fun x y => x.natAbs < y.natAbs
  nodup : ∀ c ∈ net.constraints, c.literals.Nodup
  consistent : ∀ c ∈ net.constraints, ∀ x ∈ c.literals, -x ∉ c.literals
  range : ∀ c ∈ net.constraints, ∀ x ∈ c.literals, 1 ≤ x.natAbs ∧ x.natAbs ≤ size
  distinct : (net.constraints.map (·.literals)).Nodup
  atoms_ascending : (net.atoms.map (·.id)).Pairwise (· < ·)
  mem_atoms_iff : ∀ id : Int, id ∈ net.atoms.map (·.id) ↔
    ∃ c ∈ net.constraints, ∃ x ∈ c.literals, id = x.natAbs

namespace Problem

section Parts

variable {α : Type}

theorem map_id_constraintsOf (merged : MergeTable α) : (constraintsOf merged).map (·.id) =
    (List.range (constraintsOf merged).length).map Int.ofNat := by
  rw [constraintsOf_eq, List.map_map, List.length_map, List.length_zipIdx, List.range_eq_range',
    ← List.zipIdx_map_snd, List.map_map]
  rfl

theorem map_literals_constraintsOf (merged : MergeTable α) :
    (constraintsOf merged).map (·.literals) = Table.keys merged := by
  rw [constraintsOf_eq, List.map_map, Table.keys]
  have hfst := List.zipIdx_map_fst 0 (Table.toList merged)
  have h := congrArg (List.map Prod.fst) hfst
  rw [List.map_map] at h
  exact h

theorem map_id_atomsOf (constraints : List (Constraint α)) : (atomsOf constraints).map (·.id) =
    (constraints.flatMap fun c => c.literals.map fun l => (l.natAbs : Int)).eraseDups.mergeSort
      fun a b => a ≤ b := by
  simp [atomsOf, Function.comp_def]

theorem mem_atomsOf_iff {constraints : List (Constraint α)} {id : Int} :
    id ∈ (atomsOf constraints).map (·.id) ↔
      ∃ c ∈ constraints, ∃ x ∈ c.literals, id = x.natAbs := by
  rw [map_id_atomsOf, List.mem_mergeSort, List.mem_eraseDups]
  simp [eq_comm]

theorem atomsOf_ascending (constraints : List (Constraint α)) :
    ((atomsOf constraints).map (·.id)).Pairwise (· < ·) := by
  rw [map_id_atomsOf]
  generalize (constraints.flatMap fun c => c.literals.map fun l => (l.natAbs : Int)) = ids
  have h := ascending_mergeSort id (List.map_id ids.eraseDups ▸ nodup_eraseDups ids)
  rwa [List.map_id] at h

variable [WeightArith α] {p : Problem α} {space : AtomSpace} {merged : MergeTable α}

/-- **Merged constraints make a network.** -/
theorem exists_networkOf (hne : ∀ literals ∈ Table.keys merged, literals ≠ [])
    (hpos : ∀ literals ∈ Table.keys merged, ∀ x ∈ literals, 1 ≤ x.natAbs) {w w' : α}
    (hw : p.hardWeight merged = .ok w) (hs : WeightArith.settle w = .ok w') :
    ∃ net, p.networkOf space merged = .ok net := by
  have hliterals : ∀ c ∈ constraintsOf merged, c.literals ∈ Table.keys merged := by
    intro c hc
    rw [← map_literals_constraintsOf]
    exact List.mem_map_of_mem hc
  have hadmissible : Network.Admissible (constraintsOf merged) (atomsOf (constraintsOf merged)) 1
      space.queryEnd := by
    refine ⟨by omega, ?_, ?_, nodup_map_id_constraintsOf merged, ?_, ?_, ?_⟩
    · exact (atomsOf_ascending _).imp fun hlt => Int.ne_of_lt hlt
    · intro a ha
      obtain ⟨c, hc, x, hx, he⟩ := mem_atomsOf_iff.1 (List.mem_map_of_mem (f := (·.id)) ha)
      have := hpos _ (hliterals c hc) x hx
      omega
    · intro c hc
      obtain ⟨e, _, rfl⟩ := List.mem_map.1 (constraintsOf_eq merged ▸ hc)
      simp only [numbered]
      omega
    · intro c hc
      exact hne _ (hliterals c hc)
    · intro c hc x hx
      have hm : (x.natAbs : Int) ∈ (atomsOf (constraintsOf merged)).map (·.id) :=
        mem_atomsOf_iff.2 ⟨c, hc, x, hx, rfl⟩
      obtain ⟨a, ha, he⟩ := List.mem_map.1 hm
      exact ⟨a, ha, he⟩
  exact ⟨_, p.networkOf_eq_ok_iff.2 ⟨w, hw,
    Network.assemble_eq_ok_iff_admissible.2 ⟨hadmissible, w', hs, rfl⟩⟩⟩

/-- Every constraint is a merged one with its number. -/
theorem exists_merged_of_networkOf {net : Network α} (hn : p.networkOf space merged = .ok net)
    {c : Constraint α} (hc : c ∈ net.constraints) :
    ∃ m k, ((c.literals, m), k) ∈ (Table.toList merged).zipIdx ∧ c.id = k ∧
      c.isHard = m.isHard ∧ c.weight = if m.isHard then net.weightHard else m.weight := by
  rw [(p.constraints_of_networkOf hn).1] at hc
  obtain ⟨d, hd, rfl⟩ := List.mem_map.1 hc
  obtain ⟨⟨⟨literals, m⟩, k⟩, he, rfl⟩ := List.mem_map.1 (constraintsOf_eq merged ▸ hd)
  refine ⟨m, k, ?_, ?_, ?_, ?_⟩
  · rw [Constraint.settled_literals]
    exact he
  · apply Constraint.settled_id
  · apply Constraint.settled_isHard
  · unfold Constraint.settled numbered
    by_cases hh : m.isHard = true
    · simp [hh]
    · simp [hh]

/-- **The network of merged constraints is in normal form.** -/
theorem normal_of_networkOf {net : Network α} (hn : p.networkOf space merged = .ok net) {size : Nat}
    (hne : ∀ literals ∈ Table.keys merged, literals ≠ [])
    (hasc : ∀ literals ∈ Table.keys merged, Ascending literals)
    (hrange : ∀ literals ∈ Table.keys merged, ∀ x ∈ literals, 1 ≤ x.natAbs ∧ x.natAbs ≤ size) :
    net.Normal size := by
  obtain ⟨_, _, hassemble⟩ := p.networkOf_eq_ok_iff.1 hn
  obtain ⟨-, -, -, -, w, _, -, -, rfl⟩ := Network.assemble_eq_ok_iff.1 hassemble
  have hkeys : ((constraintsOf merged).map (Constraint.settled w)).map (·.literals) =
      Table.keys merged := by
    rw [List.map_map, ← map_literals_constraintsOf]
    simp [Function.comp_def]
  have hmem : ∀ c ∈ (constraintsOf merged).map (Constraint.settled w),
      c.literals ∈ Table.keys merged := by
    intro c hc
    rw [← hkeys]
    exact List.mem_map_of_mem hc
  refine ⟨?_, fun c hc => hne _ (hmem c hc), fun c hc => hasc _ (hmem c hc),
    fun c hc => (hasc _ (hmem c hc)).nodup, ?_, fun c hc => hrange _ (hmem c hc), ?_,
    atomsOf_ascending _, ?_⟩
  · simpa [Function.comp_def] using map_id_constraintsOf merged
  · intro c hc x hx
    have := hrange _ (hmem c hc) x hx
    exact (hasc _ (hmem c hc)).neg_notMem hx (by omega)
  · simp only [hkeys]
    exact Table.nodup merged
  · intro id
    simp [mem_atomsOf_iff]

end Parts

/-! ## Floating-point weights -/

section Floats

theorem weight_add_real {m m' : Merged Number} {formula : Nat} {c : Contribution Number}
    (hm : ∃ x, m.weight = .real x) (h : m.add formula c = .ok m') :
    ∃ x, m'.weight = .real x := by
  obtain ⟨x, hx⟩ := hm
  obtain ⟨-, -, hw⟩ := Merged.add_eq_ok_iff.1 h
  cases hc : c.weight with
  | none =>
    simp only [hc] at hw
    exact ⟨x, hw.trans hx⟩
  | some w =>
    simp only [hc, hx] at hw
    obtain ⟨y, -, hw⟩ := bind_eq_ok_iff.1 hw
    exact ⟨_, (Except.ok.inj hw).symm⟩

/-- Merged weights are floating-point values. -/
theorem weight_addAll_real {entries : List (Nat × Contribution Number)} {m : Merged Number}
    (h : Merged.empty.addAll entries = .ok m) : ∃ x, m.weight = .real x := by
  refine foldlM_invariant (P := fun m : Merged Number => ∃ x, m.weight = .real x) _ ?_ entries
    ⟨_, rfl⟩ h
  intro m e m' hm hadd
  exact weight_add_real hm hadd

/-- **Merging weights that convert never fails.** -/
theorem exists_addAll_real {entries : List (Nat × Contribution Number)}
    (h : ∀ e ∈ entries, ∀ w, e.2.weight = some w → ∃ x, w.toReal = .ok x) :
    ∃ table, MergeTable.addAll Table.empty entries = .ok table := by
  induction entries using List.reverseRecOn with
  | nil => exact ⟨_, rfl⟩
  | append_singleton entries e ih =>
    rw [List.forall_mem_append] at h
    obtain ⟨table, ht⟩ := ih h.1
    obtain ⟨x, hx⟩ := weight_addAll_real (MergeTable.get?_addAll e.2.literals ht)
    obtain ⟨m, hm⟩ : ∃ m, ((Table.get? table e.2.literals).getD .empty).add e.1 e.2 = .ok m := by
      unfold Merged.add
      cases hw : e.2.weight with
      | none => exact ⟨_, rfl⟩
      | some w =>
        obtain ⟨y, hy⟩ := h.2 e (List.mem_singleton_self e) w hw
        have hadd : WeightArith.add (Number.real x) w = .ok (.real (x + y)) := by
          change (Number.toReal w >>= fun y => pure (Number.real (x + y))) = _
          rw [hy]
          rfl
        exact ⟨_, bind_eq_ok_iff.2 ⟨_, hx ▸ hadd, rfl⟩⟩
    refine ⟨Table.insert table e.2.literals m, MergeTable.addAll_append_eq_ok_iff.2 ⟨table, ht, ?_⟩⟩
    exact MergeTable.addAll_cons_eq_ok_iff.2 ⟨_, MergeTable.add_eq_ok_iff.2 ⟨m, hm, rfl⟩, rfl⟩

/-- The weights of contributions that were merged convert. -/
theorem exists_toReal_of_addAll {entries : List (Nat × Contribution Number)}
    {merged : MergeTable Number} (h : MergeTable.addAll Table.empty entries = .ok merged)
    {e : Nat × Contribution Number} (he : e ∈ entries) {w : Number} (hw : e.2.weight = some w) :
    ∃ x, w.toReal = .ok x := by
  obtain ⟨before, after, rfl⟩ := List.mem_iff_append.1 he
  obtain ⟨mid, hmid, h⟩ := MergeTable.addAll_append_eq_ok_iff.1 h
  obtain ⟨_, hadd, -⟩ := MergeTable.addAll_cons_eq_ok_iff.1 h
  obtain ⟨m, hm, -⟩ := MergeTable.add_eq_ok_iff.1 hadd
  obtain ⟨-, -, hweight⟩ := Merged.add_eq_ok_iff.1 hm
  obtain ⟨x, hx⟩ := weight_addAll_real (MergeTable.get?_addAll e.2.literals hmid)
  simp only [hw, hx] at hweight
  obtain ⟨y, hy, -⟩ := bind_eq_ok_iff.1 hweight
  exact ⟨y, hy⟩

/-- A given hard weight with which a network was made converts. -/
theorem exists_toReal_of_networkOf {p : Problem Number} {space : AtomSpace}
    {merged : MergeTable Number} {net : Network Number} (hn : p.networkOf space merged = .ok net)
    {w : Number} (hw : p.options.weightHard = some w) : ∃ x, w.toReal = .ok x := by
  obtain ⟨_, hhard, hassemble⟩ := p.networkOf_eq_ok_iff.1 hn
  obtain ⟨-, -, -, -, _, _, hsettle, -⟩ := Network.assemble_eq_ok_iff.1 hassemble
  rw [hardWeight, hw] at hhard
  obtain rfl := Except.ok.inj hhard
  obtain ⟨x, hx, -⟩ := map_eq_ok_iff.1 hsettle
  exact ⟨x, hx⟩

/-- Clauses with floating-point weights have contributions with such weights. -/
theorem exists_toReal_of_mem_contributions {p : Problem Number} {space : AtomSpace}
    (h : ∀ c ∈ p.clauses, ∀ w, c.weight = some w → ∃ x, w = .real x)
    {ins : List (Instance Number)} (hi : p.instances space = .ok ins)
    {e : Nat × Contribution Number}
    (he : e ∈ ins.flatMap (Instance.contributions p.options.noNegativeWeights)) {w : Number}
    (hw : e.2.weight = some w) : ∃ x, w.toReal = .ok x := by
  obtain ⟨inst, hinst, he⟩ := List.mem_flatMap.1 he
  have hc := List.mem_of_getElem? (p.clause_of_mem_instances hi hinst).1
  rw [Instance.contributions_eq_shares] at he
  obtain ⟨literals, -, he⟩ := Instance.mem_shares_iff.1 he
  split at he
  · obtain ⟨l, -, rfl⟩ := he
    obtain ⟨v, hv, rfl⟩ := Option.map_eq_some_iff.1 hw
    obtain ⟨x, rfl⟩ := h _ hc v hv
    exact ⟨-x, rfl⟩
  · rw [he] at hw
    obtain ⟨x, rfl⟩ := h _ hc w hw
    exact ⟨x, rfl⟩

/-- Clauses with floating-point weights never stop the grounding. -/
theorem exists_groundClauses_real {p : Problem Number} {space : AtomSpace}
    (h : ∀ c ∈ p.clauses, ∀ w, c.weight = some w → ∃ x, w = .real x)
    {ins : List (Instance Number)} (hi : p.instances space = .ok ins) :
    ∃ progress, p.groundClauses space = .ok progress := by
  obtain ⟨merged, hm⟩ := exists_addAll_real fun e he w hw =>
    exists_toReal_of_mem_contributions h hi he hw
  exact ⟨⟨merged, _, _, _⟩, p.groundClauses_eq_ok_iff.2 ⟨ins, hi, hm, rfl, rfl, rfl⟩⟩

theorem exists_sum_real {ms : List (Merged Number)} (h : ∀ m ∈ ms, ∃ x, m.weight = .real x) :
    ∀ x, ∃ y, ms.foldlM (fun sum m => WeightArith.add sum (WeightArith.abs m.weight))
      (Number.real x) = .ok (.real y) := by
  induction ms with
  | nil => intro x; exact ⟨x, rfl⟩
  | cons m ms ih =>
    intro x
    obtain ⟨⟨y, hy⟩, hrest⟩ := List.forall_mem_cons.1 h
    obtain ⟨z, hz⟩ := ih hrest (x + y.abs)
    exact ⟨z, (foldlM_cons_eq_ok_iff _).2 ⟨_, by rw [hy]; rfl, hz⟩⟩

/-- **The default hard weight is always a floating-point value.** -/
theorem exists_defaultHardWeight {entries : List (Nat × Contribution Number)}
    {merged : MergeTable Number} (h : MergeTable.addAll Table.empty entries = .ok merged) :
    ∃ x, MergeTable.defaultHardWeight merged = .ok (.real x) := by
  have hreal : ∀ m ∈ (Table.values merged).filter fun m => !m.isHard, ∃ x, m.weight = .real x := by
    intro m hm
    obtain ⟨e, he, rfl⟩ := List.mem_map.1 (List.mem_of_mem_filter hm)
    exact weight_addAll_real (MergeTable.addAll_of_mem h he)
  obtain ⟨y, hy⟩ := exists_sum_real hreal 0.0
  exact ⟨1.0 + y, bind_eq_ok_iff.2 ⟨_, hy, rfl⟩⟩

/-- A hard weight that converts, or the default one, settles. -/
theorem exists_hardWeight {p : Problem Number} {entries : List (Nat × Contribution Number)}
    {merged : MergeTable Number} (h : MergeTable.addAll Table.empty entries = .ok merged)
    (hw : ∀ w, p.options.weightHard = some w → ∃ x, w.toReal = .ok x) :
    ∃ w w', p.hardWeight merged = .ok w ∧ WeightArith.settle w = .ok w' := by
  unfold hardWeight
  cases hgiven : p.options.weightHard with
  | none =>
    obtain ⟨x, hx⟩ := exists_defaultHardWeight h
    exact ⟨_, .real x, hx, rfl⟩
  | some w =>
    obtain ⟨x, hx⟩ := hw w hgiven
    refine ⟨w, .real x, rfl, ?_⟩
    change Number.real <$> w.toReal = _
    rw [hx]
    rfl

/-- **Instances whose weights convert make a ground network.** -/
theorem exists_ground_of_instances {p : Problem Number} {space : AtomSpace}
    {ins : List (Instance Number)} (hclosed : ∀ s ∈ p.evidence.keys, s ∉ p.query ∧ s ∉ p.hidden)
    (hb : AtomSpace.build p.schema p.domains p.query p.hidden = .ok space)
    (hi : p.instances space = .ok ins)
    (hreal : ∀ e ∈ ins.flatMap (Instance.contributions p.options.noNegativeWeights),
      ∀ w, e.2.weight = some w → ∃ x, w.toReal = .ok x)
    (hw : ∀ w, p.options.weightHard = some w → ∃ x, w.toReal = .ok x) :
    ∃ g, p.ground = .ok g ∧ g.space = space := by
  obtain ⟨merged, hm⟩ := exists_addAll_real hreal
  obtain ⟨w, w', hhard, hsettle⟩ := exists_hardWeight hm hw
  have hspace := hasSpace_of_layout hb
  obtain ⟨net, hnet⟩ : ∃ net, p.networkOf space merged = .ok net :=
    exists_networkOf (fun _ hl => ne_nil_of_mem_keys hi hm hl)
      (fun _ hl _ hx => (range_of_mem_keys hi hm hl hspace hx).1) hhard hsettle
  obtain ⟨g, hg, hs, -⟩ := p.exists_ground hclosed hb hi hm hnet
  exact ⟨g, hg, hs⟩

end Floats

end Problem

end MarkovLogic
