import MarkovLogic.Grounding.Build
import MarkovLogic.Proofs.Runs
import Mathlib.Data.List.Sigma

/-!
# Groundings one by one

Grounding a problem walks over its clauses, over the tuples of each clause and over what each
grounding contributes, and it merges on the way. Here the walk and the merging come apart:
`Problem.instances` lists all groundings with what becomes of them, and grounding is the same as
recording that list (`groundClauses_eq_ok_iff`). Merging then is one loop over one list of
contributions (`MergeTable.addAll`), and the counts are counts of that list.
-/

namespace MarkovLogic

/-- One grounding of a clause and what becomes of it. -/
structure Instance (α : Type) where
  formula : Nat
  clause : Clause α
  assignment : Assignment
  outcome : Grounded

namespace Instance

variable {α : Type}

/-- The evidence decides the grounding. -/
def isDropped (inst : Instance α) : Bool :=
  match inst.outcome with
  | .kept _ => false
  | _ => true

/-- The violation that the grounding is, if it is one. -/
def violation? (inst : Instance α) : Option (Violation α) :=
  match inst.outcome with
  | .violated => some ⟨inst.clause, inst.assignment⟩
  | _ => none

/-- What the grounding contributes, with its formula. -/
def contributions [WeightArith α] (noNegativeWeights : Bool) (inst : Instance α) :
    List (Nat × Contribution α) :=
  match inst.outcome with
  | .kept literals =>
    (inst.clause.contributions noNegativeWeights literals).map (inst.formula, ·)
  | _ => []

end Instance

/-- The table with more contributions, one after the other. -/
def MergeTable.addAll {α : Type} [WeightArith α] (table : MergeTable α)
    (entries : List (Nat × Contribution α)) : Except Overflow (MergeTable α) :=
  entries.foldlM (fun table e => MergeTable.add table e.1 e.2) table

/-- The progress after one more grounding. -/
def Progress.record {α : Type} [WeightArith α] (noNegativeWeights : Bool) (progress : Progress α)
    (inst : Instance α) : Except Overflow (Progress α) := do
  let merged ← MergeTable.addAll progress.merged (inst.contributions noNegativeWeights)
  return ⟨merged, progress.groundings + 1,
    progress.dropped + (if inst.isDropped then 1 else 0),
    progress.violations ++ inst.violation?.toList⟩

namespace Problem

variable {α : Type} (p : Problem α)

/-- The grounding of a clause under one tuple. -/
def instanceAt (space : AtomSpace) (formula : Nat) (c : Clause α) (vars : List Variable)
    (tuple : List String) : Except (GroundingError α) (Instance α) := do
  let assignment ← assign vars tuple
  let outcome ← p.simplify space c assignment
  return ⟨formula, c, assignment, outcome⟩

/-- The groundings of a clause. -/
def instancesOf (space : AtomSpace) (entry : Clause α × Nat) :
    Except (GroundingError α) (List (Instance α)) := do
  let pools ← p.variablePools entry.1
  (tuples (pools.map Prod.snd)).mapM
    (p.instanceAt space entry.2 entry.1 (pools.map Prod.fst))

/-- The groundings of all clauses in the order in which they are made. -/
def instances (space : AtomSpace) : Except (GroundingError α) (List (Instance α)) := do
  let groups ← p.clauses.zipIdx.mapM (p.instancesOf space)
  return groups.flatten

end Problem

/-! ## Contributions -/

section Contributions

variable {α : Type} [WeightArith α]

/-- Contributions have literals of their grounding, all as they are or all negated. -/
theorem literals_of_mem_contributions {noNeg : Bool} {inst : Instance α}
    {e : Nat × Contribution α} (h : e ∈ inst.contributions noNeg) :
    e.1 = inst.formula ∧ ∃ literals, inst.outcome = .kept literals ∧
      (e.2.literals = literals ∨ ∃ x ∈ literals, e.2.literals = [-x]) := by
  unfold Instance.contributions at h
  split at h
  · next literals ho =>
    obtain ⟨c, hc, rfl⟩ := List.mem_map.1 h
    refine ⟨rfl, literals, ho, ?_⟩
    unfold Clause.contributions at hc
    split at hc
    · exact .inl (by rw [List.mem_singleton.1 hc])
    · split at hc
      · obtain ⟨x, hx, rfl⟩ := List.mem_map.1 hc
        exact .inr ⟨x, hx, rfl⟩
      · exact .inl (by rw [List.mem_singleton.1 hc])
  · cases h

/-- The contributions of a grounding are hard when its clause is. -/
theorem isNone_of_mem_contributions {noNeg : Bool} {inst : Instance α} {e : Nat × Contribution α}
    (h : e ∈ inst.contributions noNeg) : e.2.weight.isNone = inst.clause.isHard := by
  unfold Instance.contributions at h
  split at h
  · next literals ho =>
    obtain ⟨c, hc, rfl⟩ := List.mem_map.1 h
    unfold Clause.contributions at hc
    unfold Clause.isHard
    split at hc
    · next hw => rw [List.mem_singleton.1 hc, hw]
    · next w hw =>
      split at hc
      · obtain ⟨x, _, rfl⟩ := List.mem_map.1 hc
        rw [hw]
        rfl
      · rw [List.mem_singleton.1 hc, hw]
  · cases h

/-- The contributions of a formula are those of its groundings. -/
theorem filter_flatMap_contributions (noNeg : Bool) (i : Nat) (ins : List (Instance α)) :
    (ins.flatMap (Instance.contributions noNeg)).filter (fun e => e.1 = i) =
      (ins.filter fun inst => inst.formula = i).flatMap (Instance.contributions noNeg) := by
  induction ins with
  | nil => rfl
  | cons inst ins ih =>
    rw [List.flatMap_cons, List.filter_append, ih]
    by_cases hi : inst.formula = i
    · rw [List.filter_cons_of_pos (by simpa using hi), List.flatMap_cons, List.filter_eq_self.2]
      intro e he
      simpa [(literals_of_mem_contributions he).1] using hi
    · rw [List.filter_cons_of_neg (by simpa using hi), List.filter_eq_nil_iff.2, List.nil_append]
      intro e he
      simpa [(literals_of_mem_contributions he).1] using hi

end Contributions

/-! ## Grounding as recording -/

section Recording

variable {α : Type} [WeightArith α]

namespace MergeTable

theorem addAll_append_eq_ok_iff {table merged : MergeTable α}
    {entries entries' : List (Nat × Contribution α)} :
    table.addAll (entries ++ entries') = .ok merged ↔
      ∃ mid, table.addAll entries = .ok mid ∧ MergeTable.addAll mid entries' = .ok merged :=
  foldlM_append_eq_ok_iff _

theorem addAll_map_eq (table : MergeTable α) (formula : Nat) (cs : List (Contribution α)) :
    table.addAll (cs.map (formula, ·)) =
      cs.foldlM (fun table c => MergeTable.add table formula c) table := by
  rw [addAll, List.foldlM_map]

end MergeTable

namespace Progress

variable (noNeg : Bool) (s : Progress α) (formula : Nat) (c : Clause α) (assignment : Assignment)

theorem record_dropped : s.record noNeg ⟨formula, c, assignment, .dropped⟩ =
    .ok { s with groundings := s.groundings + 1, dropped := s.dropped + 1 } := by
  simp [record, Instance.contributions, MergeTable.addAll, Instance.isDropped,
    Instance.violation?, pure, Except.pure, bind, Except.bind]

theorem record_violated : s.record noNeg ⟨formula, c, assignment, .violated⟩ =
    .ok { s with
      groundings := s.groundings + 1
      dropped := s.dropped + 1
      violations := s.violations ++ [⟨c, assignment⟩] } := by
  simp [record, Instance.contributions, MergeTable.addAll, Instance.isDropped,
    Instance.violation?, pure, Except.pure, bind, Except.bind]

theorem record_kept (literals : List Int) :
    s.record noNeg ⟨formula, c, assignment, .kept literals⟩ =
      ((c.contributions noNeg literals).foldlM
        (fun table contribution => MergeTable.add table formula contribution) s.merged).map
          fun merged => { s with merged, groundings := s.groundings + 1 } := by
  rw [record, Instance.contributions, MergeTable.addAll_map_eq]
  cases (c.contributions noNeg literals).foldlM
    (fun table contribution => MergeTable.add table formula contribution) s.merged with
  | error e => rfl
  | ok merged =>
    simp [Instance.isDropped, Instance.violation?, pure, Except.pure, bind, Except.bind,
      Except.map]

/-- Recording groundings merges all their contributions and counts them. -/
theorem foldlM_record_eq_ok_iff {ins : List (Instance α)} :
    ∀ {s t : Progress α}, ins.foldlM (record noNeg) s = .ok t ↔
      MergeTable.addAll s.merged (ins.flatMap (Instance.contributions noNeg)) = .ok t.merged ∧
      t.groundings = s.groundings + ins.length ∧
      t.dropped = s.dropped + ins.countP Instance.isDropped ∧
      t.violations = s.violations ++ ins.filterMap Instance.violation? := by
  induction ins with
  | nil =>
    intro s t
    rw [foldlM_nil_eq_ok_iff]
    cases s
    cases t
    simp [MergeTable.addAll, pure, Except.pure, eq_comm]
  | cons inst ins ih =>
    intro s t
    rw [foldlM_cons_eq_ok_iff, List.flatMap_cons, MergeTable.addAll_append_eq_ok_iff]
    have hv : (inst :: ins).filterMap Instance.violation? =
        inst.violation?.toList ++ ins.filterMap Instance.violation? := by
      rw [List.filterMap_cons]
      cases inst.violation? <;> rfl
    rw [hv, List.countP_cons, List.length_cons]
    constructor
    · rintro ⟨u, hu, ht⟩
      obtain ⟨mid, hmid, hu⟩ := bind_eq_ok_iff.1 hu
      obtain rfl := Except.ok.inj hu
      obtain ⟨hm, hg, hd, hw⟩ := ih.1 ht
      refine ⟨⟨mid, hmid, hm⟩, by simp only at hg; omega, by simp only at hd; omega, ?_⟩
      rw [hw, List.append_assoc]
    · rintro ⟨⟨mid, hmid, hm⟩, hg, hd, hw⟩
      refine ⟨_, bind_eq_ok_iff.2 ⟨mid, hmid, rfl⟩, ih.2 ⟨hm, ?_, ?_, ?_⟩⟩
      · simp only
        omega
      · simp only
        omega
      · rw [hw, List.append_assoc]

end Progress

namespace Problem

variable (p : Problem α)

theorem groundTuple_eq (space : AtomSpace) (formula : Nat) (c : Clause α) (vars : List Variable)
    (s : Progress α) (tuple : List String) :
    p.groundTuple space formula c vars s tuple =
      p.instanceAt space formula c vars tuple >>= fun inst =>
        (s.record p.options.noNegativeWeights inst).mapError .overflow := by
  unfold groundTuple instanceAt
  cases assign vars tuple with
  | error e => rfl
  | ok assignment =>
    simp only [bind, Except.bind]
    cases p.simplify space c assignment with
    | error e => rfl
    | ok outcome =>
      cases outcome with
      | dropped =>
        simp only [pure, Except.pure, Progress.record_dropped]
        rfl
      | violated =>
        simp only [pure, Except.pure, Progress.record_violated]
        rfl
      | kept literals =>
        simp only [pure, Except.pure, Progress.record_kept]
        cases (c.contributions p.options.noNegativeWeights literals).foldlM
          (fun table contribution => MergeTable.add table formula contribution) s.merged with
        | error e => rfl
        | ok merged => rfl

theorem groundClause_eq_ok_iff {space : AtomSpace} {entry : Clause α × Nat} {s t : Progress α} :
    p.groundClause space s entry = .ok t ↔
      ∃ ins, p.instancesOf space entry = .ok ins ∧
        ins.foldlM (Progress.record p.options.noNegativeWeights) s = .ok t := by
  obtain ⟨c, formula⟩ := entry
  have hstep : p.groundTuple space formula c = fun vars s tuple =>
      p.instanceAt space formula c vars tuple >>= fun inst =>
        (s.record p.options.noNegativeWeights inst).mapError .overflow := by
    funext vars s tuple
    exact p.groundTuple_eq space formula c vars s tuple
  unfold groundClause instancesOf
  simp only [hstep, bind_eq_ok_iff (f := fun pools => List.foldlM _ s (tuples _)),
    bind_eq_ok_iff (f := fun pools => List.mapM _ (tuples _))]
  constructor
  · rintro ⟨pools, hp, h⟩
    obtain ⟨ins, hi, h⟩ := foldlM_bind_eq_ok_iff.1 h
    exact ⟨ins, ⟨pools, hp, hi⟩, foldlM_mapError_eq_ok_iff.1 h⟩
  · rintro ⟨ins, ⟨pools, hp, hi⟩, h⟩
    exact ⟨pools, hp, foldlM_bind_eq_ok_iff.2 ⟨ins, hi, foldlM_mapError_eq_ok_iff.2 h⟩⟩

theorem foldlM_groundClause_eq_ok_iff {space : AtomSpace} {entries : List (Clause α × Nat)} :
    ∀ {s t : Progress α}, entries.foldlM (p.groundClause space) s = .ok t ↔
      ∃ groups, entries.mapM (p.instancesOf space) = .ok groups ∧
        groups.flatten.foldlM (Progress.record p.options.noNegativeWeights) s = .ok t := by
  induction entries with
  | nil => intro s t; simp [pure, Except.pure]
  | cons entry entries ih =>
    intro s t
    rw [foldlM_cons_eq_ok_iff]
    constructor
    · rintro ⟨u, hu, ht⟩
      obtain ⟨ins, hi, hu⟩ := (p.groundClause_eq_ok_iff).1 hu
      obtain ⟨groups, hg, ht⟩ := ih.1 ht
      refine ⟨ins :: groups, mapM_eq_ok_iff.2 (.cons hi (mapM_eq_ok_iff.1 hg)), ?_⟩
      rw [List.flatten_cons]
      exact (foldlM_append_eq_ok_iff _).2 ⟨u, hu, ht⟩
    · rintro ⟨groups, hg, ht⟩
      cases mapM_eq_ok_iff.1 hg with
      | cons hi hrest =>
        rw [List.flatten_cons] at ht
        obtain ⟨u, hu, ht⟩ := (foldlM_append_eq_ok_iff _).1 ht
        exact ⟨u, (p.groundClause_eq_ok_iff).2 ⟨_, hi, hu⟩, ih.2 ⟨_, mapM_eq_ok_iff.2 hrest, ht⟩⟩

/-- **Grounding records the list of all groundings**: it merges their contributions in one loop, and
its counts are counts of that list. -/
theorem groundClauses_eq_ok_iff {space : AtomSpace} {progress : Progress α} :
    p.groundClauses space = .ok progress ↔
      ∃ ins, p.instances space = .ok ins ∧
        MergeTable.addAll Table.empty
          (ins.flatMap (Instance.contributions p.options.noNegativeWeights)) =
            .ok progress.merged ∧
        progress.groundings = ins.length ∧
        progress.dropped = ins.countP Instance.isDropped ∧
        progress.violations = ins.filterMap Instance.violation? := by
  unfold groundClauses instances
  rw [foldlM_groundClause_eq_ok_iff]
  simp only [Progress.foldlM_record_eq_ok_iff, Nat.zero_add, List.nil_append]
  constructor
  · rintro ⟨groups, hg, h⟩
    exact ⟨groups.flatten, bind_eq_ok_iff.2 ⟨groups, hg, rfl⟩, h⟩
  · rintro ⟨ins, hi, h⟩
    obtain ⟨groups, hg, hi⟩ := bind_eq_ok_iff.1 hi
    obtain rfl := Except.ok.inj hi
    exact ⟨groups, hg, h⟩

end Problem

end Recording

/-! ## The groundings of one formula -/

namespace Problem

variable {α : Type} (p : Problem α) {space : AtomSpace}

/-- A grounding of a clause carries the clause and its index, and its outcome is the simplified
clause. -/
theorem instance_of_mem {entry : Clause α × Nat} {own : List (Instance α)}
    (h : p.instancesOf space entry = .ok own) {inst : Instance α} (hm : inst ∈ own) :
    inst.clause = entry.1 ∧ inst.formula = entry.2 ∧
      p.simplify space inst.clause inst.assignment = .ok inst.outcome := by
  obtain ⟨pools, _, h⟩ := bind_eq_ok_iff.1 h
  obtain ⟨tuple, _, hi⟩ := exists_of_mem_mapM h hm
  obtain ⟨assignment, _, hi⟩ := bind_eq_ok_iff.1 hi
  obtain ⟨outcome, ho, hi⟩ := bind_eq_ok_iff.1 hi
  rw [← Except.ok.inj hi]
  exact ⟨rfl, rfl, ho⟩

theorem filter_flatten_of_notMem {entries : List (Clause α × Nat)} {i : Nat} :
    ∀ {groups : List (List (Instance α))}, entries.mapM (p.instancesOf space) = .ok groups →
      i ∉ entries.map Prod.snd → groups.flatten.filter (fun inst => inst.formula = i) = [] := by
  induction entries with
  | nil =>
    intro groups h _
    obtain rfl := Except.ok.inj h
    rfl
  | cons entry entries ih =>
    intro groups h hi
    simp only [List.map_cons, List.mem_cons, not_or] at hi
    cases mapM_eq_ok_iff.1 h with
    | @cons _ own _ rest ho hrest =>
      rw [List.flatten_cons, List.filter_append, ih (mapM_eq_ok_iff.2 hrest) hi.2,
        List.append_nil, List.filter_eq_nil_iff]
      intro inst hm
      rw [(p.instance_of_mem ho hm).2.1]
      simpa using Ne.symm hi.1

theorem filter_flatten_of_mem {entries : List (Clause α × Nat)} {c : Clause α} {i : Nat} :
    ∀ {groups : List (List (Instance α))}, entries.mapM (p.instancesOf space) = .ok groups →
      (entries.map Prod.snd).Nodup → (c, i) ∈ entries →
      p.instancesOf space (c, i) =
        .ok (groups.flatten.filter fun inst => inst.formula = i) := by
  induction entries with
  | nil => intro groups _ _ hm; cases hm
  | cons entry entries ih =>
    intro groups h hn hm
    simp only [List.map_cons, List.nodup_cons] at hn
    cases mapM_eq_ok_iff.1 h with
    | @cons _ own _ rest ho hrest =>
      rw [List.flatten_cons, List.filter_append]
      rcases List.mem_cons.1 hm with rfl | hm
      · rw [p.filter_flatten_of_notMem (mapM_eq_ok_iff.2 hrest) hn.1, List.append_nil, ho,
          List.filter_eq_self.2]
        intro inst hinst
        simpa using (p.instance_of_mem ho hinst).2.1
      · have hne : entry.2 ≠ i := fun he =>
          hn.1 (he ▸ List.mem_map_of_mem (f := Prod.snd) hm)
        have hnil : own.filter (fun inst => inst.formula = i) = [] := by
          rw [List.filter_eq_nil_iff]
          intro inst hinst
          rw [(p.instance_of_mem ho hinst).2.1]
          simpa using hne
        rw [hnil, List.nil_append]
        exact ih (mapM_eq_ok_iff.2 hrest) hn.2 hm

/-- **The groundings with a formula index are those of its clause**, in their order. -/
theorem instancesOf_of_instances {ins : List (Instance α)} (h : p.instances space = .ok ins)
    {i : Nat} {c : Clause α} (hi : p.clauses[i]? = some c) :
    p.instancesOf space (c, i) = .ok (ins.filter fun inst => inst.formula = i) := by
  obtain ⟨groups, hg, h⟩ := bind_eq_ok_iff.1 h
  obtain rfl := Except.ok.inj h
  exact p.filter_flatten_of_mem hg (List.nodup_zipIdx_map_snd p.clauses)
    (List.mem_zipIdx_iff_getElem?.2 hi)

theorem clause_of_mem_instances {ins : List (Instance α)} (h : p.instances space = .ok ins)
    {inst : Instance α} (hm : inst ∈ ins) :
    p.clauses[inst.formula]? = some inst.clause ∧
      p.simplify space inst.clause inst.assignment = .ok inst.outcome := by
  obtain ⟨groups, hg, h⟩ := bind_eq_ok_iff.1 h
  obtain rfl := Except.ok.inj h
  obtain ⟨own, ho, hm⟩ := List.mem_flatten.1 hm
  obtain ⟨⟨c, i⟩, hi, ho⟩ := exists_of_mem_mapM hg ho
  obtain ⟨hc, hf, hs⟩ := p.instance_of_mem ho hm
  rw [hc, hf] at *
  exact ⟨List.mem_zipIdx_iff_getElem?.1 hi, hs⟩

end Problem

/-! ## The same clause in another problem -/

namespace Problem

variable {α : Type} {p p' : Problem α} {space : AtomSpace} {c c' : Clause α}

theorem openLiterals_congr (he : p'.evidence = p.evidence) (assignment : Assignment)
    (ls : List Literal) : ∀ found, p'.openLiterals space assignment found ls =
      p.openLiterals space assignment found ls := by
  induction ls with
  | nil => intro found; rfl
  | cons l rest ih =>
    intro found
    unfold openLiterals isFact
    simp only [ih, he]

theorem simplify_congr (he : p'.evidence = p.evidence) (hl : c'.literals = c.literals)
    (hh : c'.isHard = c.isHard) (assignment : Assignment) :
    p'.simplify space c' assignment = p.simplify space c assignment := by
  unfold simplify
  rw [openLiterals_congr he, hl, hh]

theorem variablePools_of_literals_eq (hd : p'.domains = p.domains)
    (hl : c'.literals = c.literals) {pools : List (Variable × List String)}
    (h : p.variablePools c = .ok pools) : p'.variablePools c' = .ok pools := by
  have hvars : c'.orderedVariables = c.orderedVariables := by
    unfold Clause.orderedVariables Clause.vars
    rw [hl]
  unfold variablePools at h ⊢
  rw [hl, hvars]
  split at h
  · cases h
  · refine mapM_eq_ok_iff.2 ((mapM_eq_ok_iff.1 h).imp fun v entry hv => ?_)
    have hpool : p'.pool? v = p.pool? v := by
      unfold pool?
      rw [hd]
    rw [hpool]
    cases hp : p.pool? v with
    | none =>
      rw [hp] at hv
      cases hv
    | some pool =>
      rw [hp] at hv
      exact hv

/-- **A clause has the same groundings in every problem with the same domains and evidence**,
whatever its place there and its weight, as long as it stays hard or soft. -/
theorem instancesOf_of_alike (hd : p'.domains = p.domains) (he : p'.evidence = p.evidence)
    (hl : c'.literals = c.literals) (hh : c'.isHard = c.isHard) {i : Nat} (i' : Nat)
    {own : List (Instance α)} (h : p.instancesOf space (c, i) = .ok own) :
    p'.instancesOf space (c', i') =
      .ok (own.map fun inst => { inst with formula := i', clause := c' }) := by
  obtain ⟨pools, hp, h⟩ := bind_eq_ok_iff.1 h
  refine bind_eq_ok_iff.2 ⟨pools, variablePools_of_literals_eq hd hl hp, mapM_eq_ok_iff.2 ?_⟩
  rw [List.forall₂_map_right_iff]
  refine (mapM_eq_ok_iff.1 h).imp fun tuple inst hi => ?_
  obtain ⟨assignment, ha, hi⟩ := bind_eq_ok_iff.1 hi
  obtain ⟨outcome, ho, hi⟩ := bind_eq_ok_iff.1 hi
  obtain rfl := Except.ok.inj hi
  refine bind_eq_ok_iff.2 ⟨assignment, ha, bind_eq_ok_iff.2 ⟨outcome, ?_, rfl⟩⟩
  rw [simplify_congr he hl hh]
  exact ho

/-- The groundings of a clause depend on domains and evidence only. -/
theorem instancesOf_congr (hd : p'.domains = p.domains) (he : p'.evidence = p.evidence)
    (space : AtomSpace) : p'.instancesOf space = p.instancesOf space := by
  have hpools : p'.variablePools = p.variablePools := by
    funext c
    unfold variablePools pool?
    rw [hd]
  have hsimplify : p'.simplify = p.simplify := by
    funext space c assignment
    exact simplify_congr he rfl rfl assignment
  unfold instancesOf instanceAt
  rw [hpools, hsimplify]

/-- The groundings depend on clauses, domains and evidence only. -/
theorem instances_congr (hc : p'.clauses = p.clauses) (hd : p'.domains = p.domains)
    (he : p'.evidence = p.evidence) (space : AtomSpace) :
    p'.instances space = p.instances space := by
  unfold instances
  rw [hc, instancesOf_congr hd he]

end Problem

end MarkovLogic
