import MarkovLogic.Proofs.Network.Occurrences
import MarkovLogic.Proofs.Distinct
import Mathlib.Algebra.BigOperators.Ring.Finset

/-!
# Assembly as a check and as an index

Given a hard weight that settles, assembly either refuses its parts with an error that names one of
their faults (`NetworkError.Faults`), or the parts are admissible and it returns a network that
holds and lists them exactly (`Network.Assembled`). Which of the two happens is decided by
`Network.Admissible` alone (`Network.assembles_exactly`).

The occurrence tables are described as a whole: an atom's list has each constraint as often as it
has the literal, an atom is listed when it has such constraints, and the tables together hold one
entry for each literal of each constraint.
-/

namespace MarkovLogic

variable {α : Type}

/-! ## Refused parts -/

/-- The error names a fault of the parts. A hard weight that does not settle is no fault of
theirs. -/
def NetworkError.Faults (constraints : List (Constraint α)) (atoms : List GroundAtom)
    (first last : Int) : NetworkError → Prop
  | .invertedQuery first' last' => first' = first ∧ last' = last ∧ last < first - 1
  | .duplicateAtom id => 2 ≤ (atoms.map (·.id)).count id
  | .atomNotPositive => ∃ a ∈ atoms, a.id ≤ 0
  | .duplicateConstraint id => 2 ≤ (constraints.map (·.id)).count id
  | .hardWeight _ => False
  | .reservedConstraint => ∃ c ∈ constraints, c.id = -1
  | .noLiterals id => ∃ c ∈ constraints, c.id = id ∧ c.literals = []
  | .unknownAtom id x => ∃ c ∈ constraints, c.id = id ∧ x ∈ c.literals ∧
      ∀ a ∈ atoms, a.id ≠ x.natAbs

namespace Network

theorem firstRepeat?_go_eq_some {ids : List Int} {id : Int} :
    ∀ {seen}, firstRepeat?.go seen ids = some id → id ∈ ids ∧ (id ∈ seen ∨ 2 ≤ ids.count id) := by
  induction ids with
  | nil => intro seen h; cases h
  | cons i ids ih =>
    intro seen h
    rw [firstRepeat?.go] at h
    split at h
    · next hi =>
      obtain rfl := Option.some.inj h
      exact ⟨List.mem_cons_self, .inl (List.contains_iff_mem.1 hi)⟩
    · obtain ⟨hmem, hseen⟩ := ih h
      have hcount : ids.count id ≤ (i :: ids).count id := List.count_le_count_cons
      refine ⟨List.mem_cons_of_mem _ hmem, ?_⟩
      rcases hseen with hseen | hseen
      · rcases List.mem_append.1 hseen with hseen | hi
        · exact .inl hseen
        · -- the element stands in front of the list and in it
          obtain rfl := List.mem_singleton.1 hi
          have hpos := List.count_pos_iff.2 hmem
          rw [List.count_cons_self]
          exact .inr (by omega)
      · exact .inr (by omega)

theorem two_le_count_of_firstRepeat? {ids : List Int} {id : Int} (h : firstRepeat? ids = some id) :
    2 ≤ ids.count id := by
  obtain ⟨-, hseen | hcount⟩ := firstRepeat?_go_eq_some h
  · cases hseen
  · exact hcount

/-- A constraint is refused because of its number or because of its literals. -/
theorem Index.addConstraint_eq_error {known : Int → Bool} {index : Index} {c : Constraint α}
    {e : NetworkError} (h : index.addConstraint known c = .error e) :
    (e = .reservedConstraint ∧ c.id = -1) ∨ (e = .noLiterals c.id ∧ c.literals = []) ∨
      ∃ x ∈ c.literals, e = .unknownAtom c.id x ∧ known x.natAbs = false := by
  unfold addConstraint at h
  by_cases hid : c.id = -1
  · rw [if_pos hid] at h
    exact .inl ⟨(Except.error.inj h).symm, hid⟩
  rw [if_neg hid] at h
  by_cases hempty : c.literals = []
  · simp only [hempty, List.isEmpty_nil, if_true] at h
    exact .inr (.inl ⟨(Except.error.inj h).symm, hempty⟩)
  · have hne : c.literals.isEmpty = false := by simpa using hempty
    rw [hne, if_neg (by decide)] at h
    obtain ⟨x, hx, index', hfail⟩ := exists_of_foldlM_eq_error _ h
    refine .inr (.inr ⟨x, hx, ?_⟩)
    unfold addLiteral at hfail
    cases hknown : known x.natAbs with
    | false =>
      simp only [hknown, Bool.not_false, if_true] at hfail
      exact ⟨(Except.error.inj hfail).symm, rfl⟩
    | true =>
      simp only [hknown, Bool.not_true, Bool.false_eq_true, if_false] at hfail
      split at hfail <;> cases hfail

/-- The loop over the constraints stops at one that is at fault. -/
theorem Index.faults_of_addConstraint {constraints : List (Constraint α)} {atoms : List GroundAtom}
    {index : Index} {e : NetworkError} (first last : Int)
    (h : constraints.foldlM (addConstraint fun id => atoms.any (·.id = id)) index = .error e) :
    e.Faults constraints atoms first last := by
  obtain ⟨c, hc, index', hfail⟩ := exists_of_foldlM_eq_error _ h
  rcases addConstraint_eq_error hfail with ⟨rfl, hid⟩ | ⟨rfl, hempty⟩ | ⟨x, hx, rfl, hunknown⟩
  · exact ⟨c, hc, hid⟩
  · exact ⟨c, hc, rfl, hempty⟩
  · exact ⟨c, hc, rfl, hx, by simpa using hunknown⟩

section

variable [WeightArith α] {constraints : List (Constraint α)} {atoms : List GroundAtom}
  {weightHard w : α} {first last : Int} {deps : Option DependencyMap} {net : Network α}

/-- **What assembly refuses has the fault that the error names.** -/
theorem faults_of_assemble {e : NetworkError} (hw : WeightArith.settle weightHard = .ok w)
    (h : assemble constraints atoms weightHard first last deps = .error e) :
    e.Faults constraints atoms first last := by
  -- one check after the other; each stops with its own error or lets the parts pass
  simp only [assemble, hw, Except.mapError, bind, Except.bind, pure, Except.pure, throw,
    throwThe, MonadExceptOf.throw] at h
  split at h
  · next hquery =>
    obtain rfl := Except.error.inj h
    exact ⟨rfl, rfl, hquery⟩
  split at h
  · next id hatom =>
    obtain rfl := Except.error.inj h
    exact two_le_count_of_firstRepeat? hatom
  split at h
  · next hlow =>
    obtain rfl := Except.error.inj h
    have hlow : ∃ a ∈ atoms, a.id ≤ 0 := by simpa using hlow
    exact hlow
  split at h
  · next id hid =>
    obtain rfl := Except.error.inj h
    exact two_le_count_of_firstRepeat? hid
  split at h
  · next hfail =>
    obtain rfl := Except.error.inj h
    exact Index.faults_of_addConstraint first last hfail
  · cases h

end

/-! ## What the tables list -/

theorem map_fst_filter_mentions (s : Int × List Int) (x : Int) :
    ((mentions s).filter (·.2 = x)).map Prod.fst = List.replicate (s.2.count x) s.1 := by
  unfold mentions
  induction s.2 with
  | nil => rfl
  | cons y ys ih =>
    by_cases hy : y = x
    · simp [hy, ih, List.replicate_succ]
    · simp [hy, ih]

/-- The entries of a table, over all its atoms. -/
def Occurrences.total (table : Occurrences) : Nat :=
  (table.values.map List.length).sum

theorem Occurrences.total_eq (table : Occurrences) :
    (total table : Int) = (table.toList.map fun e => (e.2.length : Int)).sum := by
  unfold total Table.values
  rw [List.map_map, Nat.cast_list_sum, List.map_map]
  rfl

theorem Occurrences.total_addOccurrence (table : Occurrences) (atom c : Int) :
    total (addOccurrence table atom c) = total table + 1 := by
  have h := Table.sum_insert (fun _ cs => (cs.length : Int)) table atom
    (((table.get? atom).getD []) ++ [c])
  have hold : (table.get? atom).elim 0 (fun cs => (cs.length : Int)) =
      (((table.get? atom).getD []).length : Int) := by
    cases table.get? atom <;> rfl
  rw [hold, List.length_append] at h
  have htotal := total_eq table
  have htotal' := total_eq (addOccurrence table atom c)
  rw [addOccurrence] at htotal'
  simp only [List.length_singleton] at h
  unfold addOccurrence
  push_cast at h
  omega

theorem Index.total_ofMentions (ms : List (Int × Int)) :
    Occurrences.total (ofMentions ms).positive + Occurrences.total (ofMentions ms).negative =
      ms.length := by
  suffices h : ∀ index : Index, Occurrences.total (ms.foldl note index).positive +
        Occurrences.total (ms.foldl note index).negative =
      Occurrences.total index.positive + Occurrences.total index.negative + ms.length by
    simpa [ofMentions, Occurrences.total, Table.values] using h ⟨Table.empty, Table.empty⟩
  induction ms with
  | nil => intro index; rfl
  | cons m ms ih =>
    intro index
    rw [List.foldl_cons, ih, List.length_cons]
    unfold note
    split
    · simp only [Occurrences.total_addOccurrence]
      omega
    · simp only [Occurrences.total_addOccurrence]
      omega

/-- A table has a key for an atom once a literal of its side has mentioned the atom. -/
theorem Index.mem_keys_ofMentions {a : Int} (ms : List (Int × Int)) :
    (a ∈ (ofMentions ms).positive.keys ↔ ∃ m ∈ ms, 0 < m.2 ∧ a = m.2.natAbs) ∧
      (a ∈ (ofMentions ms).negative.keys ↔ ∃ m ∈ ms, ¬ 0 < m.2 ∧ a = m.2.natAbs) := by
  suffices h : ∀ index : Index,
      (a ∈ (ms.foldl note index).positive.keys ↔
        a ∈ index.positive.keys ∨ ∃ m ∈ ms, 0 < m.2 ∧ a = m.2.natAbs) ∧
      (a ∈ (ms.foldl note index).negative.keys ↔
        a ∈ index.negative.keys ∨ ∃ m ∈ ms, ¬ 0 < m.2 ∧ a = m.2.natAbs) by
    simpa [ofMentions, Table.keys] using h ⟨Table.empty, Table.empty⟩
  induction ms with
  | nil => intro index; simp
  | cons m ms ih =>
    intro index
    obtain ⟨ihpos, ihneg⟩ := ih (index.note m)
    rw [List.foldl_cons, ihpos, ihneg, List.exists_mem_cons_iff, List.exists_mem_cons_iff]
    unfold note
    by_cases hm : 0 < m.2
    · simp only [hm, if_true, addOccurrence, Table.mem_keys_insert, not_true, false_and, true_and,
        false_or, or_assoc, and_self]
    · simp only [hm, if_false, addOccurrence, Table.mem_keys_insert, not_false_eq_true, true_and,
        false_and, false_or, or_assoc, and_self]

theorem foldl_max_le_iff {ns : List Nat} {n : Nat} :
    ∀ {start}, ns.foldl max start ≤ n ↔ start ≤ n ∧ ∀ m ∈ ns, m ≤ n := by
  induction ns with
  | nil => intro start; simp
  | cons m ns ih =>
    intro start
    rw [List.foldl_cons, ih, max_le_iff, List.forall_mem_cons, and_assoc]

theorem foldl_max_mem (ns : List Nat) : ∀ start, ns.foldl max start ∈ start :: ns := by
  induction ns with
  | nil => intro start; simp
  | cons m ns ih =>
    intro start
    rw [List.foldl_cons]
    rcases List.mem_cons.1 (ih (max start m)) with h | h
    · rw [h]
      rcases max_choice start m with hmax | hmax <;> simp [hmax]
    · exact List.mem_cons_of_mem _ (List.mem_cons_of_mem _ h)

section

variable [WeightArith α] {constraints : List (Constraint α)} {atoms : List GroundAtom}
  {weightHard w : α} {first last : Int} {deps : Option DependencyMap} {net : Network α}
  (h : assemble constraints atoms weightHard first last deps = .ok net)

include h

/-- A table that holds the mentions lists each constraint as often as it has the literal. -/
theorem listed_eq {table : Occurrences} {a x : Int} (ht : (table.get? a).getD [] =
      ((constraints.flatMap fun c => mentions c.shape).filter (·.2 = x)).map Prod.fst) :
    net.listed table a =
      net.constraints.flatMap fun c => List.replicate (c.literals.count x) c := by
  have hn := (admissible_of_assemble h).ids_nodup
  obtain ⟨-, w, -, rfl⟩ := assemble_eq_ok_iff_admissible.1 h
  unfold listed
  rw [ht, List.filter_flatMap, List.map_flatMap, List.filterMap_flatMap, List.flatMap_map]
  refine List.flatMap_congr fun c hc => ?_
  rw [map_fst_filter_mentions, Constraint.settled_literals]
  refine List.filterMap_replicate_of_some ((constraint?_eq_some_iff hn).2 ⟨?_, ?_⟩)
  · exact List.mem_map_of_mem hc
  · exact Constraint.settled_id w c

theorem positiveOccurrences_eq {a : Int} (ha : 0 < a) : net.positiveOccurrences a =
    net.constraints.flatMap fun c => List.replicate (c.literals.count a) c := by
  apply listed_eq h
  obtain ⟨-, w, -, rfl⟩ := assemble_eq_ok_iff_admissible.1 h
  exact (Index.getD_ofMentions ha _).1

theorem negativeOccurrences_eq {a : Int} (ha : 0 < a) : net.negativeOccurrences a =
    net.constraints.flatMap fun c => List.replicate (c.literals.count (-a)) c := by
  apply listed_eq h
  obtain ⟨-, w, -, rfl⟩ := assemble_eq_ok_iff_admissible.1 h
  exact (Index.getD_ofMentions ha _).2

theorem literal_ne_zero {c : Constraint α} (hc : c ∈ net.constraints) {x : Int}
    (hx : x ∈ c.literals) : x ≠ 0 := by
  have had := admissible_of_assemble h
  obtain ⟨a, ha, hax⟩ := had.known c hc x hx
  have hpos := had.atoms_pos a ha
  rintro rfl
  omega

theorem mem_positive_keys_iff {a : Int} :
    a ∈ net.positive.keys ↔ 0 < a ∧ ∃ c ∈ net.constraints, a ∈ c.literals := by
  obtain ⟨-, w, -, rfl⟩ := assemble_eq_ok_iff_admissible.1 h
  simp only [indexOf, (Index.mem_keys_ofMentions _).1, List.mem_flatMap, mentions, Constraint.shape,
    List.mem_map]
  constructor
  · rintro ⟨_, ⟨c, hc, x, hx, rfl⟩, hpos, rfl⟩
    have hxa : (x.natAbs : Int) = x := by simp only at hpos; omega
    exact ⟨by simp only at hpos ⊢; omega, c.settled w, ⟨c, hc, rfl⟩, by simpa [hxa] using hx⟩
  · rintro ⟨hpos, _, ⟨c, hc, rfl⟩, hx⟩
    rw [Constraint.settled_literals] at hx
    exact ⟨(c.id, a), ⟨c, hc, a, hx, rfl⟩, hpos, by simp only; omega⟩

theorem mem_negative_keys_iff {a : Int} :
    a ∈ net.negative.keys ↔ 0 < a ∧ ∃ c ∈ net.constraints, -a ∈ c.literals := by
  have hzero : ∀ c ∈ net.constraints, ∀ x ∈ c.literals, x ≠ 0 :=
    fun c hc x hx => literal_ne_zero h hc hx
  obtain ⟨-, w, -, rfl⟩ := assemble_eq_ok_iff_admissible.1 h
  simp only [indexOf, (Index.mem_keys_ofMentions _).2, List.mem_flatMap, mentions, Constraint.shape,
    List.mem_map]
  constructor
  · rintro ⟨_, ⟨c, hc, x, hx, rfl⟩, hneg, rfl⟩
    have hx' : x ∈ (c.settled w).literals := by rwa [Constraint.settled_literals]
    have hx0 := hzero _ (List.mem_map_of_mem hc) x hx'
    have hxa : -(x.natAbs : Int) = x := by simp only at hneg; omega
    exact ⟨by simp only at hneg ⊢; omega, c.settled w, ⟨c, hc, rfl⟩, by simpa only [hxa] using hx'⟩
  · rintro ⟨hpos, _, ⟨c, hc, rfl⟩, hx⟩
    rw [Constraint.settled_literals] at hx
    exact ⟨(c.id, -a), ⟨c, hc, -a, hx, rfl⟩, by simp only; omega, by simp only; omega⟩

theorem total_occurrences : Occurrences.total net.positive + Occurrences.total net.negative =
    (net.constraints.map (·.literals.length)).sum := by
  obtain ⟨-, w, -, rfl⟩ := assemble_eq_ok_iff_admissible.1 h
  simp only [indexOf, Index.total_ofMentions, List.length_flatMap, mentions, List.length_map,
    Constraint.shape, List.map_map, Function.comp_def, Constraint.settled_literals]

theorem maxWidth_eq : net.maxWidth = (net.constraints.map Constraint.size).foldl max 0 := by
  obtain ⟨-, w, -, rfl⟩ := assemble_eq_ok_iff_admissible.1 h
  have hsize : ∀ c : Constraint α, (c.settled w).size = c.size := by simp [Constraint.size]
  simp only [List.map_map, Function.comp_def, hsize]

end

/-! ## Assembly as a whole -/

/-- The network holds the given parts, with the hard weight on the hard constraints, and lists for
each atom the constraints that mention it. -/
structure Assembled (net : Network α) (constraints : List (Constraint α)) (atoms : List GroundAtom)
    (weightHard : α) (first last : Int) (deps : Option DependencyMap) : Prop where
  kept : List.Forall₂ (fun c d => d.id = c.id ∧ d.literals = c.literals ∧ d.isHard = c.isHard ∧
    d.weight = if c.isHard then weightHard else c.weight) constraints net.constraints
  atoms_eq : net.atoms = atoms
  weightHard_eq : net.weightHard = weightHard
  query_eq : net.queryFirst = first ∧ net.queryLast = last
  dependencies_eq : net.dependencies = deps
  /-- The constraints in the given order, each once per occurrence of the literal. -/
  positive : ∀ a, 0 < a → net.positiveOccurrences a =
    net.constraints.flatMap fun c => List.replicate (c.literals.count a) c
  negative : ∀ a, 0 < a → net.negativeOccurrences a =
    net.constraints.flatMap fun c => List.replicate (c.literals.count (-a)) c
  /-- Only an atom with occurrences is a key. -/
  positive_keys : ∀ a, a ∈ net.positive.keys ↔ 0 < a ∧ net.positiveOccurrences a ≠ []
  negative_keys : ∀ a, a ∈ net.negative.keys ↔ 0 < a ∧ net.negativeOccurrences a ≠ []
  total : Occurrences.total net.positive + Occurrences.total net.negative =
    (constraints.map (·.literals.length)).sum
  width_le : ∀ c ∈ constraints, c.literals.length ≤ net.maxWidth
  width_attained : (constraints = [] ∧ net.maxWidth = 0) ∨
    ∃ c ∈ constraints, c.literals.length = net.maxWidth
  /-- The views go through the constraints and the atoms in ascending order. -/
  constraints_perm : net.orderedConstraints.Perm net.constraints
  constraints_ascending : (net.orderedConstraints.map (·.id)).Pairwise (· < ·)
  atoms_perm : net.orderedAtoms.Perm atoms
  atoms_ascending : (net.orderedAtoms.map (·.id)).Pairwise (· < ·)

section

variable [WeightArith α] {constraints : List (Constraint α)} {atoms : List GroundAtom}
  {weightHard w : α} {first last : Int} {deps : Option DependencyMap} {net : Network α}

omit [WeightArith α] in
theorem kept_map_settled (constraints : List (Constraint α)) :
    List.Forall₂ (fun c d => d.id = c.id ∧ d.literals = c.literals ∧ d.isHard = c.isHard ∧
      d.weight = if c.isHard then w else c.weight) constraints
      (constraints.map (Constraint.settled w)) := by
  rw [List.forall₂_map_right_iff, List.forall₂_same]
  intro c _
  refine ⟨c.settled_id w, c.settled_literals w, c.settled_isHard w, ?_⟩
  unfold Constraint.settled
  split <;> rfl

theorem width_attained_of_assemble
    (h : assemble constraints atoms weightHard first last deps = .ok net) :
    (constraints = [] ∧ net.maxWidth = 0) ∨
      ∃ c ∈ constraints, c.literals.length = net.maxWidth := by
  obtain ⟨had, w, -, rfl⟩ := assemble_eq_ok_iff_admissible.1 h
  rcases List.mem_cons.1 (foldl_max_mem (constraints.map Constraint.size) 0) with hzero | hmem
  · cases constraints with
    | nil => exact .inl ⟨rfl, rfl⟩
    | cons c cs =>
      -- a constraint has literals, so the width cannot be zero
      have hle := (foldl_max_le_iff.1 hzero.le).2 c.size (by simp)
      exact absurd (List.length_eq_zero_iff.1 (Nat.le_zero.1 hle))
        (had.literals_ne c List.mem_cons_self)
  · obtain ⟨c, hc, hsize⟩ := List.mem_map.1 hmem
    exact .inr ⟨c, hc, hsize⟩

theorem assembled_of_assemble (hw : WeightArith.settle weightHard = .ok w)
    (h : assemble constraints atoms weightHard first last deps = .ok net) :
    net.Assembled constraints atoms w first last deps := by
  have had := admissible_of_assemble h
  have hpositive := fun a (ha : 0 < a) => positiveOccurrences_eq h ha
  have hnegative := fun a (ha : 0 < a) => negativeOccurrences_eq h ha
  have hpositiveKeys := fun a => mem_positive_keys_iff h (a := a)
  have hnegativeKeys := fun a => mem_negative_keys_iff h (a := a)
  have htotal := total_occurrences h
  have hwidth := maxWidth_eq h
  have hattained := width_attained_of_assemble h
  obtain ⟨-, w', hw', hnet⟩ := assemble_eq_ok_iff_admissible.1 h
  obtain rfl := Except.ok.inj (hw.symm.trans hw')
  have hconstraints : net.constraints = constraints.map (Constraint.settled w) := by rw [hnet]
  have hlengths : net.constraints.map (·.literals.length) =
      constraints.map (·.literals.length) := by simp [hconstraints]
  constructor
  case kept => exact hconstraints ▸ kept_map_settled constraints
  case atoms_eq => rw [hnet]
  case weightHard_eq => rw [hnet]
  case query_eq => rw [hnet]; exact ⟨rfl, rfl⟩
  case dependencies_eq => rw [hnet]
  case positive => exact hpositive
  case negative => exact hnegative
  case positive_keys =>
    intro a
    rw [hpositiveKeys]
    refine and_congr_right fun ha => ?_
    simp [hpositive a ha, List.count_eq_zero]
  case negative_keys =>
    intro a
    rw [hnegativeKeys]
    refine and_congr_right fun ha => ?_
    simp [hnegative a ha, List.count_eq_zero]
  case total => rw [htotal, hlengths]
  case width_le =>
    intro c hc
    refine (foldl_max_le_iff.1 hwidth.ge).2 _ ?_
    have hmem : c.literals.length ∈ constraints.map (·.literals.length) := List.mem_map_of_mem hc
    rwa [← hlengths] at hmem
  case width_attained => exact hattained
  case constraints_perm => exact List.mergeSort_perm _ _
  case constraints_ascending => exact ascending_mergeSort _ had.ids_nodup
  case atoms_perm =>
    have hatoms : net.atoms = atoms := by rw [hnet]
    exact hatoms ▸ List.mergeSort_perm _ _
  case atoms_ascending => exact ascending_mergeSort _ had.atoms_nodup

variable (constraints atoms first last deps) in
/-- **Assembly validates exactly and indexes exactly.** With a hard weight that settles, admissible
parts make a network that holds and lists them, and all others are refused with an error that names
a fault of theirs. -/
theorem assembles_exactly (hw : WeightArith.settle weightHard = .ok w) :
    (Admissible constraints atoms first last ∧
        ∃ net, assemble constraints atoms weightHard first last deps = .ok net ∧
          net.Assembled constraints atoms w first last deps) ∨
      (¬ Admissible constraints atoms first last ∧
        ∃ e, assemble constraints atoms weightHard first last deps = .error e ∧
          e.Faults constraints atoms first last) := by
  cases h : assemble constraints atoms weightHard first last deps with
  | ok net =>
    exact .inl ⟨(assemble_eq_ok_iff_admissible.1 h).1, net, rfl, assembled_of_assemble hw h⟩
  | error e =>
    refine .inr ⟨fun had => ?_, e, rfl, faults_of_assemble hw h⟩
    have hok : ∃ net, assemble constraints atoms weightHard first last deps = .ok net :=
      ⟨_, assemble_eq_ok_iff_admissible.2 ⟨had, w, hw, rfl⟩⟩
    obtain ⟨net, hnet⟩ := hok
    rw [h] at hnet
    cases hnet

end

/-- Constraints out of order that repeat literals, one of them hard. -/
def knotted : List (Constraint Number) :=
  [⟨4, [1, -2, 1, -1], .real 0.5, false⟩, ⟨0, [-2, 1, -2], .int 0, true⟩,
    ⟨2, [2, 2], .real (-1.0), false⟩]

/-- They are assembled with both atoms and refused with one. -/
theorem assembles_exactly_knotted :
    WeightArith.settle (Number.int 7) = .ok (.real 7.0) ∧
      (∃ net, assemble knotted [⟨2, true⟩, ⟨1, false⟩] (.int 7) 1 0 none = .ok net ∧
        net.Assembled knotted [⟨2, true⟩, ⟨1, false⟩] (.real 7.0) 1 0 none) ∧
      ∃ e, assemble knotted [⟨1, false⟩] (.int 7) 1 0 none = .error e ∧
        e.Faults knotted [⟨1, false⟩] 1 0 := by
  have hw : WeightArith.settle (Number.int 7) = .ok (.real 7.0) := by rfl
  refine ⟨hw, ?_, ?_⟩
  · rcases assembles_exactly knotted [⟨2, true⟩, ⟨1, false⟩] 1 0 none hw with ⟨-, h⟩ | ⟨hnot, -⟩
    · exact h
    · have hids : (knotted.map (·.id)).Nodup := by decide
      have hrest : ∀ c ∈ knotted, c.id ≠ -1 ∧ c.literals ≠ [] ∧
          ∀ x ∈ c.literals, ∃ a ∈ ([⟨2, true⟩, ⟨1, false⟩] : List GroundAtom), a.id = x.natAbs := by
        simp [knotted]
      exact absurd ⟨by decide, by decide, by decide, hids, fun c hc => (hrest c hc).1,
        fun c hc => (hrest c hc).2.1, fun c hc => (hrest c hc).2.2⟩ hnot
  · rcases assembles_exactly knotted [⟨1, false⟩] 1 0 none hw with ⟨had, -⟩ | ⟨-, h⟩
    · obtain ⟨a, ha, hid⟩ := had.known _ (List.mem_cons_self) (-2) (by decide)
      rw [List.mem_singleton.1 ha] at hid
      exact absurd hid (by decide)
    · exact h

end Network

end MarkovLogic
