import MarkovLogic.Proofs.Network.Dependencies
import MarkovLogic.Proofs.Network.PrescribedWeights
import MarkovLogic.Proofs.Distinct

/-!
# Refused reweightings

There are four faults that the inputs of a reweighting can have (`Network.HasFault`), and it looks
for them in one order. Inputs with a fault are refused with an error that reports the first one
(`Network.checkReweight_of_firstFault`), and inputs without a fault pass. So, with frequencies that
convert, a reweighting fails exactly for inputs with a fault, and then it has changed nothing
(`Network.decided_of_convertible`).
-/

namespace MarkovLogic

/-! ## Faults -/

/-- What may be wrong with the inputs of a reweighting. -/
inductive InputFault where
  | noDependencies
  | lengths
  | noEntry
  | missingFormula
deriving DecidableEq, Repr

/-- The place of a fault in the order in which faults are looked for. -/
def InputFault.rank : InputFault → Nat
  | .noDependencies => 0
  | .lengths => 1
  | .noEntry => 2
  | .missingFormula => 3

/-- The kinds of errors that end a reweighting. -/
inductive ReweightErrorKind where
  | missingDependencies
  | malformedInput
  | overflow
deriving DecidableEq, Repr

/-- The kind of error that a fault leads to. -/
def InputFault.kind : InputFault → ReweightErrorKind
  | .noDependencies => .missingDependencies
  | .lengths => .malformedInput
  | .noEntry => .missingDependencies
  | .missingFormula => .malformedInput

/-- The kind of an error. -/
def ReweightError.kind : ReweightError → ReweightErrorKind
  | .noDependencies => .missingDependencies
  | .lengths _ _ => .malformedInput
  | .noEntry _ => .missingDependencies
  | .missingFormula _ _ => .malformedInput
  | .overflow _ => .overflow

namespace Network

section

variable {α : Type} (net : Network α) (weights flags : Nat)

/-- The network has the fault as an input, together with that many weights and hard flags of
formulas. A formula is missing also when only an entry of no constraint mentions it. -/
def HasFault : InputFault → Prop
  | .noDependencies => net.dependencies = none
  | .lengths => weights ≠ flags
  | .noEntry => ∃ deps, net.dependencies = some deps ∧
      ∃ c ∈ net.constraints, deps.contains c.id = false
  | .missingFormula => ∃ deps, net.dependencies = some deps ∧
      ∃ e ∈ deps.entries.toList, ∃ i ∈ e.2.keys, weights ≤ i

/-- The fault is there and none that is looked for before it. -/
def FirstFault (fault : InputFault) : Prop :=
  net.HasFault weights flags fault ∧
    ∀ earlier : InputFault, earlier.rank < fault.rank → ¬ net.HasFault weights flags earlier

/-- The error shows the fault: the lengths, the first constraint without an entry or the last
formula that is recorded. -/
def Reports : ReweightError → InputFault → Prop
  | .noDependencies, .noDependencies => True
  | .lengths n m, .lengths => n = weights ∧ m = flags
  | .noEntry id, .noEntry => ∃ deps, net.dependencies = some deps ∧
      (∃ c ∈ net.constraints, c.id = id ∧ deps.contains c.id = false) ∧
      ∀ c ∈ net.constraints, deps.contains c.id = false → id ≤ c.id
  | .missingFormula formula n, .missingFormula => n = weights ∧
      ∃ deps, net.dependencies = some deps ∧ (∃ e ∈ deps.entries.toList, formula ∈ e.2.keys) ∧
      ∀ e ∈ deps.entries.toList, ∀ i ∈ e.2.keys, i ≤ formula
  | _, _ => False

variable {net weights flags}

theorem kind_eq_of_reports {e : ReweightError} {fault : InputFault}
    (h : net.Reports weights flags e fault) : e.kind = fault.kind := by
  cases e <;> cases fault <;> first | rfl | exact h.elim

/-- Inputs with a fault have a first one. -/
theorem exists_firstFault {fault : InputFault} (h : net.HasFault weights flags fault) :
    ∃ first, net.FirstFault weights flags first := by
  induction hr : fault.rank using Nat.strongRecOn generalizing fault with
  | _ r ih =>
    by_cases hearlier : ∃ earlier : InputFault,
        earlier.rank < fault.rank ∧ net.HasFault weights flags earlier
    · obtain ⟨earlier, hlt, hfault⟩ := hearlier
      exact ih _ (hr ▸ hlt) hfault rfl
    · exact ⟨fault, h, fun earlier hlt hfault => hearlier ⟨earlier, hlt, hfault⟩⟩

/-! ## What the checks find -/

variable {deps : DependencyMap}

/-- The constraint that is found has the least number of those without an entry. -/
theorem withoutEntry?_eq_some {id : Int} (h : net.withoutEntry? deps = some id) :
    (∃ c ∈ net.constraints, c.id = id ∧ deps.contains c.id = false) ∧
      ∀ c ∈ net.constraints, deps.contains c.id = false → id ≤ c.id := by
  have hmem : ∀ c, c ∈ net.orderedConstraints ↔ c ∈ net.constraints :=
    fun c => (List.mergeSort_perm _ _).mem_iff
  have hsorted : net.orderedConstraints.Pairwise fun c d => c.id ≤ d.id :=
    pairwise_le_mergeSort Constraint.id net.constraints
  obtain ⟨c, hfind, rfl⟩ := Option.map_eq_some_iff.1 h
  obtain ⟨hc, before, behind, hsplit, hbefore⟩ := List.find?_eq_some_iff_append.1 hfind
  refine ⟨⟨c, (hmem c).1 (List.mem_of_find?_eq_some hfind), rfl, by simpa using hc⟩, ?_⟩
  intro d hd hnone
  rw [← hmem, hsplit] at hd
  rw [hsplit, List.pairwise_append, List.pairwise_cons] at hsorted
  rcases List.mem_append.1 hd with hd | hd
  · have := hbefore d hd
    simp [hnone] at this
  · rcases List.mem_cons.1 hd with rfl | hd
    · exact Int.le_refl _
    · exact hsorted.2.1.1 d hd

theorem withoutEntry?_eq_none_iff : net.withoutEntry? deps = none ↔
    ∀ c ∈ net.constraints, deps.contains c.id = true := by
  have hmem : ∀ c, c ∈ net.orderedConstraints ↔ c ∈ net.constraints :=
    fun c => (List.mergeSort_perm _ _).mem_iff
  unfold withoutEntry?
  simp [List.find?_eq_none, hmem]

end

section

variable {net : Network Number} {xs : List Float} {hardFlags : List Bool} {deps : DependencyMap}

theorem mapM_settle_reals (xs : List Float) :
    (xs.map Number.real).mapM WeightArith.settle = .ok (xs.map .real) := by
  refine Number.mapM_settle_eq_ok_iff.2 ⟨xs, mapM_eq_ok_iff.2 ?_, rfl⟩
  rw [List.forall₂_map_left_iff, List.forall₂_same]
  exact fun x _ => rfl

/-- The checks one after the other. -/
theorem checkReweight_reals (hdeps : net.dependencies = some deps) :
    net.checkReweight (xs.map .real) hardFlags =
      if xs.length ≠ hardFlags.length then .error (.lengths xs.length hardFlags.length)
      else
        match net.withoutEntry? deps, deps.formulaIndices.max? with
        | some id, _ => .error (.noEntry id)
        | none, some formula =>
          if xs.length ≤ formula then .error (.missingFormula formula xs.length)
          else .ok (deps, .reals xs hardFlags)
        | none, none => .ok (deps, .reals xs hardFlags) := by
  simp only [checkReweight, hdeps, mapM_settle_reals, Except.mapError, bind, Except.bind, pure,
    Except.pure, throw, throwThe, MonadExceptOf.throw, List.length_map]
  split
  · rfl
  · cases net.withoutEntry? deps with
    | some id => rfl
    | none =>
      cases deps.formulaIndices.max? with
      | none => rfl
      | some formula => simp only; split <;> rfl

/-- A fault that comes after the first is looked for in dependencies that are there. -/
theorem FirstFault.exists_dependencies {weights flags : Nat} {fault : InputFault}
    (h : net.FirstFault weights flags fault) (hrank : 0 < fault.rank) :
    ∃ deps, net.dependencies = some deps :=
  Option.ne_none_iff_exists'.1 (h.2 .noDependencies hrank)

/-- **Inputs with a fault are refused with an error that reports the first one.** -/
theorem checkReweight_of_firstFault {fault : InputFault}
    (h : net.FirstFault xs.length hardFlags.length fault) :
    ∃ e, net.checkReweight (xs.map .real) hardFlags = .error e ∧
      net.Reports xs.length hardFlags.length e fault := by
  cases fault with
  | noDependencies =>
    refine ⟨.noDependencies, ?_, trivial⟩
    have hnone : net.dependencies = none := h.1
    rw [checkReweight, hnone]
  | lengths =>
    obtain ⟨deps, hdeps⟩ := h.exists_dependencies (by decide)
    have hne : xs.length ≠ hardFlags.length := h.1
    exact ⟨.lengths xs.length hardFlags.length, by rw [checkReweight_reals hdeps, if_pos hne],
      rfl, rfl⟩
  | noEntry =>
    obtain ⟨deps, hdeps, c, hc, hmissing⟩ := h.1
    have hlengths : ¬ xs.length ≠ hardFlags.length := h.2 .lengths (by decide)
    rw [checkReweight_reals hdeps, if_neg hlengths]
    cases hfind : net.withoutEntry? deps with
    | none =>
      rw [withoutEntry?_eq_none_iff.1 hfind c hc] at hmissing
      cases hmissing
    | some id => exact ⟨.noEntry id, rfl, deps, hdeps, withoutEntry?_eq_some hfind⟩
  | missingFormula =>
    obtain ⟨deps, hdeps, e, he, i, hi, hle⟩ := h.1
    have hlengths : ¬ xs.length ≠ hardFlags.length := h.2 .lengths (by decide)
    have hentries : net.withoutEntry? deps = none := by
      refine withoutEntry?_eq_none_iff.2 fun c hc => ?_
      by_contra hmissing
      exact h.2 .noEntry (by decide) ⟨deps, hdeps, c, hc, by simpa using hmissing⟩
    have hmem : i ∈ deps.formulaIndices := DependencyMap.mem_formulaIndices.2 ⟨e, he, hi⟩
    rw [checkReweight_reals hdeps, if_neg hlengths, hentries]
    cases hmax : deps.formulaIndices.max? with
    | none =>
      rw [List.max?_eq_none_iff.1 hmax] at hmem
      cases hmem
    | some formula =>
      obtain ⟨hformula, hlargest⟩ := List.max?_eq_some_iff.1 hmax
      refine ⟨.missingFormula formula xs.length, if_pos (hle.trans (hlargest i hmem)), rfl, deps,
        hdeps, DependencyMap.mem_formulaIndices.1 hformula, fun e he i hi => ?_⟩
      exact hlargest i (DependencyMap.mem_formulaIndices.2 ⟨e, he, hi⟩)

/-! ## How a reweighting ends -/

/-- The frequencies recorded for the constraints of the network have floating-point values. -/
def Convertible (net : Network Number) : Prop :=
  ∀ deps, net.dependencies = some deps → ∀ c ∈ net.constraints, ∀ e ∈ deps.recorded c.id,
    ∃ y, Number.realOfInt e.2 = .ok y

/-- Inputs without a fault are all that a reweighting needs. -/
theorem exists_supplied (hconv : net.Convertible)
    (h : ∀ fault, ¬ net.HasFault xs.length hardFlags.length fault) :
    ∃ deps, net.Supplied deps (xs.map .real) xs hardFlags := by
  obtain ⟨deps, hdeps⟩ := Option.ne_none_iff_exists'.1 (h .noDependencies)
  refine ⟨deps, {
    dependencies := hdeps
    weights := ?_
    lengths := Decidable.not_not.1 (h .lengths)
    entries := ?_
    formulas := ?_
    frequencies := hconv deps hdeps }⟩
  · rw [mapM_eq_ok_iff, List.forall₂_map_left_iff, List.forall₂_same]
    exact fun x _ => rfl
  · intro c hc
    by_contra hmissing
    exact h .noEntry ⟨deps, hdeps, c, hc, by simpa using hmissing⟩
  · intro i hi
    obtain ⟨e, he, hie⟩ := DependencyMap.mem_formulaIndices.1 hi
    by_contra hle
    exact h .missingFormula ⟨deps, hdeps, e, he, i, hie, Nat.le_of_not_lt hle⟩

/-- The faults of its inputs decide how a reweighting ends. -/
structure Decided (net : Network Number) (xs : List Float) (hardFlags : List Bool)
    (policy : MixedPolicy) : Prop where
  /-- It fails exactly if there is a fault. -/
  fails_iff : (∃ e, (net.reweight (xs.map .real) hardFlags policy).2 = .error e) ↔
    ∃ fault, net.HasFault xs.length hardFlags.length fault
  /-- With a fault it leaves the network as it was and fails with an error of the kind of the first
  fault, which the error reports. -/
  refuses : ∀ fault, net.FirstFault xs.length hardFlags.length fault → ∃ e,
    net.reweight (xs.map .real) hardFlags policy = (net, .error e) ∧ e.kind = fault.kind ∧
      net.Reports xs.length hardFlags.length e fault
  /-- Without a fault it gives every constraint the weight that its recorded contributions
  prescribe, and returns their number. -/
  completes : (∀ fault, ¬ net.HasFault xs.length hardFlags.length fault) → ∃ deps w,
    net.dependencies = some deps ∧ net.weightHard = .real w ∧
      net.reweight (xs.map .real) hardFlags policy =
        (net.withPrescribed deps xs hardFlags w policy, .ok net.constraints.length)

/-- **When reweighting fails.** The faults of the inputs decide it: the first one is what the error
reports, and a refused reweighting changes nothing. -/
theorem decided_of_convertible (hmade : net.Made) (hconv : net.Convertible) (xs : List Float)
    (hardFlags : List Bool) (policy : MixedPolicy) : net.Decided xs hardFlags policy := by
  have hrefuses : ∀ fault, net.FirstFault xs.length hardFlags.length fault → ∃ e,
      net.reweight (xs.map .real) hardFlags policy = (net, .error e) ∧ e.kind = fault.kind ∧
        net.Reports xs.length hardFlags.length e fault := by
    intro fault h
    obtain ⟨e, he, hreports⟩ := checkReweight_of_firstFault h
    exact ⟨e, by rw [reweight, he], kind_eq_of_reports hreports, hreports⟩
  have hcompletes : (∀ fault, ¬ net.HasFault xs.length hardFlags.length fault) → ∃ deps w,
      net.dependencies = some deps ∧ net.weightHard = .real w ∧
        net.reweight (xs.map .real) hardFlags policy =
          (net.withPrescribed deps xs hardFlags w policy, .ok net.constraints.length) := by
    intro h
    obtain ⟨deps, hsupplied⟩ := exists_supplied hconv h
    obtain ⟨w₀, hw₀⟩ := hmade.exists_settle
    obtain ⟨w, -, hw⟩ := Number.settle_eq_ok_iff.1 hw₀
    exact ⟨deps, w, hsupplied.dependencies, hw, reweight_of_supplied hmade hw hsupplied⟩
  refine ⟨⟨?_, ?_⟩, hrefuses, hcompletes⟩
  · rintro ⟨e, he⟩
    by_contra hnone
    obtain ⟨deps, w, -, -, hok⟩ := hcompletes fun fault hfault => hnone ⟨fault, hfault⟩
    rw [hok] at he
    cases he
  · rintro ⟨fault, hfault⟩
    obtain ⟨first, hfirst⟩ := exists_firstFault hfault
    obtain ⟨e, he, -⟩ := hrefuses first hfirst
    exact ⟨e, congrArg Prod.snd he⟩

/-! ## A formula that only a stray entry mentions -/

/-- The first formula produced constraint 0, and the fourth a constraint that there is not. -/
def strayDependencies : DependencyMap :=
  ⟨Table.ofList [(5, Table.ofList [(3, 2)]), (0, Table.ofList [(0, -1)])]⟩

def strayNetwork : Network Number where
  constraints := [⟨0, [1], .real 0.5, false⟩]
  atoms := [⟨1, true⟩]
  weightHard := .real 10.0
  queryFirst := 1
  queryLast := 1
  dependencies := some strayDependencies
  positive := Table.ofList [(1, [0])]
  negative := Table.empty
  maxWidth := 1

theorem made_strayNetwork : strayNetwork.Made := by
  have hassemble : assemble [⟨0, [1], .real 0.5, false⟩] [⟨1, true⟩] (.real 10.0) 1 1
      (some strayDependencies) = .ok strayNetwork := rfl
  exact .assembled hassemble

theorem convertible_strayNetwork : strayNetwork.Convertible := by
  rintro deps hdeps c hc e he
  obtain rfl := Option.some.inj hdeps
  obtain rfl := List.mem_singleton.1 hc
  obtain rfl := List.mem_singleton.1 he
  exact ⟨-1.0, rfl⟩

/-- The weights of three formulas do not reach the fourth. -/
theorem firstFault_strayNetwork : strayNetwork.FirstFault 3 3 .missingFormula := by
  refine ⟨⟨strayDependencies, rfl, _, List.mem_cons_self, 3, by decide, le_rfl⟩, ?_⟩
  intro earlier hlt h
  cases earlier with
  | noDependencies => cases h
  | lengths => exact h rfl
  | noEntry =>
    obtain ⟨deps, hdeps, c, hc, hmissing⟩ := h
    obtain rfl := Option.some.inj hdeps
    obtain rfl := List.mem_singleton.1 hc
    cases hmissing
  | missingFormula => exact absurd hlt (by decide)

/-- Three weights are too few, and so are as many weights as flags when there is no flag; four of
each are enough. -/
theorem decided_strayNetwork : strayNetwork.Made ∧ strayNetwork.Convertible ∧
    (∃ e, strayNetwork.reweight ([0.5, 1.0, 2.0].map .real) [false, false, true] .hardWins =
      (strayNetwork, .error e) ∧ e.kind = .malformedInput ∧
        strayNetwork.Reports 3 3 e .missingFormula) ∧
    (∃ e, (strayNetwork.reweight ([0.5].map .real) [] .sequential).2 = .error e) ∧
    ((strayNetwork.reweight ([0.5, 1.0, 2.0, 3.0].map .real) [false, false, true, false]
      .hardWins).1.constraints.map (·.weight)) = [.real (-0.5)] := by
  have hdecided := decided_of_convertible made_strayNetwork convertible_strayNetwork
  refine ⟨made_strayNetwork, convertible_strayNetwork, ?_, ?_, ?_⟩
  · exact (hdecided [0.5, 1.0, 2.0] [false, false, true] .hardWins).refuses _
      firstFault_strayNetwork
  · exact (hdecided [0.5] [] .sequential).fails_iff.2 ⟨.lengths, Nat.one_ne_zero⟩
  · have hnone : ∀ fault, ¬ strayNetwork.HasFault 4 4 fault := by
      intro fault h
      cases fault with
      | noDependencies => cases h
      | lengths => exact h rfl
      | noEntry =>
        obtain ⟨deps, hdeps, c, hc, hmissing⟩ := h
        obtain rfl := Option.some.inj hdeps
        obtain rfl := List.mem_singleton.1 hc
        cases hmissing
      | missingFormula =>
        obtain ⟨deps, hdeps, e, he, i, hi, hle⟩ := h
        obtain rfl := Option.some.inj hdeps
        have hall : ∀ e ∈ strayDependencies.entries.toList, ∀ i ∈ e.2.keys, i < 4 := by decide
        exact absurd hle (hall e he i hi).not_ge
    obtain ⟨deps, w, hdeps, hw, hreweight⟩ := (hdecided [0.5, 1.0, 2.0, 3.0]
      [false, false, true, false] .hardWins).completes hnone
    obtain rfl := Option.some.inj hdeps
    rw [hreweight]
    rfl

end

end Network

end MarkovLogic
