import MarkovLogic.Proofs.Network.Operations

/-!
# What persists over a run of operations

Numbers, literals, hardness, occurrence tables and query range of an assembled network stay as they
are over every run of operations, and only assigned weights differ. The occurrence views, the
ordered view and the lookup by number show the same constraints at every moment, because each shows
what the numbers look up (`Network.Persists`). So a weight that a write or a reweighting assigns
through one view is seen through all of them.

A number in a view stands for a reference to a constraint that all views share. This is faithful as
long as equal numbers mean the same constraint, and they do: the numbers of an assembled network are
distinct (`Made.nodup_ids`) and stay so over every run, because no operation changes a number
(`Persists.constraints_eq`).
-/

namespace MarkovLogic

namespace Network

/-! ## Views of a network with other weights -/

section

variable {net net' : Network Number} {g : Constraint Number → Constraint Number}
  (hg : ∀ c, (g c).id = c.id) (h : net'.constraints = net.constraints.map g)

include hg h

theorem constraint?_map (id : Int) : net'.constraint? id = (net.constraint? id).map g := by
  unfold constraint?
  rw [h, List.find?_map]
  congr 1
  congr 1
  funext c
  rw [Function.comp_apply, hg]

theorem listed_map (table : Occurrences) (a : Int) :
    net'.listed table a = (net.listed table a).map g := by
  unfold listed
  rw [List.map_filterMap]
  exact List.filterMap_congr fun id _ => constraint?_map hg h id

theorem orderedConstraints_map : net'.orderedConstraints = net.orderedConstraints.map g := by
  unfold orderedConstraints
  rw [h]
  symm
  apply List.map_mergeSort
  intro a _ b _
  rw [hg, hg]

theorem lookup_eq (hn : (net.constraints.map (·.id)).Nodup) {c : Constraint Number}
    (hc : c ∈ net.constraints) : net'.lookup c.id = g c := by
  rw [lookup, constraint?_map hg h, (constraint?_eq_some_iff hn).2 ⟨hc, rfl⟩]
  rfl

end

theorem listed_subset (net : Network Number) (table : Occurrences) (a : Int) :
    net.listed table a ⊆ net.constraints := by
  intro c hc
  obtain ⟨id, -, hid⟩ := List.mem_filterMap.1 hc
  exact List.mem_of_find?_eq_some hid

/-! ## Assembled networks -/

/-- After a run of operations on a network, and whatever is tried next, its structure is what it
was, all views show the same constraints, and only assigned weights differ. -/
structure Persists (net : Network Number) (ops : List (Operation Number)) : Prop where
  /-- Numbers, literals and hardness stay, and a weight is the one assigned last. -/
  constraints_eq : (net.after ops).constraints =
    net.constraints.map fun c => { c with weight := (net.lastAssigned? c ops).getD c.weight }
  atoms_eq : (net.after ops).atoms.map (·.id) = net.atoms.map (·.id)
  /-- The occurrence tables, the greatest width, the query range and the hard weight stay. -/
  rest_eq : net.after ops = { net with
    constraints := (net.after ops).constraints, atoms := (net.after ops).atoms }
  positive_eq : ∀ a, (net.after ops).positiveOccurrences a =
    (net.positiveOccurrences a).map fun c => (net.after ops).lookup c.id
  negative_eq : ∀ a, (net.after ops).negativeOccurrences a =
    (net.negativeOccurrences a).map fun c => (net.after ops).lookup c.id
  neighbours_eq : ∀ a, (net.after ops).neighbours a =
    (net.neighbours a).map fun c => (net.after ops).lookup c.id
  ordered_eq : (net.after ops).orderedConstraints =
    net.orderedConstraints.map fun c => (net.after ops).lookup c.id
  lookup_eq : ∀ c ∈ net.constraints, (net.after ops).lookup c.id =
    { c with weight := (net.lastAssigned? c ops).getD c.weight }
  lookup_absent : ∀ id ∉ net.constraints.map (·.id), (net.after ops).lookup id = .absent
  fetchAtom_absent : ∀ literal : Int, (literal.natAbs : Int) ∉ net.atoms.map (·.id) →
    (net.after ops).fetchAtom literal = .absent
  /-- A weight that differs has been assigned by an operation, and by none after that one. -/
  assigned : ∀ c ∈ net.constraints, ((net.after ops).lookup c.id).weight ≠ c.weight →
    ∃ pre op post, ops = pre ++ op :: post ∧
      (net.after pre).assigned? c op = some ((net.after ops).lookup c.id).weight ∧
      (net.after (pre ++ [op])).lastAssigned? c post = none
  /-- The forbidden edits are refused and change nothing. -/
  refused : ∀ op e, net.Forbidden op e ↔
    (net.after ops).perform op = (net.after ops, .refused e)
  /-- A reweighting that fails other than by overflow changes nothing. -/
  failed : ∀ op e, ((net.after ops).perform op).2 = .failed e → e ≠ .overflow .tooLarge →
    (net.after ops).perform op = (net.after ops, .failed e)

/-- What is forbidden depends on the numbers in use only. -/
theorem Forbidden.congr {α : Type} {net net' : Network α} {op : Operation α} {e : EditError}
    (hids : net'.constraints.map (·.id) = net.constraints.map (·.id))
    (hatoms : net'.atoms.map (·.id) = net.atoms.map (·.id)) (h : net.Forbidden op e) :
    net'.Forbidden op e := by
  cases h with
  | frozenField field h => exact .frozenField field (hids ▸ h)
  | noConstraint edit h => exact .noConstraint edit (hids ▸ h)
  | atomId h => exact .atomId (hatoms ▸ h)
  | noAtom edit h => exact .noAtom edit (hatoms ▸ h)

/-- A reweighting that fails other than by overflow changes nothing. -/
theorem perform_eq_of_failed {net : Network Number} (hmade : net.Made) {op : Operation Number}
    {e : ReweightError} (h : (net.perform op).2 = .failed e) (he : e ≠ .overflow .tooLarge) :
    net.perform op = (net, .failed e) := by
  refine Prod.ext ?_ h
  cases op with
  | editConstraint id edit =>
    rw [perform] at h
    cases hr : net.editConstraint id edit <;> rw [hr] at h <;> cases h
  | editAtom literal edit =>
    rw [perform] at h
    cases hr : net.editAtom literal edit <;> rw [hr] at h <;> cases h
  | reweight weights hardFlags policy =>
    cases hr : net.reweight weights hardFlags policy with
    | mk net' result =>
      simp only [perform, hr] at h ⊢
      cases result with
      | ok count => cases h
      | error e' =>
        obtain rfl := Answer.failed.inj h
        rcases unchanged_or_interrupted hmade hr with hsame | ⟨hover, -⟩
        · exact hsame
        · exact absurd hover he

theorem Made.persists {net : Network Number} (hmade : net.Made) (ops : List (Operation Number)) :
    net.Persists ops := by
  have hn := hmade.nodup_ids
  obtain ⟨atoms, hatoms, hafter⟩ := after_eq hmade ops
  have hconstraints := congrArg constraints hafter
  have hatoms' : (net.after ops).atoms.map (·.id) = net.atoms.map (·.id) :=
    (congrArg (·.atoms.map (·.id)) hafter).trans hatoms
  have hids : (net.after ops).constraints.map (·.id) = net.constraints.map (·.id) := by
    rw [hconstraints, List.map_map]
    exact List.map_congr_left fun c _ => rfl
  have hg : ∀ c : Constraint Number, (c.assign (net.lastAssigned? c ops)).id = c.id :=
    fun c => rfl
  have hlookup : ∀ c ∈ net.constraints,
      (net.after ops).lookup c.id = c.assign (net.lastAssigned? c ops) :=
    fun c hc => lookup_eq hg hconstraints hn hc
  -- a view of the constraints shows what their numbers look up
  have hview : ∀ {cs : List (Constraint Number)}, cs ⊆ net.constraints →
      cs.map (fun c => c.assign (net.lastAssigned? c ops)) =
        cs.map fun c => (net.after ops).lookup c.id :=
    fun hcs => List.map_congr_left fun c hc => (hlookup c (hcs hc)).symm
  have hlisted : ∀ table a, (net.after ops).listed table a =
      (net.listed table a).map fun c => (net.after ops).lookup c.id := fun table a =>
    (listed_map hg hconstraints table a).trans (hview (listed_subset net table a))
  have hpositive : ∀ a, (net.after ops).positiveOccurrences a =
      (net.positiveOccurrences a).map fun c => (net.after ops).lookup c.id := by
    intro a
    unfold positiveOccurrences
    rw [congrArg positive hafter, hlisted]
  have hnegative : ∀ a, (net.after ops).negativeOccurrences a =
      (net.negativeOccurrences a).map fun c => (net.after ops).lookup c.id := by
    intro a
    unfold negativeOccurrences
    rw [congrArg negative hafter, hlisted]
  refine {
    constraints_eq := hconstraints
    atoms_eq := hatoms'
    rest_eq := ?_
    positive_eq := hpositive
    negative_eq := hnegative
    neighbours_eq := ?_
    ordered_eq := ?_
    lookup_eq := hlookup
    lookup_absent := ?_
    fetchAtom_absent := ?_
    assigned := ?_
    refused := ?_
    failed := fun op e h he => perform_eq_of_failed (made_after hmade ops) h he }
  · rw [congrArg constraints hafter, congrArg Network.atoms hafter]
    exact hafter
  · intro a
    rw [neighbours, hpositive, hnegative, ← List.map_append]
    rfl
  · rw [orderedConstraints_map hg hconstraints]
    exact hview (List.mergeSort_perm _ _).subset
  · intro id hid
    rw [lookup, constraint?_eq_none_iff.2 (hids ▸ hid)]
    rfl
  · intro literal hliteral
    rw [fetchAtom, atom?_eq_none_iff.2 (hatoms' ▸ hliteral)]
    rfl
  · intro c hc hne
    rw [hlookup c hc] at hne ⊢
    cases hlast : net.lastAssigned? c ops with
    | none => exact absurd (by rw [hlast]; rfl) hne
    | some w => exact exists_of_lastAssigned? hlast
  · intro op e
    constructor
    · exact fun h => (h.congr hids hatoms').perform_eq
    · exact fun h => (forbidden_of_perform (congrArg Prod.snd h)).congr hids.symm hatoms'.symm

/-- **Over any run of operations an assembled network keeps its structure and its views agree.** The
numbers that the views list are references to shared constraints, so that this is one weight seen
from several sides and not several weights kept alike. -/
theorem persists_of_assemble {constraints : List (Constraint Number)} {atoms : List GroundAtom}
    {weightHard : Number} {first last : Int} {deps : Option DependencyMap} {net : Network Number}
    (h : assemble constraints atoms weightHard first last deps = .ok net)
    (ops : List (Operation Number)) : net.Persists ops :=
  (Made.assembled h).persists ops

/-- Writes and forbidden edits, and a reweighting that fails. -/
def lopsidedRun : List (Operation Number) :=
  [.editConstraint 7 (.weight (.real 1.5)), .editConstraint 7 (.frozen .literals),
    .editConstraint 42 (.weight (.real 1.0)), .editAtom (-1) (.state true),
    .editAtom 2 (.state true), .editAtom 1 .id, .reweight [] [true] .hardWins,
    .editConstraint 0 (.weight (.int 4))]

theorem persists_lopsided : assemble lopsided [⟨1, false⟩] (.real 10.0) 1 0
        (some (lopsidedDependencies 1)) = .ok (lopsidedNetwork 1) ∧
      (lopsidedNetwork 1).Persists lopsidedRun ∧
      ((lopsidedNetwork 1).after lopsidedRun).constraints = [⟨7, [1], .real 1.5, false⟩,
        ⟨0, [-1], .int 4, false⟩, ⟨3, [1, -1], .real 0.0, false⟩] := by
  have h := persists_of_assemble (assemble_lopsided 1) lopsidedRun
  refine ⟨assemble_lopsided 1, h, ?_⟩
  rw [h.constraints_eq]
  rfl

end Network

end MarkovLogic
