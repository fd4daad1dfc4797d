import MarkovLogic.Proofs.Network.Interruption

/-!
# Runs of operations

A network is worked on by attempts to set a field of a constraint or of an atom and by reweightings,
each of which may fail (`Operation`). The forbidden edits are refused (`Network.Forbidden`). Any
operation gives new weights to some constraints (`Network.assigned?`), may set truth values, and
changes nothing else (`fst_perform_eq`). So by induction the weights after a run are those that were
assigned last (`after_eq`).
-/

namespace MarkovLogic

/-- An attempt to set a field of the constraint with a number or of the atom that a literal is
about, or a reweighting. -/
inductive Operation (α : Type) where
  | editConstraint (id : Int) (edit : ConstraintEdit α)
  | editAtom (literal : Int) (edit : AtomEdit)
  | reweight (weights : List α) (hardFlags : List Bool) (policy : MixedPolicy)
deriving DecidableEq, Repr

/-- What an operation reports. -/
inductive Answer where
  | edited
  | refused (e : EditError)
  | reweighted (count : Nat)
  | failed (e : ReweightError)
deriving DecidableEq, Repr

/-- The report of a reweighting. -/
def Answer.ofReweight : Except ReweightError Nat → Answer
  | .ok count => .reweighted count
  | .error e => .failed e

/-- The constraint with a newly assigned weight, if there is one. -/
def Constraint.assign {α : Type} (c : Constraint α) (w? : Option α) : Constraint α :=
  { c with weight := w?.getD c.weight }

@[simp]
theorem Constraint.assign_none {α : Type} (c : Constraint α) : c.assign none = c := rfl

theorem Constraint.assign_assign {α : Type} (c : Constraint α) (w? v? : Option α) :
    (c.assign w?).assign v? = c.assign (v?.or w?) := by
  cases v? <;> rfl

namespace Network

section

variable {α : Type}

/-- The network after an edit, or the network as it was if the edit is refused. -/
def afterEdit (net : Network α) : Except EditError (Network α) → Network α × Answer
  | .ok net' => (net', .edited)
  | .error e => (net, .refused e)

/-- An edit is forbidden: the field is frozen, or there is nothing with that number. -/
inductive Forbidden (net : Network α) : Operation α → EditError → Prop where
  | frozenField {id : Int} (field : FrozenField) (h : id ∈ net.constraints.map (·.id)) :
      Forbidden net (.editConstraint id (.frozen field)) (.constraintField field)
  | noConstraint {id : Int} (edit : ConstraintEdit α) (h : id ∉ net.constraints.map (·.id)) :
      Forbidden net (.editConstraint id edit) .absentConstraint
  | atomId {literal : Int} (h : (literal.natAbs : Int) ∈ net.atoms.map (·.id)) :
      Forbidden net (.editAtom literal .id) .atomId
  | noAtom {literal : Int} (edit : AtomEdit) (h : (literal.natAbs : Int) ∉ net.atoms.map (·.id)) :
      Forbidden net (.editAtom literal edit) .absentAtom

variable [WeightArith α]

/-- The network after an operation, and the report. -/
def perform (net : Network α) : Operation α → Network α × Answer
  | .editConstraint id edit => net.afterEdit (net.editConstraint id edit)
  | .editAtom literal edit => net.afterEdit (net.editAtom literal edit)
  | .reweight weights hardFlags policy =>
    ((net.reweight weights hardFlags policy).1,
      .ofReweight (net.reweight weights hardFlags policy).2)

/-- The network after a run of operations. -/
def after (net : Network α) (ops : List (Operation α)) : Network α :=
  ops.foldl (fun net op => (net.perform op).1) net

/-- The weight that the loop of a reweighting gives to a constraint. The loop goes through the
constraints in ascending order and stops where a weight cannot be computed. -/
def loopWeight? (net : Network α) (deps : DependencyMap) (f : FormulaWeights α)
    (policy : MixedPolicy) (c : Constraint α) : Option α :=
  if ∀ d ∈ net.constraints, d.id ≤ c.id →
      (computedWeight deps f policy net.weightHard d).isOk = true then
    (computedWeight deps f policy net.weightHard c).toOption
  else none

/-- The weight that an operation gives to a constraint, if it gives it one. -/
def assigned? (net : Network α) (c : Constraint α) : Operation α → Option α
  | .editConstraint id (.weight w) => if id = c.id then some w else none
  | .editConstraint _ (.frozen _) => none
  | .editAtom _ _ => none
  | .reweight weights hardFlags policy =>
    match net.checkReweight weights hardFlags with
    | .error _ => none
    | .ok (deps, f) => net.loopWeight? deps f policy c

/-- The weight that a run gives to a constraint last, if it gives it one. -/
def lastAssigned? (net : Network α) (c : Constraint α) : List (Operation α) → Option α
  | [] => none
  | op :: ops => ((net.perform op).1.lastAssigned? c ops).or (net.assigned? c op)

/-! ## How far a reweighting gets -/

omit [WeightArith α] in
/-- In a list that ascends, the elements before the first failure are those up to which all
elements pass. -/
theorem mem_takeWhile_iff {β : Type} {number : β → Int} {p : β → Bool} {cs : List β}
    (h : (cs.map number).Pairwise (· < ·)) {c : β} :
    c ∈ cs.takeWhile p ↔ c ∈ cs ∧ ∀ d ∈ cs, number d ≤ number c → p d = true := by
  induction cs with
  | nil => simp
  | cons b cs ih =>
    obtain ⟨hb, hcs⟩ := List.pairwise_cons.1 h
    have hless : ∀ d ∈ cs, number b < number d := fun d hd => hb _ (List.mem_map_of_mem hd)
    cases hp : p b with
    | false =>
      rw [List.takeWhile_cons_of_neg (by simp [hp])]
      constructor
      · intro hc
        cases hc
      · rintro ⟨hc, hall⟩
        have hle : number b ≤ number c := by
          rcases List.mem_cons.1 hc with rfl | hc
          · exact le_refl _
          · exact (hless c hc).le
        exact absurd (hall b List.mem_cons_self hle) (by simp [hp])
    | true =>
      rw [List.takeWhile_cons_of_pos hp, List.mem_cons, ih hcs, List.mem_cons]
      simp only [List.forall_mem_cons, hp, implies_true, true_and]
      constructor
      · rintro (rfl | ⟨hc, hall⟩)
        · exact ⟨.inl rfl, fun d hd hle => absurd (hless d hd) hle.not_gt⟩
        · exact ⟨.inr hc, hall⟩
      · rintro ⟨rfl | hc, hall⟩
        · exact .inl rfl
        · exact .inr ⟨hc, hall⟩

/-- The loop puts new weights into the network up to the first that cannot be computed. -/
theorem fst_assignWeights_eq_foldl {deps : DependencyMap} {f : FormulaWeights α}
    {policy : MixedPolicy} {cs : List (Constraint α)} : ∀ {net : Network α},
      (assignWeights deps f policy cs net).1 =
        (cs.takeWhile fun c => (computedWeight deps f policy net.weightHard c).isOk).foldl
          (fun net' c => net'.putConstraint
            { c with weight := newWeight deps f policy net.weightHard c }) net := by
  induction cs with
  | nil => intro net; rfl
  | cons c cs ih =>
    intro net
    cases hc : computedWeight deps f policy net.weightHard c with
    | error e =>
      rw [assignWeights_cons_of_error hc, List.takeWhile_cons_of_neg (by rw [hc]; exact nofun)]
      rfl
    | ok w =>
      rw [assignWeights_cons_of_ok hc, List.takeWhile_cons_of_pos (by rw [hc]; rfl),
        List.foldl_cons, newWeight_eq hc, ih]
      rfl

/-- The loop over all constraints gives a constraint its new weight if the weights of all
constraints up to it can be computed. -/
theorem fst_assignWeights_eq {net : Network α} (hn : (net.constraints.map (·.id)).Nodup)
    (deps : DependencyMap) (f : FormulaWeights α) (policy : MixedPolicy) :
    (assignWeights deps f policy net.orderedConstraints net).1 =
      { net with constraints := net.constraints.map fun c =>
          c.assign (net.loopWeight? deps f policy c) } := by
  have hperm : net.orderedConstraints.Perm net.constraints := List.mergeSort_perm _ _
  have hasc : (net.orderedConstraints.map (·.id)).Pairwise (· < ·) := ascending_mergeSort _ hn
  have hnodup := (hasc.imp ne_of_lt).sublist
    ((List.takeWhile_sublist fun c => (computedWeight deps f policy net.weightHard c).isOk).map _)
  rw [fst_assignWeights_eq_foldl, foldl_putConstraint _ hnodup]
  congr 1
  refine List.map_congr_left fun c hc => ?_
  have hmem := mem_takeWhile_iff hasc (c := c)
    (p := fun c => (computedWeight deps f policy net.weightHard c).isOk)
  simp only [hperm.mem_iff, hc, true_and] at hmem
  unfold loopWeight?
  split
  · next hall =>
    rw [find?_id_eq_some hnodup (hmem.2 hall)]
    rfl
  · next hstop =>
    have hnone : (net.orderedConstraints.takeWhile fun c =>
        (computedWeight deps f policy net.weightHard c).isOk).find? (·.id = c.id) = none := by
      rw [List.find?_eq_none]
      intro d hd hid
      have hdc : d.id = c.id := of_decide_eq_true hid
      -- the constraint found would be the given one
      have hd' := hperm.mem_iff.1 ((List.takeWhile_sublist _).subset hd)
      obtain rfl := List.inj_on_of_nodup_map hn hd' hc hdc
      exact hstop (hmem.1 hd)
    rw [hnone]
    rfl

/-! ## One operation -/

omit [WeightArith α] in
theorem constraint?_eq_none_iff {net : Network α} {id : Int} :
    net.constraint? id = none ↔ id ∉ net.constraints.map (·.id) := by
  simp [constraint?]

omit [WeightArith α] in
theorem atom?_eq_none_iff {net : Network α} {id : Int} :
    net.atom? id = none ↔ id ∉ net.atoms.map (·.id) := by
  simp [atom?]

/-- A forbidden edit changes nothing. -/
theorem Forbidden.perform_eq {net : Network α} {op : Operation α} {e : EditError}
    (h : net.Forbidden op e) : net.perform op = (net, .refused e) := by
  cases h with
  | frozenField field h =>
    obtain ⟨c, hc⟩ := Option.ne_none_iff_exists'.1 fun hnone => constraint?_eq_none_iff.1 hnone h
    rw [perform, editConstraint, hc]
    rfl
  | noConstraint edit h =>
    rw [perform, editConstraint, constraint?_eq_none_iff.2 h]
    rfl
  | atomId h =>
    obtain ⟨a, ha⟩ := Option.ne_none_iff_exists'.1 fun hnone => atom?_eq_none_iff.1 hnone h
    rw [perform, editAtom, ha]
    rfl
  | noAtom edit h =>
    rw [perform, editAtom, atom?_eq_none_iff.2 h]
    rfl

/-- Only forbidden edits are refused. -/
theorem forbidden_of_perform {net : Network α} {op : Operation α} {e : EditError}
    (h : (net.perform op).2 = .refused e) : net.Forbidden op e := by
  cases op with
  | editConstraint id edit =>
    rw [perform, editConstraint] at h
    cases hc : net.constraint? id with
    | none =>
      rw [hc] at h
      obtain rfl := Answer.refused.inj h
      exact .noConstraint edit (constraint?_eq_none_iff.1 hc)
    | some c =>
      rw [hc] at h
      cases edit with
      | weight w => cases h
      | frozen field =>
        obtain rfl := Answer.refused.inj h
        refine .frozenField field (by_contra fun hnot => ?_)
        rw [constraint?_eq_none_iff.2 hnot] at hc
        cases hc
  | editAtom literal edit =>
    rw [perform, editAtom] at h
    cases ha : net.atom? literal.natAbs with
    | none =>
      rw [ha] at h
      obtain rfl := Answer.refused.inj h
      exact .noAtom edit (atom?_eq_none_iff.1 ha)
    | some a =>
      rw [ha] at h
      cases edit with
      | state value => cases h
      | id =>
        obtain rfl := Answer.refused.inj h
        refine .atomId (by_contra fun hnot => ?_)
        rw [atom?_eq_none_iff.2 hnot] at ha
        cases ha
  | reweight weights hardFlags policy =>
    rw [perform] at h
    cases hr : (net.reweight weights hardFlags policy).2 with
    | ok count => rw [hr] at h; cases h
    | error e' => rw [hr] at h; cases h

theorem made_perform {net : Network α} (hmade : net.Made) (op : Operation α) :
    (net.perform op).1.Made := by
  cases op with
  | editConstraint id edit =>
    rw [perform]
    cases h : net.editConstraint id edit with
    | error e => exact hmade
    | ok net' => exact hmade.constraintEdited h
  | editAtom literal edit =>
    rw [perform]
    cases h : net.editAtom literal edit with
    | error e => exact hmade
    | ok net' => exact hmade.atomEdited h
  | reweight weights hardFlags policy => exact hmade.reweighted weights hardFlags policy

omit [WeightArith α] in
theorem fst_afterEdit_editAtom (net : Network α) (literal : Int) (edit : AtomEdit) :
    ∃ atoms, atoms.map (·.id) = net.atoms.map (·.id) ∧
      (net.afterEdit (net.editAtom literal edit)).1 = { net with atoms } := by
  unfold editAtom
  cases net.atom? literal.natAbs with
  | none => exact ⟨net.atoms, rfl, rfl⟩
  | some a =>
    cases edit with
    | id => exact ⟨net.atoms, rfl, rfl⟩
    | state value =>
      refine ⟨_, ?_, rfl⟩
      rw [List.map_map]
      refine List.map_congr_left fun b _ => ?_
      by_cases hb : b.id = a.id <;> simp [hb]

theorem fst_afterEdit_editConstraint {net : Network α} (hn : (net.constraints.map (·.id)).Nodup)
    (id : Int) (edit : ConstraintEdit α) :
    (net.afterEdit (net.editConstraint id edit)).1 =
      { net with constraints := net.constraints.map fun c =>
          c.assign (net.assigned? c (.editConstraint id edit)) } := by
  cases edit with
  | frozen field =>
    have hsame : (net.afterEdit (net.editConstraint id (.frozen field))).1 = net := by
      unfold editConstraint
      cases net.constraint? id <;> rfl
    rw [hsame]
    simp [assigned?]
  | weight w =>
    unfold editConstraint
    cases hc : net.constraint? id with
    | none =>
      have hnot : ∀ c ∈ net.constraints, c.assign (if id = c.id then some w else none) = c := by
        intro c hmem
        have hid : id ≠ c.id := by
          rintro rfl
          exact constraint?_eq_none_iff.1 hc (List.mem_map_of_mem hmem)
        rw [if_neg hid, c.assign_none]
      exact congrArg (fun cs => { net with constraints := cs })
        ((List.map_congr_left hnot).trans (List.map_id _)).symm
    | some c =>
      obtain ⟨hmem, rfl⟩ := (constraint?_eq_some_iff hn).1 hc
      refine congrArg (fun cs => { net with constraints := cs })
        (List.map_congr_left fun d hd => ?_)
      by_cases hid : d.id = c.id
      · obtain rfl := List.inj_on_of_nodup_map hn hd hmem hid
        simp [assigned?, Constraint.assign]
      · simp [assigned?, hid, Ne.symm hid]

/-- **What an operation leaves of a network.** It assigns some weights, may set truth values, and
changes nothing else. -/
theorem fst_perform_eq {net : Network α} (hn : (net.constraints.map (·.id)).Nodup)
    (op : Operation α) :
    ∃ atoms, atoms.map (·.id) = net.atoms.map (·.id) ∧
      (net.perform op).1 = { net with
        constraints := net.constraints.map fun c => c.assign (net.assigned? c op),
        atoms := atoms } := by
  cases op with
  | editConstraint id edit => exact ⟨net.atoms, rfl, fst_afterEdit_editConstraint hn id edit⟩
  | editAtom literal edit =>
    obtain ⟨atoms, hids, h⟩ := fst_afterEdit_editAtom net literal edit
    refine ⟨atoms, hids, h.trans ?_⟩
    simp [assigned?]
  | reweight weights hardFlags policy =>
    refine ⟨net.atoms, rfl, ?_⟩
    simp only [perform, reweight, assigned?]
    cases net.checkReweight weights hardFlags with
    | error e => simp
    | ok r => exact fst_assignWeights_eq hn r.1 r.2 policy

/-! ## Runs -/

theorem made_after {net : Network α} (hmade : net.Made) (ops : List (Operation α)) :
    (net.after ops).Made := by
  induction ops generalizing net with
  | nil => exact hmade
  | cons op ops ih => exact ih (made_perform hmade op)

/-- What an operation assigns to a constraint does not depend on the weight it has. -/
theorem assigned?_assign (net : Network α) (c : Constraint α) (w? : Option α) (op : Operation α) :
    net.assigned? (c.assign w?) op = net.assigned? c op := by
  cases op with
  | editConstraint id edit => cases edit <;> rfl
  | editAtom literal edit => rfl
  | reweight weights hardFlags policy => rfl

theorem lastAssigned?_assign (net : Network α) (c : Constraint α) (w? : Option α)
    (ops : List (Operation α)) : net.lastAssigned? (c.assign w?) ops = net.lastAssigned? c ops := by
  induction ops generalizing net with
  | nil => rfl
  | cons op ops ih => rw [lastAssigned?, lastAssigned?, ih, assigned?_assign]

/-- **What a run leaves of a network.** The weights are those that were assigned last. -/
theorem after_eq {net : Network α} (hmade : net.Made) (ops : List (Operation α)) :
    ∃ atoms, atoms.map (·.id) = net.atoms.map (·.id) ∧
      net.after ops = { net with
        constraints := net.constraints.map fun c => c.assign (net.lastAssigned? c ops),
        atoms := atoms } := by
  induction ops generalizing net with
  | nil => exact ⟨net.atoms, rfl, by simp [after, lastAssigned?]⟩
  | cons op ops ih =>
    obtain ⟨atoms₁, hids₁, hstep⟩ := fst_perform_eq hmade.nodup_ids op
    obtain ⟨atoms₂, hids₂, hrun⟩ := ih (made_perform hmade op)
    have hconstraints : (net.perform op).1.constraints.map
          (fun c => c.assign ((net.perform op).1.lastAssigned? c ops)) =
        net.constraints.map fun c => c.assign (net.lastAssigned? c (op :: ops)) := by
      rw [congrArg constraints hstep, List.map_map]
      refine List.map_congr_left fun c _ => ?_
      rw [Function.comp_apply, lastAssigned?_assign, Constraint.assign_assign, lastAssigned?]
    refine ⟨atoms₂, hids₂.trans ((congrArg (·.atoms.map (·.id)) hstep).trans hids₁), ?_⟩
    change (net.perform op).1.after ops = _
    rw [hrun, hconstraints, hstep]

/-- A weight that a run assigned comes from the last of its operations that assigned one. -/
theorem exists_of_lastAssigned? {net : Network α} {c : Constraint α} {w : α}
    {ops : List (Operation α)} (h : net.lastAssigned? c ops = some w) :
    ∃ pre op post, ops = pre ++ op :: post ∧ (net.after pre).assigned? c op = some w ∧
      (net.after (pre ++ [op])).lastAssigned? c post = none := by
  induction ops generalizing net with
  | nil => cases h
  | cons op ops ih =>
    rw [lastAssigned?, Option.or_eq_some_iff] at h
    rcases h with hlater | ⟨hnone, hnow⟩
    · obtain ⟨pre, op', post, rfl, hassigned, hlast⟩ := ih hlater
      exact ⟨op :: pre, op', post, rfl, hassigned, hlast⟩
    · exact ⟨[], op, ops, rfl, hnow, hnone⟩

end

end Network

end MarkovLogic
