import MarkovLogic.Proofs.Network.Occurrences

/-!
# Histories of networks

A network comes out of assembly, and after that weights and truth values are edited and weights
computed anew (`Network.Made`). No such step renumbers the constraints or touches the hard weight
(`KeepsNumbers`), so in every network there is the constraints have distinct numbers
(`Made.nodup_ids`) and the hard weight is in settled form (`Made.exists_settle`).
-/

namespace MarkovLogic

namespace Network

variable {α : Type}

/-- The constraints have their numbers, in their places, and the hard weight is the same. -/
structure KeepsNumbers (net net' : Network α) : Prop where
  ids : net'.constraints.map (·.id) = net.constraints.map (·.id)
  weightHard : net'.weightHard = net.weightHard

namespace KeepsNumbers

theorem refl (net : Network α) : net.KeepsNumbers net := ⟨rfl, rfl⟩

theorem trans {net net' net'' : Network α} (h : net.KeepsNumbers net')
    (h' : net'.KeepsNumbers net'') : net.KeepsNumbers net'' :=
  ⟨h'.ids.trans h.ids, h'.weightHard.trans h.weightHard⟩

end KeepsNumbers

/-! ## Steps -/

theorem keepsNumbers_putConstraint (net : Network α) (c : Constraint α) :
    net.KeepsNumbers (net.putConstraint c) := by
  refine ⟨?_, rfl⟩
  unfold putConstraint
  rw [List.map_map]
  refine List.map_congr_left fun d _ => ?_
  by_cases hd : d.id = c.id <;> simp [hd]

theorem keepsNumbers_editConstraint {net net' : Network α} {id : Int} {edit : ConstraintEdit α}
    (h : net.editConstraint id edit = .ok net') : net.KeepsNumbers net' := by
  unfold editConstraint at h
  cases hc : net.constraint? id with
  | none =>
    rw [hc] at h
    cases h
  | some c =>
    rw [hc] at h
    obtain ⟨c', -, rfl⟩ := map_eq_ok_iff.1 h
    exact keepsNumbers_putConstraint net c'

theorem keepsNumbers_editAtom {net net' : Network α} {literal : Int} {edit : AtomEdit}
    (h : net.editAtom literal edit = .ok net') : net.KeepsNumbers net' := by
  unfold editAtom at h
  cases ha : net.atom? literal.natAbs with
  | none =>
    rw [ha] at h
    cases h
  | some a =>
    rw [ha] at h
    obtain ⟨a', -, rfl⟩ := map_eq_ok_iff.1 h
    exact ⟨rfl, rfl⟩

variable [WeightArith α]

theorem keepsNumbers_assignWeights (deps : DependencyMap) (f : FormulaWeights α)
    (policy : MixedPolicy) (cs : List (Constraint α)) :
    ∀ net : Network α, net.KeepsNumbers (assignWeights deps f policy cs net).1 := by
  induction cs with
  | nil => exact KeepsNumbers.refl
  | cons c cs ih =>
    intro net
    rw [assignWeights]
    split
    · exact .refl net
    · exact (keepsNumbers_putConstraint net _).trans (ih _)

theorem keepsNumbers_reweight (net : Network α) (weights : List α) (hardFlags : List Bool)
    (policy : MixedPolicy) : net.KeepsNumbers (net.reweight weights hardFlags policy).1 := by
  unfold reweight
  split
  · exact .refl net
  · exact keepsNumbers_assignWeights ..

/-! ## Runs -/

/-- The network comes out of assembly, edits and reweightings, which may have failed. -/
inductive Made : Network α → Prop where
  | assembled {constraints : List (Constraint α)} {atoms : List GroundAtom} {weightHard : α}
      {first last : Int} {deps : Option DependencyMap} {net : Network α}
      (h : assemble constraints atoms weightHard first last deps = .ok net) : Made net
  | constraintEdited {net net' : Network α} {id : Int} {edit : ConstraintEdit α} (hmade : Made net)
      (h : net.editConstraint id edit = .ok net') : Made net'
  | atomEdited {net net' : Network α} {literal : Int} {edit : AtomEdit} (hmade : Made net)
      (h : net.editAtom literal edit = .ok net') : Made net'
  | reweighted {net : Network α} (weights : List α) (hardFlags : List Bool) (policy : MixedPolicy)
      (hmade : Made net) : Made (net.reweight weights hardFlags policy).1

namespace Made

variable {net : Network α}

/-- A property of a network that numbers and hard weight decide holds of all networks there are, if
it holds after assembly. -/
theorem of_assembled {P : Network α → Prop}
    (hassembled : ∀ {constraints : List (Constraint α)} {atoms : List GroundAtom} {weightHard : α}
      {first last : Int} {deps : Option DependencyMap} {net : Network α},
      assemble constraints atoms weightHard first last deps = .ok net → P net)
    (hkeep : ∀ {net net' : Network α}, net.KeepsNumbers net' → P net → P net') (h : Made net) :
    P net := by
  induction h with
  | assembled h => exact hassembled h
  | constraintEdited _ h ih => exact hkeep (keepsNumbers_editConstraint h) ih
  | atomEdited _ h ih => exact hkeep (keepsNumbers_editAtom h) ih
  | reweighted weights hardFlags policy _ ih => exact hkeep (keepsNumbers_reweight ..) ih

theorem nodup_ids (h : Made net) : (net.constraints.map (·.id)).Nodup :=
  h.of_assembled (fun h => (admissible_of_assemble h).ids_nodup) fun hk hn => hk.ids ▸ hn

theorem exists_settle (h : Made net) : ∃ w, WeightArith.settle w = .ok net.weightHard := by
  refine of_assembled (P := fun net => ∃ w, WeightArith.settle w = .ok net.weightHard)
    (fun h => ?_) (fun hk hw => ?_) h
  · obtain ⟨-, w, hw, rfl⟩ := assemble_eq_ok_iff_admissible.1 h
    exact ⟨_, hw⟩
  · rwa [hk.weightHard]

end Made

end Network

end MarkovLogic
