import MarkovLogic.Proofs.Network.Occurrences
import MarkovLogic.Proofs.ExactWeight
import Mathlib

/-!
# Flipping an atom

A flip inverts the truth value of one atom (`flipped`). The constraints that it makes true have the
literal that it makes true, and those that it makes false have the opposite one
(`Constraint.mem_literals_of_gains`). In an assembled network these are the occurrences of the atom,
so a search that looks at the neighbours of a flipped atom misses no change
(`Network.showsFlip_of_assemble`).
-/

namespace MarkovLogic

/-- The assignment with the value of one atom inverted. -/
def flipped (truth : Nat → Option Bool) (atom : Int) : Nat → Option Bool :=
  fun n => if (n : Int) = atom then (truth n).map (!·) else truth n

theorem flipped_self {truth : Nat → Option Bool} {a : Int} (ha : 0 < a) {b : Bool}
    (hb : truth a.natAbs = some b) : flipped truth a a.natAbs = some !b := by
  have hn : (a.natAbs : Int) = a := by omega
  simp [flipped, hn, hb]

theorem flipped_flipped (truth : Nat → Option Bool) (a : Int) :
    flipped (flipped truth a) a = truth := by
  funext n
  by_cases hn : (n : Int) = a
  · cases ht : truth n with
    | none => simp [flipped, hn, ht]
    | some b => simp [flipped, hn, ht]
  · simp [flipped, hn]

theorem exists_flipped_iff {truth : Nat → Option Bool} {a : Int} {n : Nat} :
    (∃ b, flipped truth a n = some b) ↔ ∃ b, truth n = some b := by
  unfold flipped
  by_cases hn : (n : Int) = a
  · cases ht : truth n with
    | none => simp [hn]
    | some b => simp [hn]
  · simp [hn]

namespace Constraint

variable {α : Type}

/-- The constraint is violated under the first assignment and satisfied under the second. -/
def Gains (c : Constraint α) (truth truth' : Nat → Option Bool) : Prop :=
  c.isSatisfied truth = some false ∧ c.isSatisfied truth' = some true

/-- The values of the atoms of the constraint are given. -/
def Defined (c : Constraint α) (truth : Nat → Option Bool) : Prop :=
  ∀ x ∈ c.literals, ∃ b, truth x.natAbs = some b

theorem Defined.flipped {c : Constraint α} {truth : Nat → Option Bool} (h : c.Defined truth)
    (a : Int) : c.Defined (flipped truth a) :=
  fun x hx => exists_flipped_iff.2 (h x hx)

theorem isSatisfied_eq_true_iff {c : Constraint α} {truth : Nat → Option Bool}
    (h : c.Defined truth) :
    c.isSatisfied truth = some true ↔ ∃ x ∈ c.literals, holds truth x = some true := by
  obtain ⟨b, hb, hiff⟩ := isSatisfied_of_defined h
  rw [hb, Option.some.injEq, hiff]

/-- **A constraint that a flip satisfies has the literal that the flip makes true.** -/
theorem mem_literals_of_gains {c : Constraint α} {truth : Nat → Option Bool}
    (h : c.Defined truth) {a : Int} (ha : 0 < a) {b : Bool} (hb : truth a.natAbs = some b)
    (hg : c.Gains truth (flipped truth a)) : (if b then -a else a) ∈ c.literals := by
  obtain ⟨hbefore, hafter⟩ := hg
  obtain ⟨x, hx, hholds⟩ := (isSatisfied_eq_true_iff (h.flipped a)).1 hafter
  have hnot : holds truth x ≠ some true := by
    intro hold
    rw [(isSatisfied_eq_true_iff h).2 ⟨x, hx, hold⟩] at hbefore
    cases hbefore
  by_cases hxa : (x.natAbs : Int) = a
  · have hn : x.natAbs = a.natAbs := by omega
    rw [holds, hn, flipped_self ha hb] at hholds
    -- the literal that is true after the flip has the sign of the new value
    cases b with
    | true =>
      have hneg : ¬ 0 < x := by simpa using hholds
      have he : -a = x := by omega
      simpa [he] using hx
    | false =>
      have hpos : 0 < x := by simpa using hholds
      have he : a = x := by omega
      simpa [he] using hx
  · have hsame : flipped truth a x.natAbs = truth x.natAbs := if_neg hxa
    rw [holds, hsame] at hholds
    exact absurd hholds hnot

/-- A constraint that a flip violates has the literal that the flip makes false. -/
theorem mem_literals_of_loses {c : Constraint α} {truth : Nat → Option Bool}
    (h : c.Defined truth) {a : Int} (ha : 0 < a) {b : Bool} (hb : truth a.natAbs = some b)
    (hg : c.Gains (flipped truth a) truth) : (if b then a else -a) ∈ c.literals := by
  have hg' : c.Gains (flipped truth a) (flipped (flipped truth a) a) := by
    rw [flipped_flipped]
    exact hg
  have hmem := mem_literals_of_gains (h.flipped a) ha (flipped_self ha hb) hg'
  cases b with
  | true => simpa using hmem
  | false => simpa using hmem

theorem gains_or_loses_of_ne {c : Constraint α} {truth : Nat → Option Bool} (h : c.Defined truth)
    {a : Int} (hne : c.isSatisfied (flipped truth a) ≠ c.isSatisfied truth) :
    c.Gains truth (flipped truth a) ∨ c.Gains (flipped truth a) truth := by
  obtain ⟨b, hb, -⟩ := isSatisfied_of_defined h
  obtain ⟨b', hb', -⟩ := isSatisfied_of_defined (h.flipped a)
  rw [hb, hb'] at hne
  cases b with
  | false =>
    cases b' with
    | false => exact absurd rfl hne
    | true => exact .inl ⟨hb, hb'⟩
  | true =>
    cases b' with
    | false => exact .inr ⟨hb', hb⟩
    | true => exact absurd rfl hne

end Constraint

namespace Network

variable {α : Type}

/-- The occurrence tables show every change that a flip of the atom makes. -/
structure ShowsFlip (net : Network α) (truth : Nat → Option Bool) (a : Int) : Prop where
  defined : ∀ c ∈ net.constraints, ∃ b, c.isSatisfied truth = some b
  neighbour : ∀ c ∈ net.constraints, c.isSatisfied (flipped truth a) ≠ c.isSatisfied truth →
    c ∈ net.neighbours a
  /-- An atom that becomes true satisfies positive occurrences and violates negative ones. -/
  rising : truth a.natAbs = some false → ∀ c ∈ net.constraints,
    (c.Gains truth (flipped truth a) → c ∈ net.positiveOccurrences a) ∧
    (c.Gains (flipped truth a) truth → c ∈ net.negativeOccurrences a)
  falling : truth a.natAbs = some true → ∀ c ∈ net.constraints,
    (c.Gains truth (flipped truth a) → c ∈ net.negativeOccurrences a) ∧
    (c.Gains (flipped truth a) truth → c ∈ net.positiveOccurrences a)
  mentions : ∀ c ∈ net.neighbours a, c ∈ net.constraints ∧
    ∃ x ∈ c.literals, (x.natAbs : Int) = a

section

variable [WeightArith α] {constraints : List (Constraint α)} {atoms : List GroundAtom}
  {weightHard : α} {first last : Int} {deps : Option DependencyMap} {net : Network α}
  (h : assemble constraints atoms weightHard first last deps = .ok net)

include h in
theorem mem_neighbours_iff {a : Int} (ha : 0 < a) {c : Constraint α} :
    c ∈ net.neighbours a ↔ c ∈ net.constraints ∧ ∃ x ∈ c.literals, (x.natAbs : Int) = a := by
  rw [neighbours, List.mem_append, mem_positiveOccurrences_iff h ha,
    mem_negativeOccurrences_iff h ha, ← and_or_left]
  refine and_congr_right fun _ => ?_
  constructor
  · rintro (hx | hx)
    · exact ⟨a, hx, by omega⟩
    · exact ⟨-a, hx, by omega⟩
  · rintro ⟨x, hx, hxa⟩
    by_cases hpos : 0 < x
    · have he : x = a := by omega
      exact .inl (he ▸ hx)
    · have he : x = -a := by omega
      exact .inr (he ▸ hx)

include h in
theorem defined_of_assemble {truth : Nat → Option Bool}
    (ht : ∀ a ∈ net.atoms, ∃ b, truth a.id.natAbs = some b) {c : Constraint α}
    (hc : c ∈ net.constraints) : c.Defined truth := by
  intro x hx
  obtain ⟨a, ha, hax⟩ := (admissible_of_assemble h).known c hc x hx
  obtain ⟨b, hb⟩ := ht a ha
  refine ⟨b, ?_⟩
  rwa [hax, Int.natAbs_natCast] at hb

/-- **A search may look at neighbours only**: in an assembled network, under any assignment that
gives all its atoms values, the constraints that a flip changes are neighbours of the atom. -/
theorem showsFlip_of_assemble
    (h : assemble constraints atoms weightHard first last deps = .ok net)
    {truth : Nat → Option Bool} (ht : ∀ a ∈ net.atoms, ∃ b, truth a.id.natAbs = some b)
    {a : GroundAtom} (ha : a ∈ net.atoms) : net.ShowsFlip truth a.id := by
  have hpos := (admissible_of_assemble h).atoms_pos a ha
  have hdef : ∀ c ∈ net.constraints, c.Defined truth := fun c hc => defined_of_assemble h ht hc
  have hpositive : ∀ c ∈ net.constraints, a.id ∈ c.literals → c ∈ net.positiveOccurrences a.id :=
    fun c hc hx => (mem_positiveOccurrences_iff h hpos).2 ⟨hc, hx⟩
  have hnegative : ∀ c ∈ net.constraints, -a.id ∈ c.literals → c ∈ net.negativeOccurrences a.id :=
    fun c hc hx => (mem_negativeOccurrences_iff h hpos).2 ⟨hc, hx⟩
  constructor
  case defined =>
    intro c hc
    obtain ⟨b, hb, -⟩ := Constraint.isSatisfied_of_defined (hdef c hc)
    exact ⟨b, hb⟩
  case neighbour =>
    intro c hc hne
    obtain ⟨b, hb⟩ := ht a ha
    rw [mem_neighbours_iff h hpos]
    rcases Constraint.gains_or_loses_of_ne (hdef c hc) hne with hg | hg
    · have hx := Constraint.mem_literals_of_gains (hdef c hc) hpos hb hg
      refine ⟨hc, _, hx, ?_⟩
      cases b <;> simp <;> omega
    · have hx := Constraint.mem_literals_of_loses (hdef c hc) hpos hb hg
      refine ⟨hc, _, hx, ?_⟩
      cases b <;> simp <;> omega
  case rising =>
    intro hb c hc
    constructor
    · intro hg
      apply hpositive c hc
      simpa using Constraint.mem_literals_of_gains (hdef c hc) hpos hb hg
    · intro hg
      apply hnegative c hc
      simpa using Constraint.mem_literals_of_loses (hdef c hc) hpos hb hg
  case falling =>
    intro hb c hc
    constructor
    · intro hg
      apply hnegative c hc
      simpa using Constraint.mem_literals_of_gains (hdef c hc) hpos hb hg
    · intro hg
      apply hpositive c hc
      simpa using Constraint.mem_literals_of_loses (hdef c hc) hpos hb hg
  case mentions => exact fun c hc => (mem_neighbours_iff h hpos).1 hc

end

/-- Constraints that repeat literals, and one with both literals of an atom. -/
def tangled : List (Constraint Int) :=
  [⟨4, [1, -2, 1, -1], 3, false⟩, ⟨0, [-2, 1, -2], 0, true⟩, ⟨2, [2, 2], -1, false⟩]

theorem showsFlip_tangled :
    ∃ net, assemble tangled [⟨1, false⟩, ⟨2, false⟩] 5 1 2 none = .ok net ∧
      (∀ a ∈ net.atoms, ∃ b, (fun _ => some true : Nat → Option Bool) a.id.natAbs = some b) ∧
      ⟨2, false⟩ ∈ net.atoms ∧ net.ShowsFlip (fun _ => some true) 2 := by
  have hshape : (assemble tangled [⟨1, false⟩, ⟨2, false⟩] 5 1 2 none).map (·.atoms) =
      .ok [⟨1, false⟩, ⟨2, false⟩] := by cbv
  obtain ⟨net, hnet, hatoms⟩ := map_eq_ok_iff.1 hshape
  have hmem : (⟨2, false⟩ : GroundAtom) ∈ net.atoms := by simp [hatoms]
  have htruth : ∀ a ∈ net.atoms,
      ∃ b, (fun _ => some true : Nat → Option Bool) a.id.natAbs = some b := fun _ _ => ⟨true, rfl⟩
  exact ⟨net, hnet, htruth, hmem, showsFlip_of_assemble hnet htruth hmem⟩

end Network

end MarkovLogic
