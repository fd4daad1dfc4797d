import MarkovLogic.Proofs.Grounding.Worlds
import MarkovLogic.Proofs.AtomSpace.Bounds
import Mathlib.Data.List.Pairwise

/-!
# The literals of a kept grounding

Simplification answers what the evidence and the open literals of a grounding say
(`simplifies_of_simplify`), and they never say two things (`Simplifies.unique`). The literals of a
kept grounding are in ascending order of their atoms, so that none occurs twice and none occurs with
both signs. In every space that was built their atoms lie between 1 and its size
(`hasSpace_of_layout`).
-/

namespace MarkovLogic

/-! ## Ascending literals -/

/-- The literals are in strictly ascending order of their atoms. -/
def Ascending (literals : List Int) : Prop :=
  literals.Pairwise fun x y => x.natAbs < y.natAbs

namespace Ascending

variable {literals : List Int}

theorem nodup (h : Ascending literals) : literals.Nodup := by
  refine h.imp ?_
  rintro x _ hlt rfl
  exact Nat.lt_irrefl _ hlt

theorem eq_of_natAbs_eq (h : Ascending literals) {x y : Int} (hx : x ∈ literals)
    (hy : y ∈ literals) (he : x.natAbs = y.natAbs) : x = y := by
  have hinj : literals.Pairwise fun x y => x.natAbs = y.natAbs → x = y :=
    h.imp fun hlt he => by omega
  have hflip := hinj.imp fun {x y} hxy (he : y.natAbs = x.natAbs) => (hxy he.symm).symm
  exact List.Pairwise.forall_of_forall_of_flip (fun _ _ _ => rfl) hinj hflip hx hy he

theorem neg_notMem (h : Ascending literals) {x : Int} (hx : x ∈ literals) (h0 : x ≠ 0) :
    -x ∉ literals := by
  intro hneg
  have := h.eq_of_natAbs_eq hx hneg (Int.natAbs_neg x).symm
  omega

/-- Ascending literals are determined by their members. -/
theorem ext {literals' : List Int} (h : Ascending literals) (h' : Ascending literals')
    (hm : ∀ x, x ∈ literals ↔ x ∈ literals') : literals = literals' := by
  have hp : literals.Perm literals' := (List.perm_ext_iff_of_nodup h.nodup h'.nodup).2 hm
  refine hp.eq_of_pairwise ?_ h h'
  intro x y _ _ hxy hyx
  omega

end Ascending

theorem ascending_singleton (x : Int) : Ascending [x] :=
  List.pairwise_singleton ..

/-- The literals that are left of a kept grounding. -/
def Grounded.kept? : Grounded → Option (List Int)
  | .kept literals => some literals
  | _ => none

namespace Problem

/-- Ordering puts distinct literals without opposites in ascending order. -/
theorem ascending_orderLiterals {literals : List Int} (hn : literals.Nodup)
    (hc : ∀ x ∈ literals, -x ∉ literals) : Ascending (orderLiterals literals) := by
  have hle : (orderLiterals literals).Pairwise fun x y =>
      x.natAbs < y.natAbs ∨ (x.natAbs = y.natAbs ∧ x ≤ y) := by
    have h : (orderLiterals literals).Pairwise fun x y =>
        (x.natAbs < y.natAbs || (x.natAbs = y.natAbs && x ≤ y)) = true := by
      apply List.pairwise_mergeSort
      · intro x y z hxy hyz
        simp only [Bool.or_eq_true, Bool.and_eq_true, decide_eq_true_eq] at hxy hyz ⊢
        omega
      · intro x y
        simp only [Bool.or_eq_true, Bool.and_eq_true, decide_eq_true_eq]
        omega
    simpa using h
  have hne : (orderLiterals literals).Pairwise (· ≠ ·) :=
    (List.mergeSort_perm literals _).nodup_iff.2 hn
  refine (hle.and hne).imp_of_mem ?_
  rintro x y hx hy ⟨hlt | ⟨heq, -⟩, hxy⟩
  · exact hlt
  · -- two literals of one atom are equal or opposite
    obtain rfl : y = -x := by omega
    exact absurd (mem_orderLiterals.1 hy) (hc x (mem_orderLiterals.1 hx))

/-! ## The answer of simplification -/

section

variable {α : Type} (p : Problem α) (space : AtomSpace) (assignment : Assignment) (c : Clause α)

/-- What is left of a grounding: nothing when a literal is true by the evidence, when no literal is
open, or when an open atom occurs with both signs; else its open literals in ascending order. -/
inductive Simplifies : Option (List Int) → Prop where
  | satisfied {l : Literal} (hl : l ∈ c.literals) (h : p.Decides space assignment l true) :
    Simplifies none
  | closed (h : ∀ l ∈ c.literals, ∀ x, ¬ space.Signs assignment l x) : Simplifies none
  | opposite {l m : Literal} {x : Int} (hl : l ∈ c.literals) (hm : m ∈ c.literals)
    (hx : space.Signs assignment l x) (hneg : space.Signs assignment m (-x)) : Simplifies none
  | kept {literals : List Int} (h : p.Keeps space assignment c literals)
    (ha : Ascending literals) : Simplifies (some literals)

variable {p space assignment c}

theorem not_decides_true_of_false {l : Literal} (h : p.Decides space assignment l false) :
    ¬ p.Decides space assignment l true := by
  obtain ⟨tuple, ht, _, hf⟩ := h
  rintro ⟨tuple', ht', _, hf'⟩
  rw [ht, Option.some.injEq] at ht'
  subst ht'
  rw [← hf'] at hf
  cases hf

/-- A grounding that is kept has no reason to be dropped. -/
theorem Keeps.not_simplifies_none {literals : List Int} (h : p.Keeps space assignment c literals) :
    ¬ p.Simplifies space assignment c none := by
  intro hnone
  cases hnone with
  | satisfied hl hd =>
    rcases h.undecided _ hl with hfalse | ⟨x, hx⟩
    · exact not_decides_true_of_false hfalse hd
    · exact not_signs_of_decides hd x hx
  | closed hclosed =>
    obtain ⟨x, hx⟩ := List.exists_mem_of_ne_nil _ h.ne_nil
    obtain ⟨l, hl, hs⟩ := (h.mem_iff x).1 hx
    exact hclosed l hl x hs
  | opposite hl hm hx hneg =>
    exact h.consistent _ ((h.mem_iff _).2 ⟨_, hl, hx⟩) ((h.mem_iff _).2 ⟨_, hm, hneg⟩)

/-- **A grounding simplifies to one thing only.** -/
theorem Simplifies.unique {r r' : Option (List Int)} (h : p.Simplifies space assignment c r)
    (h' : p.Simplifies space assignment c r') : r = r' := by
  match r, r', h, h' with
  | none, none, _, _ => rfl
  | none, some _, h, .kept hk _ => exact absurd h hk.not_simplifies_none
  | some _, none, .kept hk _, h' => exact absurd h' hk.not_simplifies_none
  | some _, some _, .kept hk ha, .kept hk' ha' =>
    rw [ha.ext ha' fun x => (hk.mem_iff x).trans (hk'.mem_iff x).symm]

theorem nodup_openLiterals {ls : List Literal} {literals : List Int} :
    ∀ {found : List Int}, found.Nodup →
      p.openLiterals space assignment found ls = .ok (some literals) → literals.Nodup := by
  induction ls with
  | nil =>
    intro found hn h
    obtain rfl := Option.some.inj (Except.ok.inj h)
    exact hn
  | cons l rest ih =>
    intro found hn h
    rcases openLiterals_cons h with ⟨x, _, h⟩ | ⟨_, hnone⟩ | ⟨_, h⟩
    · apply ih _ h
      by_cases hx : x ∈ found
      · simpa [hx] using hn
      · simpa [hx, List.nodup_append] using ⟨hn, fun y hy he => hx (he ▸ hy)⟩
    · cases hnone
    · exact ih hn h

/-- **Simplification answers what the evidence and the open literals say.** -/
theorem simplifies_of_simplify {outcome : Grounded}
    (h : p.simplify space c assignment = .ok outcome) :
    p.Simplifies space assignment c outcome.kept? := by
  have hclosed : p.Refutes space assignment c → p.Simplifies space assignment c none := by
    intro hr
    exact .closed fun l hl x => not_signs_of_decides (hr l hl) x
  cases outcome with
  | dropped =>
    rcases cases_of_dropped h with ⟨l, hl, hd⟩ | ⟨l, hl, m, hm, x, hx, hneg⟩ | hr
    · exact .satisfied hl hd
    · exact .opposite hl hm hx hneg
    · exact hclosed hr
  | violated => exact hclosed (refutes_of_violated h)
  | kept literals =>
    have hk := keeps_of_simplify h
    refine .kept hk ?_
    rcases simplify_cases h with ⟨_, h⟩ | ⟨_, h⟩ | ⟨found, _, hfound, ⟨_, h⟩ | ⟨hpair, h⟩⟩
    · cases h
    · split at h <;> cases h
    · cases h
    · obtain rfl := Grounded.kept.inj h
      exact ascending_orderLiterals (nodup_openLiterals List.nodup_nil hfound) hpair

end

/-! ## Numbers within the space -/

/-- Every space that was built numbers the atoms of the open predicates from 1 to its size, also
where a predicate is listed again or a domain repeats symbols. -/
theorem hasSpace_of_layout {α : Type} {p : Problem α} {space : AtomSpace}
    (hb : AtomSpace.build p.schema p.domains p.query p.hidden = .ok space) : p.HasSpace space := by
  refine ⟨fun s => ?_, AtomSpace.range_of_encode hb⟩
  obtain ⟨-, symbols, -, rfl⟩ := AtomSpace.build_cases hb
  rw [AtomSpace.isOpen, Table.contains_iff, AtomSpace.mem_keys_allocate]
  simp [Table.keys]

end Problem

end MarkovLogic
