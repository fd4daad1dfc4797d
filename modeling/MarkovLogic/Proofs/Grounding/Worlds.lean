import MarkovLogic.Proofs.Grounding.Simplification
import MarkovLogic.Proofs.AtomSpace.Codec
import MarkovLogic.Network.Constraint

/-!
# Worlds

A truth assignment to the numbered atoms, with the evidence for all other predicates, is a world,
and a clause is true in it under a choice of symbols for its variables (`Problem.ClauseTrue`).
Simplification respects this truth: a kept grounding is true exactly when one of its literals holds
(`clauseTrue_iff_of_keeps`) and is false in some world (`exists_false_of_keeps`), and every other
grounding has the same truth value in all worlds (`constant_of_not_kept`).
-/

namespace MarkovLogic

/-- A choice of a symbol for every variable. -/
abbrev Valuation : Type := Variable → String

/-- The symbol that a term denotes; function terms denote none. -/
def Term.symbolUnder (σ : Valuation) : Term → String
  | .const c => c.symbol.text
  | .var v => σ v
  | .app .. => ""

/-- Every number of the space has a truth value. -/
def AtomSpace.Assigns (space : AtomSpace) (truth : Nat → Option Bool) : Prop :=
  ∀ id, 1 ≤ id → id ≤ space.size → ∃ b, truth id = some b

/-- The assignment gives every term the symbol that the valuation gives it. -/
def Assignment.Follows (assignment : Assignment) (σ : Valuation) : Prop :=
  ∀ t s, Problem.symbolOf? assignment t = some s → s = t.symbolUnder σ

namespace Problem

section Truth

variable {α : Type} (p : Problem α) (space : AtomSpace) (truth : Nat → Option Bool)

/-- An open atom has the value of its number, any other atom is true if the evidence says so. -/
def AtomTrue (s : Signature) (tuple : List String) : Prop :=
  if s ∈ p.query ++ p.hidden then ∃ id, space.encode s tuple = .ok id ∧ truth id = some true
  else tuple ∈ (p.evidence.get? s).getD []

/-- A positive literal is true when its atom is, a negative one when its atom is not. -/
def LiteralTrue (σ : Valuation) (l : Literal) : Prop :=
  p.AtomTrue space truth l.atom.signature (l.atom.terms.map (Term.symbolUnder σ)) ↔
    l.positive = true

/-- Some literal of the clause is true. -/
def ClauseTrue (c : Clause α) (σ : Valuation) : Prop :=
  ∃ l ∈ c.literals, p.LiteralTrue space truth σ l

/-- The space numbers atoms of the open predicates from 1 to its size. -/
structure HasSpace : Prop where
  isOpen_iff : ∀ s, space.isOpen s = true ↔ s ∈ p.query ++ p.hidden
  range : ∀ {s tuple id}, space.encode s tuple = .ok id → 1 ≤ id ∧ id ≤ space.size

end Truth

theorem hasSpace_of_build {α : Type} {p : Problem α} {space : AtomSpace}
    (hb : AtomSpace.build p.schema p.domains p.query p.hidden = .ok space)
    (hd : p.domains.DuplicateFree) (hq : p.query.Nodup) (hh : p.hidden.Nodup) :
    p.HasSpace space := by
  have h := AtomSpace.laid_of_build hb hq hh
  have hpred : space.predicates = p.query ++ p.hidden := by
    obtain ⟨-, _, -, rfl⟩ := AtomSpace.build_cases hb
    rfl
  refine ⟨fun s => ?_, fun he => h.numbers_range ((h.encode_eq_ok_iff hd).1 he)⟩
  rw [h.isOpen_iff, hpred]

/-! ## One literal -/

section OneLiteral

variable {α : Type} {p : Problem α} {space : AtomSpace} {assignment : Assignment} {σ : Valuation}
  {truth : Nat → Option Bool}

theorem tuple_of_follows (hσ : assignment.Follows σ) :
    ∀ {terms : List Term} {tuple : List String}, terms.mapM (symbolOf? assignment) = some tuple →
      tuple = terms.map (Term.symbolUnder σ) := by
  intro terms
  induction terms with
  | nil =>
    intro tuple h
    exact (Option.some.inj h).symm
  | cons t terms ih =>
    intro tuple h
    rw [List.mapM_cons] at h
    obtain ⟨s, hs, h⟩ := Option.bind_eq_some_iff.1 h
    obtain ⟨rest, hrest, h⟩ := Option.bind_eq_some_iff.1 h
    rw [← Option.some.inj h, List.map_cons, hσ t s hs, ih hrest]

variable (h : p.HasSpace space) (hσ : assignment.Follows σ)

include h hσ in
/-- A literal that the evidence decides has that truth value in every world. -/
theorem literalTrue_iff_of_decides {l : Literal} {value : Bool}
    (hl : p.Decides space assignment l value) :
    p.LiteralTrue space truth σ l ↔ value = true := by
  obtain ⟨tuple, ht, hclosed, rfl⟩ := hl
  obtain rfl := tuple_of_follows hσ ht
  have hs : l.atom.signature ∉ p.query ++ p.hidden := by
    rw [← h.isOpen_iff, hclosed]
    decide
  unfold LiteralTrue AtomTrue
  rw [if_neg hs, decide_eq_true_eq, isFact]
  cases l.positive with
  | true => simp
  | false => simp

include h hσ in
/-- An open literal is true in a world exactly when its signed number holds there. -/
theorem literalTrue_iff_of_signs (ht : space.Assigns truth) {l : Literal} {x : Int}
    (hl : space.Signs assignment l x) :
    p.LiteralTrue space truth σ l ↔ Constraint.holds truth x = some true := by
  obtain ⟨tuple, id, htuple, hopen, hid, rfl⟩ := hl
  obtain rfl := tuple_of_follows hσ htuple
  obtain ⟨hr1, hr2⟩ := h.range hid
  obtain ⟨b, hb⟩ := ht id hr1 hr2
  have hatom : p.AtomTrue space truth l.atom.signature
      (l.atom.terms.map (Term.symbolUnder σ)) ↔ b = true := by
    unfold AtomTrue
    rw [if_pos ((h.isOpen_iff _).1 hopen), hid]
    simp [hb]
  unfold LiteralTrue Constraint.holds
  rw [hatom]
  cases l.positive with
  | true =>
    have hpos : decide ((0 : Int) < id) = true := decide_eq_true (by omega)
    simp only [if_true, Int.natAbs_natCast, hb, hpos, Option.map_some]
    cases b <;> decide
  | false =>
    have hneg : decide ((0 : Int) < -id) = false := decide_eq_false (by omega)
    simp only [Bool.false_eq_true, if_false, Int.natAbs_neg, Int.natAbs_natCast, hb, hneg,
      Option.map_some]
    cases b <;> decide

include h in
theorem range_of_signs {l : Literal} {x : Int} (hl : space.Signs assignment l x) :
    1 ≤ x.natAbs ∧ x.natAbs ≤ space.size := by
  obtain ⟨_, id, _, _, hid, rfl⟩ := hl
  have := h.range hid
  split <;> omega

end OneLiteral

/-! ## One grounding -/

section OneGrounding

variable {α : Type} {p : Problem α} {space : AtomSpace} {assignment : Assignment} {σ : Valuation}
  {c : Clause α} (h : p.HasSpace space) (hσ : assignment.Follows σ)

include h in
/-- The literals of a kept grounding are numbers of the space. -/
theorem range_of_keeps {literals : List Int} (hk : p.Keeps space assignment c literals) {x : Int}
    (hx : x ∈ literals) : 1 ≤ x.natAbs ∧ x.natAbs ≤ space.size := by
  obtain ⟨l, _, hl⟩ := (hk.mem_iff x).1 hx
  exact range_of_signs h hl

include h hσ in
/-- **A kept grounding is true in a world exactly when one of its literals holds there.** -/
theorem clauseTrue_iff_of_keeps {literals : List Int} (hk : p.Keeps space assignment c literals)
    {truth : Nat → Option Bool} (ht : space.Assigns truth) :
    p.ClauseTrue space truth c σ ↔ ∃ x ∈ literals, Constraint.holds truth x = some true := by
  constructor
  · rintro ⟨l, hl, htrue⟩
    rcases hk.undecided l hl with hd | ⟨x, hx⟩
    · exact absurd ((literalTrue_iff_of_decides h hσ hd).1 htrue) (by decide)
    · exact ⟨x, (hk.mem_iff x).2 ⟨l, hl, hx⟩, (literalTrue_iff_of_signs h hσ ht hx).1 htrue⟩
  · rintro ⟨x, hx, hholds⟩
    obtain ⟨l, hl, hlx⟩ := (hk.mem_iff x).1 hx
    exact ⟨l, hl, (literalTrue_iff_of_signs h hσ ht hlx).2 hholds⟩

include h hσ in
/-- **A kept grounding is false in some world**: its literals can all be false, since no number
occurs with both signs. -/
theorem exists_false_of_keeps {literals : List Int} (hk : p.Keeps space assignment c literals) :
    ∃ truth, space.Assigns truth ∧ ¬ p.ClauseTrue space truth c σ := by
  -- the atoms that occur negated are true, all others are false
  let truth : Nat → Option Bool := fun id => some (decide (-(id : Int) ∈ literals))
  have ht : space.Assigns truth := fun id _ _ => ⟨_, rfl⟩
  refine ⟨truth, ht, fun htrue => ?_⟩
  obtain ⟨x, hx, hholds⟩ := (clauseTrue_iff_of_keeps h hσ hk ht).1 htrue
  obtain ⟨l, _, hlx⟩ := (hk.mem_iff x).1 hx
  have hpos := (range_of_signs h hlx).1
  simp only [truth, Constraint.holds, Option.map_some, Option.some.injEq, beq_iff_eq,
    decide_eq_decide] at hholds
  rcases Int.lt_or_gt_of_ne (a := x) (b := 0) (by omega) with hneg | hgt
  · have he : -((x.natAbs : Nat) : Int) = x := by omega
    rw [he] at hholds
    exact absurd (hholds.1 hx) (by omega)
  · have he : -((x.natAbs : Nat) : Int) = -x := by omega
    rw [he] at hholds
    exact hk.consistent x hx (hholds.2 hgt)

include h hσ in
theorem clauseTrue_of_decides {l : Literal} (hl : l ∈ c.literals)
    (hd : p.Decides space assignment l true) (truth : Nat → Option Bool) :
    p.ClauseTrue space truth c σ :=
  ⟨l, hl, (literalTrue_iff_of_decides h hσ hd).2 rfl⟩

include h hσ in
/-- Of two opposite literals one is true in every world. -/
theorem clauseTrue_of_opposite {l m : Literal} (hl : l ∈ c.literals) (hm : m ∈ c.literals) {x : Int}
    (hlx : space.Signs assignment l x) (hmx : space.Signs assignment m (-x))
    {truth : Nat → Option Bool} (ht : space.Assigns truth) : p.ClauseTrue space truth c σ := by
  obtain ⟨hr1, hr2⟩ := range_of_signs h hlx
  obtain ⟨b, hb⟩ := ht x.natAbs hr1 hr2
  have hholds : Constraint.holds truth x = some (b == decide (0 < x)) := by
    rw [Constraint.holds, hb, Option.map_some]
  have hholds' : Constraint.holds truth (-x) = some (b == decide (0 < -x)) := by
    rw [Constraint.holds, Int.natAbs_neg, hb, Option.map_some]
  by_cases hbx : b = decide (0 < x)
  · exact ⟨l, hl, (literalTrue_iff_of_signs h hσ ht hlx).2 (by rw [hholds, hbx, beq_self_eq_true])⟩
  · have hne : b = decide (0 < -x) := by
      rcases Int.lt_or_gt_of_ne (a := x) (b := 0) (by omega) with hneg | hgt
      · rw [decide_eq_true (by omega : 0 < -x)]
        rw [decide_eq_false (by omega : ¬ 0 < x)] at hbx
        simpa using hbx
      · rw [decide_eq_false (by omega : ¬ 0 < -x)]
        rw [decide_eq_true hgt] at hbx
        simpa using hbx
    exact ⟨m, hm, (literalTrue_iff_of_signs h hσ ht hmx).2 (by rw [hholds', hne, beq_self_eq_true])⟩

include h hσ in
theorem not_clauseTrue_of_refutes (hr : p.Refutes space assignment c)
    (truth : Nat → Option Bool) : ¬ p.ClauseTrue space truth c σ := by
  rintro ⟨l, hl, htrue⟩
  exact absurd ((literalTrue_iff_of_decides h hσ (hr l hl)).1 htrue) (by decide)

include h hσ in
/-- **A grounding that is not kept has one truth value in all worlds.** -/
theorem constant_of_not_kept {outcome : Grounded}
    (hs : p.simplify space c assignment = .ok outcome) (hk : ∀ literals, outcome ≠ .kept literals) :
    (∀ truth, space.Assigns truth → p.ClauseTrue space truth c σ) ∨
      ∀ truth, ¬ p.ClauseTrue space truth c σ := by
  cases outcome with
  | dropped =>
    rcases cases_of_dropped hs with ⟨l, hl, hd⟩ | ⟨l, hl, m, hm, x, hlx, hmx⟩ | hr
    · exact .inl fun truth _ => clauseTrue_of_decides h hσ hl hd truth
    · exact .inl fun truth ht => clauseTrue_of_opposite h hσ hl hm hlx hmx ht
    · exact .inr (not_clauseTrue_of_refutes h hσ hr)
  | violated => exact .inr (not_clauseTrue_of_refutes h hσ (refutes_of_violated hs))
  | kept literals => exact absurd rfl (hk literals)

end OneGrounding

end Problem

end MarkovLogic
