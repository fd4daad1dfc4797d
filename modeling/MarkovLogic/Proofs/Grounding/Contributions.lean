import MarkovLogic.Proofs.Grounding.Merging
import MarkovLogic.Proofs.Grounding.KeptLiterals
import MarkovLogic.Proofs.Distinct
import Mathlib.Algebra.BigOperators.Group.List.Lemmas

/-!
# Shares of the groundings

A kept grounding has one share in the constraint with its literals, or, if its clause is replaced
because of its negative weight, an inverted share in the unit of each negated literal
(`Instance.shares`). The merged constraints come in the order of the first share
(`MergeTable.keys_addAll`), and so do the formulas of each where no count is ever dropped
(`Merged.NeverCancels.keys_addAll`). All shares of a formula count in the same direction, so a
recorded frequency is the number of shares up to its sign (`Merged.frequency_eq_mul`).
-/

namespace MarkovLogic

variable {α : Type} [WeightArith α]

/-! ## Shares -/

namespace Clause

/-- The clause is soft with a negative weight, and such clauses are replaced. -/
def isReplaced (noNegativeWeights : Bool) (c : Clause α) : Bool :=
  noNegativeWeights && c.weight.any WeightArith.isNegative

/-- The sign with which shares of the clause count. -/
def direction (noNegativeWeights : Bool) (c : Clause α) : Int :=
  if c.isReplaced noNegativeWeights then -1 else 1

end Clause

/-- The shares of a grounding, with its formula. -/
def Instance.shares (noNegativeWeights : Bool) (inst : Instance α) : List (Nat × Contribution α) :=
  match inst.outcome.kept? with
  | none => []
  | some literals =>
    if inst.clause.isReplaced noNegativeWeights then
      literals.map fun l =>
        (inst.formula, ⟨[-l], inst.clause.weight.map WeightArith.neg, -1⟩)
    else [(inst.formula, ⟨literals, inst.clause.weight, 1⟩)]

namespace Instance

variable {noNeg : Bool} {inst : Instance α}

/-- **What a grounding contributes are its shares.** -/
theorem contributions_eq_shares (noNeg : Bool) (inst : Instance α) :
    inst.contributions noNeg = inst.shares noNeg := by
  unfold contributions shares Grounded.kept? Clause.contributions Clause.isReplaced
  cases inst.outcome with
  | dropped => rfl
  | violated => rfl
  | kept literals =>
    cases inst.clause.weight with
    | none => simp
    | some w =>
      by_cases hneg : (noNeg && WeightArith.isNegative w) = true
      · simp [hneg]
      · simp [hneg]

theorem mem_shares_iff {e : Nat × Contribution α} :
    e ∈ inst.shares noNeg ↔ ∃ literals, inst.outcome.kept? = some literals ∧
      if inst.clause.isReplaced noNeg then
        ∃ l ∈ literals, e = (inst.formula, ⟨[-l], inst.clause.weight.map WeightArith.neg, -1⟩)
      else e = (inst.formula, ⟨literals, inst.clause.weight, 1⟩) := by
  unfold shares
  cases inst.outcome.kept? with
  | none => simp
  | some literals =>
    by_cases hr : inst.clause.isReplaced noNeg = true
    · simp [hr, eq_comm]
    · simp [hr]

theorem fst_of_mem_shares {e : Nat × Contribution α} (h : e ∈ inst.shares noNeg) :
    e.1 = inst.formula := by
  obtain ⟨literals, -, h⟩ := mem_shares_iff.1 h
  split at h
  · obtain ⟨l, -, rfl⟩ := h
    rfl
  · rw [h]

theorem frequency_of_mem_shares {e : Nat × Contribution α} (h : e ∈ inst.shares noNeg) :
    e.2.frequency = inst.clause.direction noNeg := by
  unfold Clause.direction
  obtain ⟨literals, -, h⟩ := mem_shares_iff.1 h
  by_cases hr : inst.clause.isReplaced noNeg = true
  · simp only [hr, if_true] at h ⊢
    obtain ⟨l, -, rfl⟩ := h
    rfl
  · simp only [hr, if_false, Bool.false_eq_true] at h ⊢
    rw [h]

end Instance

/-! ## The order of keys -/

theorem MergeTable.keys_addAll {entries : List (Nat × Contribution α)} {table : MergeTable α}
    (h : MergeTable.addAll Table.empty entries = .ok table) :
    Table.keys table = (entries.map fun e => e.2.literals).eraseDups := by
  refine keys_of_foldlM Table.keys rfl (fun _ e _ t t' _ _ hadd => ?_) h
  obtain ⟨m, -, rfl⟩ := add_eq_ok_iff.1 hadd
  exact Table.keys_insert_cases t e.2.literals m

namespace Merged

variable {entries : List (Nat × Contribution α)} {m : Merged α}
  (h : Merged.empty.addAll entries = .ok m)

include h

/-- **A formula whose shares count alike has their number as its frequency, up to the sign.** -/
theorem frequency_eq_mul {i : Nat} {d : Int}
    (hd : ∀ e ∈ entries, e.1 = i → e.2.frequency = d) :
    m.frequency i = d * (entries.countP fun e => e.1 = i) := by
  have hsum : ((entries.filter fun e => e.1 = i).map fun e => e.2.frequency).sum =
      ((entries.filter fun e => e.1 = i).map fun e => e.2.frequency).length • d := by
    apply List.sum_eq_card_nsmul
    intro x hx
    obtain ⟨e, he, rfl⟩ := List.mem_map.1 hx
    obtain ⟨he, hi⟩ := List.mem_filter.1 he
    exact hd e he (by simpa using hi)
  rw [frequency_addAll i h, hsum, List.length_map, ← List.countP_eq_length_filter, nsmul_eq_mul,
    Int.mul_comm d]
  apply Int.zero_add

end Merged

/-! ## Counts that are never dropped -/

/-- No contribution takes the count of its formula in the constraint back to zero. -/
def Merged.NeverCancels (entries : List (Nat × Contribution α)) : Prop :=
  ∀ pre e post m, entries = pre ++ e :: post → Merged.empty.addAll pre = .ok m →
    m.frequency e.1 + e.2.frequency ≠ 0

/-- No contribution takes the count of its formula back to zero. -/
def MergeTable.NeverCancels (entries : List (Nat × Contribution α)) : Prop :=
  ∀ pre e post mid, entries = pre ++ e :: post → MergeTable.addAll Table.empty pre = .ok mid →
    ((Table.get? mid e.2.literals).getD .empty).frequency e.1 + e.2.frequency ≠ 0

/-- **Where no contribution cancels no count is dropped**, so that the formulas come in the order of
their first contribution. -/
theorem Merged.NeverCancels.keys_addAll {entries : List (Nat × Contribution α)} {m : Merged α}
    (hnever : Merged.NeverCancels entries) (h : Merged.empty.addAll entries = .ok m) :
    m.sources.keys = (entries.map Prod.fst).eraseDups := by
  refine keys_of_foldlM (fun m => m.sources.keys) rfl (fun pre e post m m' hsplit hpre hadd => ?_) h
  obtain ⟨hs, -, -⟩ := add_eq_ok_iff.1 hadd
  rw [hs, count_of_ne_zero (hnever pre e post m hsplit hpre)]
  exact Table.keys_insert_cases m.sources e.1 _

/-- A formula whose count was dropped comes last when it contributes again. -/
example : ((Merged.empty : Merged Number).addAll [(0, ⟨[1], none, 1⟩), (1, ⟨[1], none, 1⟩),
    (0, ⟨[1], none, -1⟩), (0, ⟨[1], none, 1⟩)]).map (·.sources.keys) = .ok [1, 0] :=
  rfl

/-- The contributions with the given literals do not cancel if no contributions do. -/
theorem MergeTable.NeverCancels.filter {entries : List (Nat × Contribution α)}
    {table : MergeTable α} (hnever : MergeTable.NeverCancels entries)
    (h : MergeTable.addAll Table.empty entries = .ok table) (literals : List Int) :
    Merged.NeverCancels (entries.filter fun e => e.2.literals = literals) := by
  intro pre e post m hsplit hpre
  -- the entry and those with the same literals before it stand in the whole list, too
  obtain ⟨before, rest, rfl, rfl, hrest⟩ := List.filter_eq_append_iff.1 hsplit
  obtain ⟨skipped, after, rfl, hskipped, he, -⟩ := List.filter_eq_cons_iff.1 hrest
  obtain rfl : e.2.literals = literals := of_decide_eq_true he
  rw [← List.append_assoc] at h
  obtain ⟨mid, hmid, -⟩ := (foldlM_append_eq_ok_iff _).1 h
  have hsame : (before ++ skipped).filter (fun f => f.2.literals = e.2.literals) =
      before.filter fun f => f.2.literals = e.2.literals := by
    rw [List.filter_append, List.filter_eq_nil_iff.2 hskipped, List.append_nil]
  have hget := get?_addAll e.2.literals hmid
  rw [hsame] at hget
  obtain rfl := Except.ok.inj (hpre.symm.trans hget)
  exact hnever (before ++ skipped) e after mid (List.append_assoc ..).symm hmid

/-! ## The literals of merged constraints -/

namespace Problem

variable {p : Problem α} {space : AtomSpace} {ins : List (Instance α)}
  (hi : p.instances space = .ok ins) {noNeg : Bool} {merged : MergeTable α}
  (hm : MergeTable.addAll Table.empty (ins.flatMap (Instance.contributions noNeg)) = .ok merged)
  {literals : List Int} (hl : literals ∈ Table.keys merged)

include hi hm hl

/-- A merged constraint has the literals of a kept grounding or the negation of one of them. -/
theorem exists_kept_of_mem_keys : ∃ inst ∈ ins, ∃ kept,
    p.Keeps space inst.assignment inst.clause kept ∧ Ascending kept ∧
      (literals = kept ∨ ∃ x ∈ kept, literals = [-x]) := by
  rcases (MergeTable.mem_keys_addAll hm).1 hl with hempty | ⟨e, he, rfl⟩
  · cases hempty
  · obtain ⟨inst, hinst, he⟩ := List.mem_flatMap.1 he
    obtain ⟨-, kept, ho, hkept⟩ := literals_of_mem_contributions he
    obtain ⟨-, hs⟩ := p.clause_of_mem_instances hi hinst
    rw [ho] at hs
    cases simplifies_of_simplify hs with
    | kept hk ha => exact ⟨inst, hinst, kept, hk, ha, hkept⟩

theorem ne_nil_of_mem_keys : literals ≠ [] := by
  obtain ⟨inst, _, kept, hk, _, rfl | ⟨x, _, rfl⟩⟩ := exists_kept_of_mem_keys hi hm hl
  · exact hk.ne_nil
  · simp

theorem ascending_of_mem_keys : Ascending literals := by
  obtain ⟨inst, _, kept, _, ha, rfl | ⟨x, _, rfl⟩⟩ := exists_kept_of_mem_keys hi hm hl
  · exact ha
  · exact ascending_singleton _

theorem range_of_mem_keys (h : p.HasSpace space) {x : Int} (hx : x ∈ literals) :
    1 ≤ x.natAbs ∧ x.natAbs ≤ space.size := by
  obtain ⟨inst, _, kept, hk, _, hkept⟩ := exists_kept_of_mem_keys hi hm hl
  rcases hkept with rfl | ⟨y, hy, rfl⟩
  · exact range_of_keeps h hk hx
  · rw [List.mem_singleton.1 hx, Int.natAbs_neg]
    exact range_of_keeps h hk hy

end Problem

end MarkovLogic
