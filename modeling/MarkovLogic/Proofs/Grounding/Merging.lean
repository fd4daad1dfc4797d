import MarkovLogic.Proofs.Grounding.Instances
import MarkovLogic.Proofs.Table

/-!
# What merging adds up

A table of merged constraints keeps apart what belongs to different literals: the entry of a list of
literals is the result of merging only the contributions with these literals
(`MergeTable.get?_addAll`). Within one entry the frequency of a formula is the sum of its
frequencies (`Merged.frequency_addAll`), also where a count is dropped on the way because it comes
to zero, so the recorded formulas are those whose frequency is not zero
(`Merged.get?_sources_addAll`). The entry is hard as soon as one contribution is
(`Merged.isHard_addAll`).

What contributions add to a measure of their constraints adds up over all entries
(`MergeTable.sum_addAll`), so do the frequencies of a formula, whatever factor depends on the
literals (`MergeTable.sum_frequency_addAll`).
-/

namespace MarkovLogic

theorem sum_filter_eq_sum_ite {β M : Type} [AddCommMonoid M] (q : β → Bool) (f : β → M)
    (l : List β) :
    ((l.filter q).map f).sum = (l.map fun a => if q a then f a else 0).sum := by
  induction l with
  | nil => rfl
  | cons a l ih =>
    cases h : q a with
    | true => rw [List.filter_cons_of_pos h, List.map_cons, List.map_cons, List.sum_cons,
        List.sum_cons, ih, if_pos h]
    | false => rw [List.filter_cons_of_neg (by simp [h]), List.map_cons, List.sum_cons, ih,
        if_neg (by simp [h]), zero_add]

variable {α : Type} [WeightArith α]

namespace Merged

/-- How often a formula contributed. -/
def frequency (m : Merged α) (formula : Nat) : Int :=
  (m.sources.get? formula).getD 0

/-- The constraint with more contributions, one after the other. -/
def addAll (m : Merged α) (entries : List (Nat × Contribution α)) : Except Overflow (Merged α) :=
  entries.foldlM (fun m e => m.add e.1 e.2) m

/-! ## One contribution -/

section Counts

variable {sources : Table Nat Int} {formula : Nat} {n : Int}

/-- A count that comes to zero is dropped. -/
theorem count_of_eq_zero (h : (sources.get? formula).getD 0 + n = 0) :
    count sources formula n = sources.erase formula :=
  if_pos h

/-- Any other count is recorded. -/
theorem count_of_ne_zero (h : (sources.get? formula).getD 0 + n ≠ 0) :
    count sources formula n = sources.insert formula ((sources.get? formula).getD 0 + n) :=
  if_neg h

/-- Counting changes the count of its formula and no other, also where the count is dropped. -/
theorem getD_get?_count (sources : Table Nat Int) (formula : Nat) (n : Int) (i : Nat) :
    ((count sources formula n).get? i).getD 0 =
      (sources.get? i).getD 0 + if formula = i then n else 0 := by
  by_cases hzero : (sources.get? formula).getD 0 + n = 0
  · rw [count_of_eq_zero hzero, Table.get?_erase]
    by_cases hi : formula = i
    · subst hi
      rw [if_pos rfl, if_pos rfl, hzero, Option.getD_none]
    · rw [if_neg (Ne.symm hi), if_neg hi, Int.add_zero]
  · rw [count_of_ne_zero hzero, Table.get?_insert]
    by_cases hi : formula = i
    · subst hi
      rw [if_pos rfl, if_pos rfl, Option.getD_some]
    · rw [if_neg (Ne.symm hi), if_neg hi, Int.add_zero]

theorem mem_or_eq_of_mem_keys_count {i : Nat} (h : i ∈ (count sources formula n).keys) :
    i ∈ sources.keys ∨ i = formula := by
  by_cases hzero : (sources.get? formula).getD 0 + n = 0
  · rw [count_of_eq_zero hzero] at h
    exact .inl ((Table.mem_keys_erase _).1 h).1
  · rw [count_of_ne_zero hzero] at h
    exact (Table.mem_keys_insert _).1 h

/-- Counting leaves no count at zero. -/
theorem get?_count_ne_zero (h : ∀ i, sources.get? i ≠ some 0) (i : Nat) :
    (count sources formula n).get? i ≠ some 0 := by
  by_cases hzero : (sources.get? formula).getD 0 + n = 0
  · rw [count_of_eq_zero hzero, Table.get?_erase]
    split
    · exact (Option.some_ne_none 0).symm
    · exact h i
  · rw [count_of_ne_zero hzero, Table.get?_insert]
    split
    · exact fun hsome => hzero (Option.some.inj hsome)
    · exact h i

end Counts

/-- A contribution counts for its formula; a hard one makes the constraint hard and a soft one adds
its weight. -/
theorem add_eq_ok_iff {m m' : Merged α} {formula : Nat} {c : Contribution α} :
    m.add formula c = .ok m' ↔
      m'.sources = count m.sources formula c.frequency ∧
      m'.isHard = (m.isHard || c.weight.isNone) ∧
      (match c.weight with
        | none => m'.weight = m.weight
        | some w => WeightArith.add m.weight w = .ok m'.weight) := by
  unfold add
  obtain ⟨weight', isHard', sources'⟩ := m'
  cases hw : c.weight with
  | none =>
    simp only [pure, Except.pure, Except.ok.injEq, Merged.mk.injEq, Option.isNone_none,
      Bool.or_true]
    constructor
    · rintro ⟨h1, h2, h3⟩
      exact ⟨h3.symm, h2.symm, h1.symm⟩
    · rintro ⟨h1, h2, h3⟩
      exact ⟨h3.symm, h2.symm, h1.symm⟩
  | some w =>
    simp only [Option.isNone_some, Bool.or_false]
    rw [bind_eq_ok_iff]
    simp only [pure, Except.pure, Except.ok.injEq, Merged.mk.injEq]
    constructor
    · rintro ⟨a, ha, h1, h2, h3⟩
      exact ⟨h3.symm, h2.symm, h1 ▸ ha⟩
    · rintro ⟨h1, h2, h3⟩
      exact ⟨weight', h3, rfl, h2.symm, h1.symm⟩

theorem frequency_add {m m' : Merged α} {formula : Nat} {c : Contribution α}
    (h : m.add formula c = .ok m') (i : Nat) :
    m'.frequency i = m.frequency i + if formula = i then c.frequency else 0 := by
  obtain ⟨hs, -, -⟩ := add_eq_ok_iff.1 h
  rw [frequency, hs, getD_get?_count]
  rfl

/-! ## All contributions to one constraint -/

theorem addAll_cons_eq_ok_iff {m m' : Merged α} {e : Nat × Contribution α}
    {entries : List (Nat × Contribution α)} :
    m.addAll (e :: entries) = .ok m' ↔
      ∃ u, m.add e.1 e.2 = .ok u ∧ addAll u entries = .ok m' :=
  foldlM_cons_eq_ok_iff _

/-- The frequency of a formula grows by the sum of the frequencies of its contributions. -/
theorem frequency_addAll (i : Nat) {entries : List (Nat × Contribution α)} :
    ∀ {m m' : Merged α}, m.addAll entries = .ok m' →
      m'.frequency i = m.frequency i +
        ((entries.filter fun e => e.1 = i).map fun e => e.2.frequency).sum := by
  induction entries with
  | nil =>
    intro m m' h
    obtain rfl := Except.ok.inj h
    simp
  | cons e entries ih =>
    intro m m' h
    obtain ⟨u, hu, h⟩ := addAll_cons_eq_ok_iff.1 h
    rw [ih h, frequency_add hu]
    by_cases hi : e.1 = i
    · rw [if_pos hi, List.filter_cons_of_pos (by simpa using hi), List.map_cons, List.sum_cons]
      omega
    · rw [if_neg hi, List.filter_cons_of_neg (by simpa using hi)]
      omega

/-- The constraint is hard if it was or a contribution is. -/
theorem isHard_addAll {entries : List (Nat × Contribution α)} :
    ∀ {m m' : Merged α}, m.addAll entries = .ok m' →
      m'.isHard = (m.isHard || entries.any fun e => e.2.weight.isNone) := by
  induction entries with
  | nil =>
    intro m m' h
    obtain rfl := Except.ok.inj h
    simp
  | cons e entries ih =>
    intro m m' h
    obtain ⟨u, hu, h⟩ := addAll_cons_eq_ok_iff.1 h
    obtain ⟨-, hhard, -⟩ := add_eq_ok_iff.1 hu
    rw [ih h, hhard, List.any_cons, Bool.or_assoc]

/-- The formulas of a constraint are among those that contributed. -/
theorem mem_of_mem_sources_addAll {i : Nat} {entries : List (Nat × Contribution α)} :
    ∀ {m m' : Merged α}, m.addAll entries = .ok m' → i ∈ m'.sources.keys →
      i ∈ m.sources.keys ∨ i ∈ entries.map Prod.fst := by
  induction entries with
  | nil =>
    intro m m' h hi
    obtain rfl := Except.ok.inj h
    exact .inl hi
  | cons e entries ih =>
    intro m m' h hi
    obtain ⟨u, hu, h⟩ := addAll_cons_eq_ok_iff.1 h
    obtain ⟨hs, -, -⟩ := add_eq_ok_iff.1 hu
    rcases ih h hi with hi | hi
    · rw [hs] at hi
      rcases mem_or_eq_of_mem_keys_count hi with hi | rfl
      · exact .inl hi
      · exact .inr List.mem_cons_self
    · exact .inr (List.mem_cons_of_mem e.1 hi)

/-- No recorded count is zero. -/
theorem get?_sources_ne_zero {entries : List (Nat × Contribution α)} :
    ∀ {m m' : Merged α}, (∀ i, m.sources.get? i ≠ some 0) → m.addAll entries = .ok m' →
      ∀ i, m'.sources.get? i ≠ some 0 := by
  induction entries with
  | nil =>
    intro m m' hm h
    obtain rfl := Except.ok.inj h
    exact hm
  | cons e entries ih =>
    intro m m' hm h
    obtain ⟨u, hu, h⟩ := addAll_cons_eq_ok_iff.1 h
    obtain ⟨hs, -, -⟩ := add_eq_ok_iff.1 hu
    exact ih (hs ▸ get?_count_ne_zero hm) h

/-- **The formulas of a constraint are those whose frequency is not zero.** -/
theorem get?_sources_addAll {entries : List (Nat × Contribution α)} {m : Merged α}
    (h : empty.addAll entries = .ok m) (i : Nat) :
    m.sources.get? i = if m.frequency i = 0 then none else some (m.frequency i) := by
  have hi := get?_sources_ne_zero (m := empty) (fun _ => nofun) h i
  unfold frequency
  cases hn : m.sources.get? i with
  | none => rfl
  | some n =>
    rw [hn] at hi
    rw [Option.getD_some, if_neg fun hzero => hi (congrArg some hzero)]

end Merged

namespace MergeTable

/-! ## One contribution to the table -/

theorem add_eq_ok_iff {table table' : MergeTable α} {formula : Nat} {c : Contribution α} :
    table.add formula c = .ok table' ↔
      ∃ m, ((table.get? c.literals).getD .empty).add formula c = .ok m ∧
        table' = table.insert c.literals m := by
  unfold add
  rw [bind_eq_ok_iff]
  simp only [pure, Except.pure, Except.ok.injEq, eq_comm]

theorem addAll_cons_eq_ok_iff {table table' : MergeTable α} {e : Nat × Contribution α}
    {entries : List (Nat × Contribution α)} :
    table.addAll (e :: entries) = .ok table' ↔
      ∃ u, table.add e.1 e.2 = .ok u ∧ addAll u entries = .ok table' :=
  foldlM_cons_eq_ok_iff _

/-! ## All contributions to the table -/

/-- **Merging keeps different literals apart**: what the table holds for a list of literals comes
from the contributions with these literals alone. -/
theorem get?_addAll (literals : List Int) {entries : List (Nat × Contribution α)} :
    ∀ {table table' : MergeTable α}, table.addAll entries = .ok table' →
      ((table.get? literals).getD .empty).addAll
        (entries.filter fun e => e.2.literals = literals) =
          .ok ((table'.get? literals).getD .empty) := by
  induction entries with
  | nil =>
    intro table table' h
    obtain rfl := Except.ok.inj h
    rfl
  | cons e entries ih =>
    intro table table' h
    obtain ⟨u, hu, h⟩ := addAll_cons_eq_ok_iff.1 h
    obtain ⟨m, hm, rfl⟩ := add_eq_ok_iff.1 hu
    have ih := ih h
    rw [Table.get?_insert] at ih
    by_cases hl : e.2.literals = literals
    · rw [List.filter_cons_of_pos (by simpa using hl)]
      rw [if_pos hl.symm] at ih
      exact Merged.addAll_cons_eq_ok_iff.2 ⟨m, hl ▸ hm, ih⟩
    · rw [List.filter_cons_of_neg (by simpa using hl)]
      rw [if_neg (Ne.symm hl)] at ih
      exact ih

/-- A merged constraint is made of the contributions with its literals. -/
theorem addAll_of_mem {entries : List (Nat × Contribution α)} {table : MergeTable α}
    (h : MergeTable.addAll Table.empty entries = .ok table) {literals : List Int} {m : Merged α}
    (hm : (literals, m) ∈ Table.toList table) :
    Merged.empty.addAll (entries.filter fun e => e.2.literals = literals) = .ok m := by
  have hget := get?_addAll literals h
  rw [(Table.get?_eq_some_iff table).2 hm] at hget
  exact hget

/-- A formula recorded for a constraint contributed to it, softly if the constraint is not hard. -/
theorem exists_contribution_of_source {entries : List (Nat × Contribution α)} {table : MergeTable α}
    (h : MergeTable.addAll Table.empty entries = .ok table) {literals : List Int} {m : Merged α}
    (hm : (literals, m) ∈ Table.toList table) {i : Nat} (hi : i ∈ m.sources.keys) :
    ∃ e ∈ entries, e.1 = i ∧ (m.isHard = false → e.2.weight.isNone = false) := by
  have hget := addAll_of_mem h hm
  rcases Merged.mem_of_mem_sources_addAll hget hi with hempty | hi
  · cases hempty
  · obtain ⟨e, he, rfl⟩ := List.mem_map.1 hi
    refine ⟨e, List.mem_of_mem_filter he, rfl, fun hsoft => ?_⟩
    have hhard := Merged.isHard_addAll hget
    rw [hsoft] at hhard
    exact Bool.eq_false_iff.2 (List.any_eq_false.1 (Bool.or_eq_false_iff.1 hhard.symm).2 e he)

/-- The literals in the table are those of some contribution. -/
theorem mem_keys_addAll {literals : List Int} {entries : List (Nat × Contribution α)} :
    ∀ {table table' : MergeTable α}, table.addAll entries = .ok table' →
      (literals ∈ Table.keys table' ↔
        literals ∈ Table.keys table ∨ ∃ e ∈ entries, e.2.literals = literals) := by
  induction entries with
  | nil =>
    intro table table' h
    obtain rfl := Except.ok.inj h
    simp
  | cons e entries ih =>
    intro table table' h
    obtain ⟨u, hu, h⟩ := addAll_cons_eq_ok_iff.1 h
    obtain ⟨m, -, rfl⟩ := add_eq_ok_iff.1 hu
    rw [ih h, Table.mem_keys_insert, or_assoc]
    simp only [List.mem_cons, exists_eq_or_imp, eq_comm (a := literals)]

/-- **Merging loses no contribution**: what each contribution adds to the measure of its constraint
adds up over the table. -/
theorem sum_addAll {M : Type} [AddCommGroup M] {μ : List Int → Merged α → M}
    {δ : Nat × Contribution α → M} (hempty : ∀ literals, μ literals .empty = 0)
    (hadd : ∀ {m m' : Merged α} {i : Nat} {c : Contribution α}, m.add i c = .ok m' →
      μ c.literals m' = μ c.literals m + δ (i, c)) {entries : List (Nat × Contribution α)} :
    ∀ {table table' : MergeTable α}, table.addAll entries = .ok table' →
      ((Table.toList table').map fun e => μ e.1 e.2).sum =
        ((Table.toList table).map fun e => μ e.1 e.2).sum + (entries.map δ).sum := by
  induction entries with
  | nil =>
    intro table table' h
    obtain rfl := Except.ok.inj h
    simp
  | cons e entries ih =>
    intro table table' h
    obtain ⟨u, hu, h⟩ := addAll_cons_eq_ok_iff.1 h
    obtain ⟨m, hm, rfl⟩ := add_eq_ok_iff.1 hu
    have hold : (Table.get? table e.2.literals).elim 0 (μ e.2.literals) =
        μ e.2.literals ((Table.get? table e.2.literals).getD .empty) := by
      cases Table.get? table e.2.literals with
      | none => exact (hempty _).symm
      | some m => rfl
    rw [ih h, Table.sum_insert μ, hold, hadd hm, List.map_cons, List.sum_cons]
    abel

/-- Weighted by any factor of the literals, the frequencies of a formula over the table and over the
contributions have the same sum. -/
theorem sum_frequency_addAll (φ : List Int → Int) (i : Nat)
    {entries : List (Nat × Contribution α)} {table table' : MergeTable α}
    (h : table.addAll entries = .ok table') :
    ((Table.toList table').map fun e => φ e.1 * e.2.frequency i).sum =
      ((Table.toList table).map fun e => φ e.1 * e.2.frequency i).sum +
      ((entries.filter fun e => e.1 = i).map fun e => φ e.2.literals * e.2.frequency).sum := by
  rw [sum_filter_eq_sum_ite]
  refine sum_addAll (μ := fun literals m => φ literals * m.frequency i) (fun literals => ?_)
    (fun hm => ?_) h
  · simp [Merged.frequency, Merged.empty]
  · rw [Merged.frequency_add hm, Int.mul_add]
    simp

end MergeTable

end MarkovLogic
