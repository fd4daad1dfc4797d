import MarkovLogic.Proofs.Grounding.Outcome
import MarkovLogic.Proofs.ExactWeight

/-!
# Merged constraints apart from their weights

Which literals the merged constraints have, in which order, which of them are hard and how often
every formula contributed does not depend on any weight. These parts of a merge table are its
outline (`MergeTable.outline`), and contributions that agree apart from their weights make tables
with the same outline (`MergeTable.outline_eq_of_map_eq`). Over exact weights the outline determines
the weights too: a constraint without hard contributions weighs the sum of formula weight times
frequency (`MergeTable.weighs_addAll`).
-/

namespace MarkovLogic

/-! ## Outlines -/

section Outlines

variable {α : Type}

/-- What a contribution is apart from its weight: formula, literals, hardness and frequency. -/
def Contribution.outline (e : Nat × Contribution α) : Nat × List Int × Bool × Int :=
  (e.1, e.2.literals, e.2.weight.isNone, e.2.frequency)

/-- A merged constraint apart from its weight. -/
def Merged.outline (m : Merged α) : Bool × Table Nat Int :=
  (m.isHard, m.sources)

/-- A merge table apart from the weights. -/
def MergeTable.outline (table : MergeTable α) : Table (List Int) (Bool × Table Nat Int) :=
  Table.mapWithKey (fun _ m => m.outline) table

theorem MergeTable.zipIdx_outline (merged : MergeTable α) :
    merged.outline.toList.zipIdx =
      (Table.toList merged).zipIdx.map fun e => ((e.1.1, e.1.2.outline), e.2) := by
  unfold MergeTable.outline Table.mapWithKey
  rw [List.zipIdx_map]
  rfl

namespace Problem

/-- Numbers and literals of the constraints come from the outline. -/
theorem map_shape_constraintsOf (merged : MergeTable α) :
    (constraintsOf merged).map Constraint.shape =
      merged.outline.toList.zipIdx.map fun e => ((e.2 : Int), e.1.1) := by
  rw [constraintsOf_eq, MergeTable.zipIdx_outline, List.map_map, List.map_map]
  rfl

/-- The recorded dependencies come from the outline. -/
theorem dependenciesOf_eq_outline (merged : MergeTable α) :
    dependenciesOf merged = ⟨Table.ofList (merged.outline.values.zipIdx.map fun e =>
      ((e.2 : Int), e.1.2))⟩ := by
  unfold dependenciesOf MergeTable.outline Table.values Table.mapWithKey
  simp only [List.map_map, List.zipIdx_map]
  rfl

/-- The atoms of a network come from the literals of its constraints. -/
theorem atomsOf_congr {constraints constraints' : List (Constraint α)}
    (h : constraints'.map Constraint.shape = constraints.map Constraint.shape) :
    atomsOf constraints' = atomsOf constraints := by
  have hids : ∀ cs : List (Constraint α),
      (cs.flatMap fun c => c.literals.map fun l => (l.natAbs : Int)) =
      (cs.map Constraint.shape).flatMap fun s => s.2.map fun l => (l.natAbs : Int) := by
    intro cs
    rw [List.flatMap_map]
    rfl
  unfold atomsOf
  rw [hids, hids, h]

end Problem

/-- The outline of a merge table after a contribution with the given outline. -/
def addOutline (o : Table (List Int) (Bool × Table Nat Int)) (e : Nat × List Int × Bool × Int) :
    Table (List Int) (Bool × Table Nat Int) :=
  let m := (o.get? e.2.1).getD (false, Table.empty)
  o.insert e.2.1 (m.1 || e.2.2.1, Merged.count m.2 e.1 e.2.2.2)

variable [WeightArith α]

namespace MergeTable

theorem outline_add {table table' : MergeTable α} {e : Nat × Contribution α}
    (h : table.add e.1 e.2 = .ok table') :
    table'.outline = addOutline table.outline (Contribution.outline e) := by
  obtain ⟨m, hm, rfl⟩ := add_eq_ok_iff.1 h
  obtain ⟨hs, hh, -⟩ := Merged.add_eq_ok_iff.1 hm
  have hold : ((table.outline.get? e.2.literals).getD (false, Table.empty)) =
      ((Table.get? table e.2.literals).getD .empty).outline := by
    rw [outline, Table.get?_mapWithKey]
    cases Table.get? table e.2.literals <;> rfl
  have hm : m.outline = ((((Table.get? table e.2.literals).getD .empty).outline).1 ||
        e.2.weight.isNone, m.sources) := by
    rw [Merged.outline, hh]
    rfl
  unfold addOutline Contribution.outline
  simp only [hold]
  rw [outline, Table.mapWithKey_insert, hm, hs]
  rfl

theorem outline_addAll {entries : List (Nat × Contribution α)} :
    ∀ {table table' : MergeTable α}, table.addAll entries = .ok table' →
      table'.outline = (entries.map Contribution.outline).foldl addOutline table.outline := by
  induction entries with
  | nil =>
    intro table table' h
    obtain rfl := Except.ok.inj h
    rfl
  | cons e entries ih =>
    intro table table' h
    obtain ⟨u, hu, h⟩ := addAll_cons_eq_ok_iff.1 h
    rw [ih h, outline_add hu, List.map_cons, List.foldl_cons]

/-- **Contributions that agree apart from their weights make tables that do.** -/
theorem outline_eq_of_map_eq {entries entries' : List (Nat × Contribution α)}
    {table table' : MergeTable α} (h : MergeTable.addAll Table.empty entries = .ok table)
    (h' : MergeTable.addAll Table.empty entries' = .ok table')
    (he : entries'.map Contribution.outline = entries.map Contribution.outline) :
    table'.outline = table.outline := by
  rw [outline_addAll h, outline_addAll h', he]

end MergeTable

end Outlines

/-! ## Exact weights -/

section Exact

variable {R : Type} [CommRing R] (w : Nat → R)

/-- The sum of formula weight times frequency. -/
def weightedSum (sources : Table Nat Int) : R :=
  (sources.toList.map fun e => w e.1 * (e.2 : R)).sum

theorem weightedSum_count (sources : Table Nat Int) (i : Nat) (n : Int) :
    weightedSum w (Merged.count sources i n) = weightedSum w sources + w i * (n : R) := by
  have hold : (sources.get? i).elim 0 (fun n => w i * (n : R)) =
      w i * (((sources.get? i).getD 0 : Int) : R) := by
    cases sources.get? i with
    | none => simp
    | some k => rfl
  unfold weightedSum
  by_cases hzero : (sources.get? i).getD 0 + n = 0
  · have hn : n = -(sources.get? i).getD 0 := by omega
    rw [Merged.count_of_eq_zero hzero, Table.sum_erase (fun i n => w i * ((n : Int) : R)), hold,
      hn, Int.cast_neg, mul_neg, sub_eq_add_neg]
  · rw [Merged.count_of_ne_zero hzero, Table.sum_insert (fun i n => w i * ((n : Int) : R)), hold,
      Int.cast_add, mul_add]
    abel

/-- A soft contribution has its formula's weight times the frequency. -/
def Contribution.Weighs (e : Nat × Contribution R) : Prop :=
  ∀ v, e.2.weight = some v → v = w e.1 * (e.2.frequency : R)

variable [LinearOrder R]

namespace Merged

/-- The weight grows by the weights of the soft contributions. -/
theorem weight_addAll_exact {entries : List (Nat × Contribution R)} :
    ∀ {m m' : Merged R}, m.addAll entries = .ok m' →
      m'.weight = m.weight + (entries.map fun e => e.2.weight.getD 0).sum := by
  induction entries with
  | nil =>
    intro m m' h
    obtain rfl := Except.ok.inj h
    simp
  | cons e entries ih =>
    intro m m' h
    obtain ⟨u, hu, h⟩ := addAll_cons_eq_ok_iff.1 h
    obtain ⟨-, -, hw⟩ := add_eq_ok_iff.1 hu
    rw [ih h, List.map_cons, List.sum_cons, ← add_assoc]
    cases hv : e.2.weight with
    | none =>
      simp only [hv] at hw
      rw [hw, Option.getD_none, add_zero]
    | some v =>
      simp only [hv, WeightArith.exact_add, Except.ok.injEq] at hw
      rw [← hw, Option.getD_some]

theorem weight_addAll {entries : List (Nat × Contribution R)}
    (he : ∀ e ∈ entries, Contribution.Weighs w e) :
    ∀ {m m' : Merged R}, (m.isHard = false → m.weight = weightedSum w m.sources) →
      m.addAll entries = .ok m' → m'.isHard = false → m'.weight = weightedSum w m'.sources := by
  induction entries with
  | nil =>
    intro m m' hm h
    obtain rfl := Except.ok.inj h
    exact hm
  | cons e entries ih =>
    intro m m' hm h
    obtain ⟨u, hu, h⟩ := addAll_cons_eq_ok_iff.1 h
    obtain ⟨hs, hh, hw⟩ := add_eq_ok_iff.1 hu
    refine ih (fun e he' => he e (List.mem_cons_of_mem _ he')) (fun hsoft => ?_) h
    rw [hh, Bool.or_eq_false_iff] at hsoft
    cases hv : e.2.weight with
    | none =>
      rw [hv] at hsoft
      cases hsoft.2
    | some v =>
      simp only [hv, WeightArith.exact_add, Except.ok.injEq] at hw
      rw [← hw, hs, weightedSum_count, hm hsoft.1, he e List.mem_cons_self v hv]

end Merged

namespace MergeTable

/-- **Over exact weights a constraint without hard contributions weighs the sum of formula weight
times frequency.** -/
theorem weighs_addAll {entries : List (Nat × Contribution R)}
    (he : ∀ e ∈ entries, Contribution.Weighs w e) {table : MergeTable R}
    (h : MergeTable.addAll Table.empty entries = .ok table) {literals : List Int} {m : Merged R}
    (hm : (literals, m) ∈ Table.toList table) (hsoft : m.isHard = false) :
    m.weight = weightedSum w m.sources :=
  Merged.weight_addAll w (fun e hmem => he e (List.mem_of_mem_filter hmem)) (fun _ => rfl)
    (addAll_of_mem h hm) hsoft

/-- Exact merging never fails. -/
theorem exists_addAll (table : MergeTable R) (entries : List (Nat × Contribution R)) :
    ∃ table', table.addAll entries = .ok table' := by
  induction entries generalizing table with
  | nil => exact ⟨table, rfl⟩
  | cons e entries ih =>
    obtain ⟨m, hm⟩ : ∃ m, ((Table.get? table e.2.literals).getD .empty).add e.1 e.2 = .ok m := by
      unfold Merged.add
      cases e.2.weight with
      | none => exact ⟨_, rfl⟩
      | some v => exact ⟨_, rfl⟩
    obtain ⟨table', h⟩ := ih (Table.insert table e.2.literals m)
    exact ⟨table', addAll_cons_eq_ok_iff.2 ⟨_, add_eq_ok_iff.2 ⟨m, hm, rfl⟩, h⟩⟩

end MergeTable

end Exact

end MarkovLogic
