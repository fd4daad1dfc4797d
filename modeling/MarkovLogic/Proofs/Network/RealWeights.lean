import MarkovLogic.Proofs.Network.Reweighting
import MarkovLogic.Weight

/-!
# Reweighting with floating-point weights

Learned weights and the hard weight of a network are floating-point values. Then the only operation
that can fail is the conversion of a frequency, and only a soft contribution makes it: a constraint
gets its weight when the frequencies of its soft formulas convert (`exists_combine_reals`). Without
hard contributions this weight is the sum in recording order (`combine_reals_soft`).
-/

namespace MarkovLogic

namespace Number

theorem settle_eq_ok_iff {n r : Number} :
    WeightArith.settle n = .ok r ↔ ∃ x, n.toReal = .ok x ∧ r = .real x := by
  constructor
  · intro h
    obtain ⟨x, hx, rfl⟩ := map_eq_ok_iff.1 h
    exact ⟨x, hx, rfl⟩
  · rintro ⟨x, hx, rfl⟩
    exact map_eq_ok_iff.2 ⟨x, hx, rfl⟩

theorem mapM_settle_eq_ok_iff {weights settled : List Number} :
    weights.mapM WeightArith.settle = .ok settled ↔
      ∃ xs, weights.mapM toReal = .ok xs ∧ settled = xs.map .real := by
  simp only [mapM_eq_ok_iff]
  constructor
  · intro h
    induction h with
    | nil => exact ⟨[], .nil, rfl⟩
    | cons hr _ ih =>
      obtain ⟨x, hx, rfl⟩ := settle_eq_ok_iff.1 hr
      obtain ⟨xs, hxs, rfl⟩ := ih
      exact ⟨x :: xs, .cons hx hxs, rfl⟩
  · rintro ⟨xs, hxs, rfl⟩
    induction hxs with
    | nil => exact .nil
    | cons hx _ ih => exact .cons (settle_eq_ok_iff.2 ⟨_, hx, rfl⟩) ih

theorem realOfInt_eq_ok_iff {n : Int} {x : Float} :
    realOfInt n = .ok x ↔ (Float.ofInt n).isFinite = true ∧ x = Float.ofInt n := by
  unfold realOfInt
  dsimp only
  split
  · next h => rw [Except.ok.injEq, and_iff_right h, eq_comm]
  · next h => exact iff_of_false (by simp only [reduceCtorEq, not_false_eq_true]) fun hx => h hx.1

end Number

namespace FormulaWeights

/-- The given floating-point weights and hard flags of the formulas. -/
def reals (xs : List Float) (hardFlags : List Bool) : FormulaWeights Number :=
  ⟨xs.map .real, hardFlags⟩

variable {xs : List Float} {hardFlags : List Bool} {policy : MixedPolicy} {w : Float}
  {frequencies : List (Nat × Int)}

theorem weight_reals (i : Nat) : (reals xs hardFlags).weight i = .real (xs[i]?.getD 0.0) := by
  unfold weight reals
  rw [List.getElem?_map]
  cases xs[i]? <;> rfl

theorem step_hard {weightHard : Number} {state : Bool × Number} {e : Nat × Int}
    {f : FormulaWeights Number} (h : f.isHard e.1 = true) :
    f.step weightHard policy state e = .ok (true, weightHard) := by
  rw [step, if_pos h]

/-- A soft contribution is dropped after a hard one, or added to the running weight. -/
theorem step_reals_soft {b : Bool} {t y : Float} {e : Nat × Int}
    (h : (reals xs hardFlags).isHard e.1 = false) (hy : Number.realOfInt e.2 = .ok y) :
    (reals xs hardFlags).step (.real w) policy (b, .real t) e =
      .ok (b, .real (if policy = .sequential || !b then t + xs[e.1]?.getD 0.0 * y else t)) := by
  unfold step
  rw [if_neg (by simp [h])]
  split
  · simp only [weight_reals, WeightArith.scale, Number.scale, hy]
    rfl
  · rfl

theorem exists_step_reals {b : Bool} {t : Float} {e : Nat × Int}
    (h : (reals xs hardFlags).isHard e.1 = false → ∃ y, Number.realOfInt e.2 = .ok y) :
    ∃ b' t', (reals xs hardFlags).step (.real w) policy (b, .real t) e = .ok (b', .real t') := by
  cases hhard : (reals xs hardFlags).isHard e.1 with
  | true => exact ⟨true, w, step_hard hhard⟩
  | false =>
    obtain ⟨y, hy⟩ := h hhard
    exact ⟨b, _, step_reals_soft hhard hy⟩

/-- **A weight can be computed when the frequencies of the soft contributions convert.** -/
theorem exists_combine_reals (isHard : Bool) (h : ∀ e ∈ frequencies,
      (reals xs hardFlags).isHard e.1 = false → ∃ y, Number.realOfInt e.2 = .ok y) :
    ∃ x, (reals xs hardFlags).combine (.real w) policy isHard frequencies = .ok (.real x) := by
  -- the running weight stays a floating-point value, whatever the policy keeps of it
  have hfold : ∀ b t, ∃ b' t',
      frequencies.foldlM ((reals xs hardFlags).step (.real w) policy) (b, .real t) =
        .ok (b', .real t') := by
    induction frequencies with
    | nil => exact fun b t => ⟨b, t, rfl⟩
    | cons e rest ih =>
      intro b t
      obtain ⟨he, hrest⟩ := List.forall_mem_cons.1 h
      obtain ⟨b₁, t₁, hstep⟩ := exists_step_reals he
      obtain ⟨b₂, t₂, hloop⟩ := ih hrest b₁ t₁
      exact ⟨b₂, t₂, (foldlM_cons_eq_ok_iff _).2 ⟨_, hstep, hloop⟩⟩
  obtain ⟨b, t, hloop⟩ := hfold isHard (if isHard then w else 0.0)
  refine ⟨if b && policy = .hardWins then w else t, bind_eq_ok_iff.2 ⟨(b, .real t), ?_, ?_⟩⟩
  · rw [← hloop]
    cases isHard <;> rfl
  · simp only
    split <;> rfl

/-- A weight that cannot be computed has a soft contribution whose frequency is too large. -/
theorem exists_of_combine_reals_eq_error {isHard : Bool} {e : Overflow}
    (h : (reals xs hardFlags).combine (.real w) policy isHard frequencies = .error e) :
    ∃ k ∈ frequencies, (reals xs hardFlags).isHard k.1 = false ∧
      Number.realOfInt k.2 = .error .tooLarge := by
  by_contra hnone
  have hall : ∀ k ∈ frequencies, (reals xs hardFlags).isHard k.1 = false →
      ∃ y, Number.realOfInt k.2 = .ok y := by
    intro k hk hsoft
    cases hy : Number.realOfInt k.2 with
    | ok y => exact ⟨y, rfl⟩
    | error o =>
      cases o
      exact absurd ⟨k, hk, hsoft, hy⟩ hnone
  obtain ⟨x, hx⟩ := exists_combine_reals isHard hall
  rw [h] at hx
  cases hx

/-- **Without hard contributions the weight is the sum of formula weight times frequency**, added up
in recording order. -/
theorem combine_reals_soft (hsoft : ∀ e ∈ frequencies, (reals xs hardFlags).isHard e.1 = false)
    (h : ∀ e ∈ frequencies, ∃ y, Number.realOfInt e.2 = .ok y) :
    (reals xs hardFlags).combine (.real w) policy false frequencies = .ok (.real
      (frequencies.foldl (fun total e => total + xs[e.1]?.getD 0.0 * Float.ofInt e.2) 0.0)) := by
  have hfold : ∀ t,
      frequencies.foldlM ((reals xs hardFlags).step (.real w) policy) (false, .real t) =
        .ok (false, .real (frequencies.foldl
          (fun total e => total + xs[e.1]?.getD 0.0 * Float.ofInt e.2) t)) := by
    induction frequencies with
    | nil => exact fun t => rfl
    | cons e rest ih =>
      intro t
      obtain ⟨⟨y, hy⟩, hrest⟩ := List.forall_mem_cons.1 h
      obtain ⟨he, hsoft⟩ := List.forall_mem_cons.1 hsoft
      refine (foldlM_cons_eq_ok_iff _).2 ⟨_, step_reals_soft he hy, ?_⟩
      obtain ⟨-, rfl⟩ := Number.realOfInt_eq_ok_iff.1 hy
      rw [if_pos (by simp), ih hsoft hrest]
      rfl
  unfold combine
  exact bind_eq_ok_iff.2 ⟨_, hfold 0.0, rfl⟩

end FormulaWeights

theorem Network.reals_of_checkReweight {net : Network Number} {weights : List Number}
    {hardFlags : List Bool} {deps : DependencyMap} {f : FormulaWeights Number}
    (h : net.checkReweight weights hardFlags = .ok (deps, f)) :
    net.dependencies = some deps ∧
      ∃ xs, weights.mapM Number.toReal = .ok xs ∧ f = .reals xs hardFlags := by
  unfold checkReweight at h
  cases hdeps : net.dependencies with
  | none =>
    rw [hdeps] at h
    cases h
  | some deps' =>
    rw [hdeps] at h
    obtain ⟨settled, hsettled, h⟩ := bind_eq_ok_iff.1 h
    obtain ⟨xs, hxs, rfl⟩ := Number.mapM_settle_eq_ok_iff.1 (mapError_eq_ok_iff.1 hsettled)
    -- the remaining checks only decide whether there is a result
    by_cases hl : (xs.map Number.real).length = hardFlags.length
    · simp only [hl, ne_eq, not_true, if_false] at h
      cases hentry : net.withoutEntry? deps' with
      | some id =>
        simp only [hentry] at h
        cases h
      | none =>
        simp only [hentry] at h
        split at h
        · split at h
          · cases h
          · cases h
            exact ⟨rfl, xs, hxs, rfl⟩
        · cases h
          exact ⟨rfl, xs, hxs, rfl⟩
    · simp only [hl, ne_eq, not_false_eq_true, if_true] at h
      cases h

end MarkovLogic
