import MarkovLogic.Proofs.Distinct
import MarkovLogic.Proofs.Grounding.Worlds
import MarkovLogic.Proofs.Term.Construction
import MarkovLogic.Proofs.Tuples
import Mathlib.Data.Set.Card

/-!
# Valuations of a clause

A valuation of a clause chooses for each of its variables a symbol of the variable's domain
(`Problem.valuations`). Grounding goes through lists of symbols instead, one for each variable in
order. The two are the same (`Problem.ncard_valuations`): every list of the product gives a
valuation (`valuationOf`), and every valuation comes from exactly one list.
-/

namespace MarkovLogic

variable {α : Type}

/-- The choice that a list of symbols for a list of variables makes. -/
def valuationOf (vars : List Variable) (tuple : List String) : Valuation :=
  fun v => (((vars.zip tuple).find? fun e => e.1 = v).map Prod.snd).getD ""

namespace Problem

/-- The choices of a symbol of its domain for every variable of the clause and of nothing for every
other variable. -/
def valuations (p : Problem α) (c : Clause α) : Set Valuation :=
  {σ | (∀ v ∈ c.vars, σ v ∈ p.domains.symbols (.ofOption v.domain)) ∧ ∀ v ∉ c.vars, σ v = ""}

end Problem

/-! ## Lists of symbols as valuations -/

section Lists

theorem valuationOf_cons_self (v : Variable) (vars : List Variable) (s : String)
    (tuple : List String) : valuationOf (v :: vars) (s :: tuple) v = s := by
  simp [valuationOf]

theorem valuationOf_cons_of_ne {v w : Variable} (h : w ≠ v) (vars : List Variable) (s : String)
    (tuple : List String) :
    valuationOf (v :: vars) (s :: tuple) w = valuationOf vars tuple w := by
  simp [valuationOf, Ne.symm h]

/-- Reading a valuation off along the variables gives the list back. -/
theorem map_valuationOf {vars : List Variable} (hn : vars.Nodup) :
    ∀ {tuple : List String}, tuple.length = vars.length →
      vars.map (valuationOf vars tuple) = tuple := by
  induction vars with
  | nil =>
    intro tuple h
    exact (List.length_eq_zero_iff.1 h).symm
  | cons v vars ih =>
    intro tuple h
    obtain ⟨hv, hn⟩ := List.nodup_cons.1 hn
    cases tuple with
    | nil => cases h
    | cons s tuple =>
      have hrest : vars.map (valuationOf (v :: vars) (s :: tuple)) =
          vars.map (valuationOf vars tuple) := by
        refine List.map_congr_left fun w hw => valuationOf_cons_of_ne ?_ vars s tuple
        rintro rfl
        exact hv hw
      rw [List.map_cons, valuationOf_cons_self, hrest, ih hn (Nat.succ.inj h)]

theorem valuationOf_of_notMem {vars : List Variable} {v : Variable} (h : v ∉ vars)
    (tuple : List String) : valuationOf vars tuple v = "" := by
  have hnone : (vars.zip tuple).find? (fun e => e.1 = v) = none := by
    rw [List.find?_eq_none]
    rintro ⟨w, s⟩ hm hw
    obtain rfl : w = v := by simpa using hw
    exact h (List.of_mem_zip hm).1
  rw [valuationOf, hnone]
  rfl

/-- A valuation is that of the list read off it. -/
theorem valuationOf_map {vars : List Variable} (hn : vars.Nodup) {σ : Valuation}
    (h : ∀ v ∉ vars, σ v = "") : valuationOf vars (vars.map σ) = σ := by
  have hlength : (vars.map σ).length = vars.length := List.length_map σ
  have hm := map_valuationOf hn hlength
  funext v
  by_cases hv : v ∈ vars
  · exact List.map_inj_left.1 hm v hv
  · rw [valuationOf_of_notMem hv, h v hv]

end Lists

/-! ## The variables of a clause -/

theorem Clause.orderedVariables_perm (c : Clause α) : c.orderedVariables.Perm c.vars :=
  List.mergeSort_perm _ _

theorem Clause.nodup_orderedVariables (c : Clause α) : c.orderedVariables.Nodup :=
  c.orderedVariables_perm.nodup_iff.2 (nodup_distinct _)

namespace Problem

variable {p : Problem α}

theorem pool?_eq_some {v : Variable} {pool : List String} (h : p.pool? v = some pool) :
    pool = sortSymbols (p.domains.symbols (.ofOption v.domain)) := by
  unfold pool? at h
  cases hd : v.domain with
  | none =>
    rw [hd] at h
    cases h
  | some name =>
    rw [hd] at h
    obtain ⟨list, hl, rfl⟩ := Option.map_eq_some_iff.1 h
    rw [Domains.symbols, Scalar.ofOption, hl]
    rfl

/-- The lists of symbols that grounding combines are those of the domains of the variables. -/
theorem variablePools_eq {c : Clause α} {pools : List (Variable × List String)}
    (h : p.variablePools c = .ok pools) :
    pools = c.orderedVariables.map fun v =>
      (v, sortSymbols (p.domains.symbols (.ofOption v.domain))) := by
  unfold variablePools at h
  split at h
  · cases h
  · replace h := mapM_eq_ok_iff.1 h
    generalize c.orderedVariables = vars at h ⊢
    induction h with
    | nil => rfl
    | @cons v entry _ _ hv _ ih =>
      cases hp : p.pool? v with
      | none =>
        rw [hp] at hv
        cases hv
      | some pool =>
        rw [hp] at hv
        rw [List.map_cons, ← ih, ← Except.ok.inj hv, pool?_eq_some hp]

end Problem

/-! ## Assignments as valuations -/

theorem symbol_of_constant {symbol : String} {domain : Option String} {c : Constant}
    (h : Term.constant (.text symbol) domain = .ok c) : c.symbol.text = symbol := by
  obtain ⟨i, hi, h⟩ := bind_eq_ok_iff.1 h
  split at h
  · rw [← Except.ok.inj h]
    exact NameRole.identifier_eq_ok_iff.1 hi
  · cases h

/-- An assignment pairs the variables with constants of the listed symbols. -/
theorem assign_eq {vars : List Variable} {tuple : List String} {assignment : Assignment}
    (h : Problem.assign (α := α) vars tuple = .ok assignment) :
    assignment.map (fun e => (e.1, e.2.symbol.text)) = vars.zip tuple := by
  replace h := mapM_eq_ok_iff.1 h
  generalize vars.zip tuple = pairs at h
  induction h with
  | nil => rfl
  | @cons pair entry _ _ hp _ ih =>
    obtain ⟨c, hc, rfl⟩ := map_eq_ok_iff.1 hp
    rw [List.map_cons, ih, symbol_of_constant (mapError_eq_ok_iff.1 hc)]

/-- The assignment of a list of symbols follows its valuation. -/
theorem follows_of_assign {vars : List Variable} {tuple : List String} {assignment : Assignment}
    (h : Problem.assign (α := α) vars tuple = .ok assignment) :
    assignment.Follows (valuationOf vars tuple) := by
  intro t s hs
  cases t with
  | const c => exact (Option.some.inj hs).symm
  | app f args d => cases hs
  | var v =>
    obtain ⟨e, he, rfl⟩ := Option.map_eq_some_iff.1 hs
    rw [Term.symbolUnder, valuationOf, ← assign_eq h, List.find?_map, Function.comp_def, he]
    rfl

/-! ## Counting -/

namespace Problem

variable {p : Problem α} {c : Clause α} {pools : List (Variable × List String)}

theorem map_fst_pools (h : p.variablePools c = .ok pools) :
    pools.map Prod.fst = c.orderedVariables := by
  rw [variablePools_eq h, List.map_map]
  exact List.map_id _

theorem mem_tuples_pools_iff (h : p.variablePools c = .ok pools) {tuple : List String} :
    tuple ∈ tuples (pools.map Prod.snd) ↔ List.Forall₂
      (fun s v => s ∈ p.domains.symbols (.ofOption v.domain)) tuple c.orderedVariables := by
  rw [mem_tuples_iff, variablePools_eq h, List.map_map, List.forall₂_map_right_iff]
  simp only [Function.comp_apply, mem_sortSymbols]

/-- The listed tuples give exactly the valuations of the clause. -/
theorem mem_valuations_iff (h : p.variablePools c = .ok pools) {σ : Valuation} :
    σ ∈ p.valuations c ↔
      ∃ tuple ∈ tuples (pools.map Prod.snd), valuationOf (pools.map Prod.fst) tuple = σ := by
  have hn := c.nodup_orderedVariables
  have hv : ∀ v, v ∈ c.orderedVariables ↔ v ∈ c.vars := fun v => c.orderedVariables_perm.mem_iff
  rw [map_fst_pools h]
  constructor
  · rintro ⟨hdom, hout⟩
    refine ⟨c.orderedVariables.map σ, (mem_tuples_pools_iff h).2 ?_,
      valuationOf_map hn fun v hm => hout v fun hc => hm ((hv v).2 hc)⟩
    rw [List.forall₂_map_left_iff, List.forall₂_same]
    exact fun v hm => hdom v ((hv v).1 hm)
  · rintro ⟨tuple, ht, rfl⟩
    replace ht := (mem_tuples_pools_iff h).1 ht
    have hm := map_valuationOf hn ht.length_eq
    refine ⟨fun v hmem => ?_, fun v hmem => valuationOf_of_notMem (fun hc => hmem ((hv v).1 hc)) _⟩
    rw [← hm, List.forall₂_map_left_iff, List.forall₂_same] at ht
    exact ht v ((hv v).2 hmem)

/-- Different listed tuples give different valuations. -/
theorem valuationOf_inj (h : p.variablePools c = .ok pools) {tuple tuple' : List String}
    (ht : tuple ∈ tuples (pools.map Prod.snd)) (ht' : tuple' ∈ tuples (pools.map Prod.snd))
    (he : valuationOf (pools.map Prod.fst) tuple = valuationOf (pools.map Prod.fst) tuple') :
    tuple = tuple' := by
  have hn := c.nodup_orderedVariables
  rw [map_fst_pools h] at he
  rw [← map_valuationOf hn ((mem_tuples_pools_iff h).1 ht).length_eq, he,
    map_valuationOf hn ((mem_tuples_pools_iff h).1 ht').length_eq]

/-- **Every valuation of a clause is gone through exactly once**: counting valuations is counting
listed tuples. -/
theorem ncard_valuations (h : p.variablePools c = .ok pools) (hd : p.domains.DuplicateFree)
    (P : Valuation → Prop) [DecidablePred P] :
    {σ ∈ p.valuations c | P σ}.ncard =
      (tuples (pools.map Prod.snd)).countP fun t => P (valuationOf (pools.map Prod.fst) t) := by
  classical
  -- the set is listed without repeats, so its size is the length of the list
  have hset : {σ ∈ p.valuations c | P σ} =
      (((tuples (pools.map Prod.snd)).filter fun t => P (valuationOf (pools.map Prod.fst) t)).map
        (valuationOf (pools.map Prod.fst))).toFinset := by
    ext σ
    rw [Set.mem_ofPred_eq, mem_valuations_iff h, List.coe_toFinset, Set.mem_ofPred_eq, List.mem_map]
    constructor
    · rintro ⟨⟨tuple, ht, rfl⟩, hP⟩
      exact ⟨tuple, List.mem_filter.2 ⟨ht, decide_eq_true hP⟩, rfl⟩
    · rintro ⟨tuple, ht, rfl⟩
      obtain ⟨ht, hP⟩ := List.mem_filter.1 ht
      exact ⟨⟨tuple, ht, rfl⟩, of_decide_eq_true hP⟩
  have hpools : ∀ pool ∈ pools.map Prod.snd, pool.Nodup := by
    rw [variablePools_eq h, List.map_map]
    intro pool hpool
    obtain ⟨v, _, rfl⟩ := List.mem_map.1 hpool
    exact nodup_sortSymbols.2 (hd.nodup_symbols _)
  rw [hset, Set.ncard_coe_finset, List.toFinset_card_of_nodup, List.length_map,
    List.countP_eq_length_filter]
  refine List.Nodup.map_on (fun t ht t' ht' => ?_) ((nodup_tuples hpools).filter _)
  exact valuationOf_inj h (List.mem_of_mem_filter ht) (List.mem_of_mem_filter ht')

end Problem

end MarkovLogic
