import MarkovLogic.Proofs.Table
import MarkovLogic.Proofs.Term.Variables
import Mathlib.Data.Finset.Card
import Mathlib.Logic.Relation

/-!
# Chains of bindings

A bound variable leads to the variables of its image, and a substitution is acyclic if no chain of
bound variables comes back to its start. Then every variable has a rank which falls along chains, is
zero for the free variables and never exceeds the number of bindings (`Acyclic.exists_rank`).

Applying a substitution follows chains, so it goes from a bound variable on to its image and from a
function on to its arguments (`Calls`). That no such descent is endless says the same as that the
substitution is acyclic (`wellFounded_calls_iff`).
-/

namespace MarkovLogic

namespace Substitution

open Relation (TransGen ReflTransGen)

variable {θ : Substitution} {u v w : Variable}

/-- Every variable is bound to a term, if it is bound. -/
def BindsTerms (θ : Substitution) : Prop :=
  ∀ v s, θ.get? v ≠ some (.scalar s)

/-- The variable is bound, and the other one occurs in its image. -/
def Leads (θ : Substitution) (v u : Variable) : Prop :=
  ∃ t, θ.get? v = some (.proper t) ∧ t.Mentions u

/-- No chain of bound variables comes back to its start. -/
def Acyclic (θ : Substitution) : Prop :=
  ∀ v, ¬ TransGen (fun v u => θ.Leads v u ∧ θ.get? u ≠ none) v v

theorem BindsTerms.free_or_bound (h : θ.BindsTerms) (v : Variable) :
    θ.get? v = none ∨ ∃ t, θ.get? v = some (.proper t) := by
  cases hget : θ.get? v with
  | none => exact .inl rfl
  | some given =>
    cases given with
    | proper t => exact .inr ⟨t, rfl⟩
    | scalar s => exact absurd hget (h v s)

theorem Leads.bound (h : θ.Leads v u) : θ.get? v ≠ none := by
  obtain ⟨t, ht, -⟩ := h
  simp [ht]

/-! ## Ranks -/

/-- A chain between bound variables goes through bound variables. -/
theorem transGen_bound (h : TransGen θ.Leads v w) (hw : θ.get? w ≠ none) :
    TransGen (fun v u => θ.Leads v u ∧ θ.get? u ≠ none) v w := by
  induction h with
  | single hlead => exact .single ⟨hlead, hw⟩
  | tail _ hlead ih => exact (ih hlead.bound).tail ⟨hlead, hw⟩

theorem Acyclic.not_transGen (h : θ.Acyclic) : ¬ TransGen θ.Leads v v := by
  intro hv
  obtain ⟨u, hlead, -⟩ := TransGen.head'_iff.1 hv
  exact h v (transGen_bound hv hlead.bound)

open Classical in
/-- The bound variables on the chains from a variable, itself included. -/
noncomputable def ahead (θ : Substitution) (v : Variable) : Finset Variable :=
  θ.keys.toFinset.filter (ReflTransGen θ.Leads v)

theorem mem_ahead : w ∈ θ.ahead v ↔ θ.get? w ≠ none ∧ ReflTransGen θ.Leads v w := by
  simp only [ahead, Finset.mem_filter, List.mem_toFinset, Ne, Table.get?_eq_none_iff,
    Decidable.not_not]

theorem ahead_of_free (h : θ.get? v = none) : θ.ahead v = ∅ := by
  refine Finset.eq_empty_of_forall_notMem fun w hw => ?_
  obtain ⟨hbound, hreach⟩ := mem_ahead.1 hw
  rcases hreach.cases_head with rfl | ⟨u, hlead, -⟩
  · exact hbound h
  · exact hlead.bound h

theorem card_ahead_le (v : Variable) : (θ.ahead v).card ≤ θ.size := by
  have hsub : θ.ahead v ⊆ θ.keys.toFinset := by
    intro w hw
    rw [List.mem_toFinset, Table.mem_keys_iff, ← Option.ne_none_iff_exists']
    exact (mem_ahead.1 hw).1
  calc (θ.ahead v).card
      ≤ θ.keys.toFinset.card := Finset.card_le_card hsub
    _ ≤ θ.keys.length := List.toFinset_card_le _
    _ = θ.size := List.length_map _

/-- **The bindings of an acyclic substitution are ranked**: the rank falls along chains, and only
free variables have rank zero. -/
theorem Acyclic.exists_rank (h : θ.Acyclic) : ∃ rank : Variable → Nat,
    (∀ v u, θ.Leads v u → rank u < rank v) ∧ (∀ v, θ.get? v = none ↔ rank v = 0) ∧
      ∀ v, rank v ≤ θ.size := by
  refine ⟨fun v => (θ.ahead v).card, fun v u hlead => ?_, fun v => ⟨fun hv => ?_, fun hv => ?_⟩,
    card_ahead_le⟩
  · -- the variable itself is lost on the way, or a chain would come back to it
    refine Finset.card_lt_card (Finset.ssubset_iff_of_subset ?_ |>.2 ⟨v, ?_, ?_⟩)
    · intro w hw
      obtain ⟨hbound, hreach⟩ := mem_ahead.1 hw
      exact mem_ahead.2 ⟨hbound, hreach.head hlead⟩
    · exact mem_ahead.2 ⟨hlead.bound, .refl⟩
    · exact fun hv => h.not_transGen (TransGen.head' hlead (mem_ahead.1 hv).2)
  · exact Finset.card_eq_zero.2 (ahead_of_free hv)
  · by_contra hbound
    have hself : v ∈ θ.ahead v := mem_ahead.2 ⟨hbound, .refl⟩
    rw [Finset.card_eq_zero.1 hv] at hself
    exact Finset.notMem_empty v hself

theorem transGen_lt {rank : Variable → Nat} (hrank : ∀ v u, θ.Leads v u → rank u < rank v)
    (h : TransGen (fun v u => θ.Leads v u ∧ θ.get? u ≠ none) v w) : rank w < rank v := by
  induction h with
  | single hlead => exact hrank _ _ hlead.1
  | tail _ hlead ih => exact (hrank _ _ hlead.1).trans ih

/-- Where ranks fall along chains there is no cycle. -/
theorem acyclic_of_rank (rank : Variable → Nat)
    (hrank : ∀ v u, θ.Leads v u → rank u < rank v) : θ.Acyclic :=
  fun _ hcycle => Nat.lt_irrefl _ (transGen_lt hrank hcycle)

/-- With fewer steps on chains there is no cycle either. -/
theorem Acyclic.of_leads {θ' : Substitution} (h : θ.Acyclic)
    (hleads : ∀ v u, θ'.Leads v u → θ.Leads v u) : θ'.Acyclic := by
  obtain ⟨rank, hrank, -, -⟩ := h.exists_rank
  exact acyclic_of_rank rank fun v u hlead => hrank v u (hleads v u hlead)

/-! ## The descent of an application -/

/-- The application to the second term goes on to the first: from a bound variable to its image,
and from a function to each of its arguments. -/
inductive Calls (θ : Substitution) : Term → Term → Prop where
  | image {v : Variable} {t : Term} : θ.get? v = some (.proper t) → Calls θ t (.var v)
  | argument {f : Identifier} {args : List Term} {d : Option String} {t : Term} :
    t ∈ args → Calls θ t (.app f args d)

/-- The descent from a term ends if the variables that occur have ranks. -/
theorem acc_calls {rank : Variable → Nat} (hrank : ∀ v u, θ.Leads v u → rank u < rank v) (n : Nat)
    (t : Term) : (∀ v, t.Mentions v → rank v < n) → Acc θ.Calls t := by
  induction n generalizing t with
  | zero =>
    intro ht
    induction t using Term.induction with
    | const c => exact ⟨_, fun _ h => nomatch h⟩
    | var v => exact absurd (ht v (Term.mentions_var.2 rfl)) (Nat.not_lt_zero _)
    | app f args d ih =>
      refine ⟨_, fun t h => ?_⟩
      cases h with
      | argument hmem => exact ih t hmem fun v hv => ht v (Term.mentions_app.2 ⟨t, hmem, hv⟩)
  | succ n ihn =>
    intro ht
    induction t using Term.induction with
    | const c => exact ⟨_, fun _ h => nomatch h⟩
    | var v =>
      refine ⟨_, fun t h => ?_⟩
      cases h with
      | image hget =>
        have hv : rank v < n + 1 := ht v (Term.mentions_var.2 rfl)
        refine ihn t fun u hu => ?_
        have hu : rank u < rank v := hrank v u ⟨t, hget, hu⟩
        omega
    | app f args d ih =>
      refine ⟨_, fun t h => ?_⟩
      cases h with
      | argument hmem => exact ih t hmem fun v hv => ht v (Term.mentions_app.2 ⟨t, hmem, hv⟩)

/-- The descent from a term comes to every variable that occurs in it. -/
theorem reflTransGen_calls_of_mentions (t : Term) :
    t.Mentions u → ReflTransGen θ.Calls (.var u) t := by
  induction t using Term.induction with
  | const c => exact fun h => absurd h (Term.not_mentions_const c)
  | var v =>
    intro h
    rw [Term.mentions_var.1 h]
  | app f args d ih =>
    intro h
    obtain ⟨t, ht, hu⟩ := Term.mentions_app.1 h
    exact (ih t ht hu).tail (.argument ht)

theorem Leads.transGen_calls (h : θ.Leads v u) : TransGen θ.Calls (.var u) (.var v) := by
  obtain ⟨t, hget, hu⟩ := h
  exact TransGen.tail' (reflTransGen_calls_of_mentions t hu) (.image hget)

/-- **Following chains always ends exactly if no chain of bound variables is a cycle.** -/
theorem wellFounded_calls_iff : WellFounded θ.Calls ↔ θ.Acyclic := by
  constructor
  · intro hwf v hcycle
    have hcalls : TransGen θ.Calls (.var v) (.var v) := by
      refine Relation.transGen_swap.1 (hcycle.lift' Term.var fun v u h => ?_)
      exact Relation.transGen_swap.2 h.1.transGen_calls
    exact hwf.transGen.asymmetric _ _ hcalls hcalls
  · intro h
    obtain ⟨rank, hrank, -, hsize⟩ := h.exists_rank
    exact ⟨fun t => acc_calls hrank (θ.size + 1) t fun v _ => Nat.lt_succ_of_le (hsize v)⟩

end Substitution

end MarkovLogic
