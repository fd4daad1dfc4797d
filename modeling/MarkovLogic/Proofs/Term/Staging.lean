import MarkovLogic.Proofs.Term.Resolution

/-!
# Substitutions in stages

Bindings can be applied in two stages if no variable of the first stage occurs in an image of the
second (`Substitution.Precedes`), while the images of the first stage may use variables of both.
Together the bindings are acyclic when those of each stage are (`Precedes.acyclic_extend`), and the
value of a variable under all of them is its value under the first with the values of the second in
it (`Precedes.value_extend`). So both stages do what all bindings do at once
(`staged_of_precedes`).
-/

namespace MarkovLogic

namespace Substitution

/-- The bindings of the first substitution with those of the second added. -/
def extend (θ₁ θ₂ : Substitution) : Substitution :=
  θ₂.toList.foldl (fun θ e => θ.insert e.1 e.2) θ₁

/-- No variable is bound twice, and no variable of the first substitution occurs in an image of the
second. -/
structure Precedes (θ₁ θ₂ : Substitution) : Prop where
  disjoint : ∀ v, θ₁.get? v = none ∨ θ₂.get? v = none
  outside : ∀ v u, θ₂.Leads v u → θ₁.get? u = none

variable {θ₁ θ₂ : Substitution} {v u : Variable}

/-! ## All bindings -/

theorem get?_extend (θ₁ θ₂ : Substitution) (v : Variable) :
    (θ₁.extend θ₂).get? v = (θ₂.get? v).or (θ₁.get? v) :=
  Table.get?_foldl_insert θ₂.nodup v θ₁

theorem get?_extend_of_free (h : θ₂.get? v = none) : (θ₁.extend θ₂).get? v = θ₁.get? v := by
  rw [get?_extend, h, Option.none_or]

theorem get?_extend_of_bound {given : Given Term} (h : θ₂.get? v = some given) :
    (θ₁.extend θ₂).get? v = some given := by
  rw [get?_extend, h, Option.some_or]

theorem BindsTerms.extend (h₁ : θ₁.BindsTerms) (h₂ : θ₂.BindsTerms) :
    (θ₁.extend θ₂).BindsTerms := by
  intro v s hs
  rcases h₂.free_or_bound v with hfree | ⟨t, ht⟩
  · exact h₁ v s ((get?_extend_of_free hfree).symm.trans hs)
  · exact h₂ v s (ht.trans ((get?_extend_of_bound ht).symm.trans hs))

/-- Chains of all bindings are made of the chains of either substitution. -/
theorem Leads.of_extend (h₂ : θ₂.BindsTerms) (h : (θ₁.extend θ₂).Leads v u) :
    (θ₂.get? v = none ∧ θ₁.Leads v u) ∨ θ₂.Leads v u := by
  obtain ⟨s, hs, hu⟩ := h
  rcases h₂.free_or_bound v with hfree | ⟨t, ht⟩
  · exact .inl ⟨hfree, s, (get?_extend_of_free hfree).symm.trans hs, hu⟩
  · exact .inr ⟨s, ht.trans ((get?_extend_of_bound ht).symm.trans hs), hu⟩

theorem Precedes.free_of_bound (h : θ₁.Precedes θ₂) (hv : θ₂.get? v ≠ none) : θ₁.get? v = none :=
  (h.disjoint v).resolve_right hv

/-- **The bindings of both stages are acyclic together.** -/
theorem Precedes.acyclic_extend (h : θ₁.Precedes θ₂) (h₂ : θ₂.BindsTerms) (hacyclic₁ : θ₁.Acyclic)
    (hacyclic₂ : θ₂.Acyclic) : (θ₁.extend θ₂).Acyclic := by
  obtain ⟨rank₁, hrank₁, -, -⟩ := hacyclic₁.exists_rank
  obtain ⟨rank₂, hrank₂, -, hsize₂⟩ := hacyclic₂.exists_rank
  -- the variables of the first stage rank above all others
  refine acyclic_of_rank
    (fun v => if θ₁.get? v = none then rank₂ v else rank₁ v + θ₂.size) fun v u hlead => ?_
  rcases hlead.of_extend h₂ with ⟨-, hlead⟩ | hlead
  · have hlt : rank₁ u < rank₁ v := hrank₁ v u hlead
    have hle : rank₂ u ≤ θ₂.size := hsize₂ u
    simp only [hlead.bound, if_false]
    split <;> omega
  · simp only [h.free_of_bound hlead.bound, h.outside v u hlead, if_true]
    exact hrank₂ v u hlead

/-! ## Values in two stages -/

section Values

variable (h : θ₁.Precedes θ₂) (h₁ : θ₁.BindsTerms) (h₂ : θ₂.BindsTerms)
  (hacyclic₁ : θ₁.Acyclic) (hacyclic₂ : θ₂.Acyclic)

include h h₁ h₂ hacyclic₁ hacyclic₂

/-- **The value of a variable under all bindings is its value under the first stage with the values
of the second in it.** -/
theorem Precedes.value_extend (v : Variable) :
    (θ₁.value v).replace θ₂.value = (θ₁.extend θ₂).value v := by
  have hbinds : (θ₁.extend θ₂).BindsTerms := h₁.extend h₂
  have hacyclic : (θ₁.extend θ₂).Acyclic := h.acyclic_extend h₂ hacyclic₁ hacyclic₂
  obtain ⟨rank, hrank, -, -⟩ := hacyclic.exists_rank
  induction hk : rank v using Nat.strong_induction_on generalizing v with
  | _ k ih =>
    have hnext : ∀ u, (θ₁.extend θ₂).Leads v u →
        (θ₁.value u).replace θ₂.value = (θ₁.extend θ₂).value u :=
      fun u hlead => ih (rank u) (hk ▸ hrank v u hlead) u rfl
    rcases h₂.free_or_bound v with hfree₂ | ⟨t, ht⟩
    · have hget : (θ₁.extend θ₂).get? v = θ₁.get? v := get?_extend_of_free hfree₂
      rcases h₁.free_or_bound v with hfree₁ | ⟨t, ht⟩
      · rw [value_of_free hfree₁, value_of_free (hget.trans hfree₁), Term.replace,
          value_of_free hfree₂]
      · rw [value_of_bound h₁ hacyclic₁ ht, value_of_bound hbinds hacyclic (hget.trans ht),
          Term.replace_replace]
        exact Term.replace_congr fun u hu => hnext u ⟨t, hget.trans ht, hu⟩
    · have hget : (θ₁.extend θ₂).get? v = some (.proper t) := get?_extend_of_bound ht
      have hfree₁ : θ₁.get? v = none := h.free_of_bound (by simp [ht])
      rw [value_of_free hfree₁, Term.replace, value_of_bound h₂ hacyclic₂ ht,
        value_of_bound hbinds hacyclic hget]
      -- the first stage does not touch what the second puts in
      refine Term.replace_congr fun u hu => ?_
      rw [← hnext u ⟨t, hget, hu⟩, value_of_free (h.outside v u ⟨t, ht, hu⟩), Term.replace]

theorem Precedes.exists_staged {E : Type} [Substitutable E] (e : E) : ∃ s r,
    Substitutable.substitute θ₁ e = .ok s ∧ Substitutable.substitute θ₂ s = .ok r ∧
      Substitutable.substitute (θ₁.extend θ₂) e = .ok r := by
  refine ⟨_, _, substitute_eq h₁ e, substitute_eq h₂ _, ?_⟩
  rw [substitute_eq (h₁.extend h₂), Substitutable.replace_replace]
  simp only [h.value_extend h₁ h₂ hacyclic₁ hacyclic₂]

end Values

/-- **Two stages do what all bindings do at once**, and all bindings together are acyclic again. -/
theorem staged_of_precedes (h₁ : θ₁.BindsTerms) (h₂ : θ₂.BindsTerms) (hacyclic₁ : θ₁.Acyclic)
    (hacyclic₂ : θ₂.Acyclic) (h : θ₁.Precedes θ₂) :
    (θ₁.extend θ₂).Acyclic ∧
      (∀ t : Term, ∃ s r, θ₁.apply t = .ok s ∧ θ₂.apply s = .ok r ∧
        (θ₁.extend θ₂).apply t = .ok r) ∧
      (∀ a : Atom, ∃ b c, a.substitute θ₁ = .ok b ∧ b.substitute θ₂ = .ok c ∧
        a.substitute (θ₁.extend θ₂) = .ok c) ∧
      ∀ l : Literal, ∃ m n, l.substitute θ₁ = .ok m ∧ m.substitute θ₂ = .ok n ∧
        l.substitute (θ₁.extend θ₂) = .ok n :=
  ⟨h.acyclic_extend h₂ hacyclic₁ hacyclic₂, h.exists_staged h₁ h₂ hacyclic₁ hacyclic₂,
    h.exists_staged h₁ h₂ hacyclic₁ hacyclic₂, h.exists_staged h₁ h₂ hacyclic₁ hacyclic₂⟩

/-! ## Kin in two stages -/

/-- The bindings of the child and the elder, whose images use all bound variables. -/
def youngKin : Substitution :=
  .ofList [(child, .proper (heir (.var parent) (.var elder))), (elder, .proper (.var parent))]

/-- The binding of the parent. -/
def oldKin : Substitution :=
  .ofList [(parent, .proper (heir (.var stranger) (.var stranger)))]

theorem get?_youngKin {given : Given Term} (h : youngKin.get? v = some given) :
    kin.get? v = some given ∧ (v = child ∨ v = elder) := by
  rw [Table.get?_eq_some_iff, youngKin, Table.toList_ofList (by decide)] at h
  rw [Table.get?_eq_some_iff, kin, Table.toList_ofList (by decide)]
  rcases List.mem_pair.1 h with h | h <;> obtain ⟨rfl, rfl⟩ := Prod.mk.inj h <;> simp

theorem get?_oldKin {given : Given Term} (h : oldKin.get? v = some given) :
    kin.get? v = some given ∧ v = parent := by
  rw [Table.get?_eq_some_iff, oldKin, Table.toList_ofList (by decide)] at h
  rw [Table.get?_eq_some_iff, kin, Table.toList_ofList (by decide)]
  obtain ⟨rfl, rfl⟩ := Prod.mk.inj (List.mem_singleton.1 h)
  simp

theorem precedes_kin : youngKin.Precedes oldKin where
  disjoint v := by
    cases hold : oldKin.get? v with
    | none => exact .inr rfl
    | some given =>
      obtain rfl := (get?_oldKin hold).2
      exact .inl (by decide)
  outside v u := by
    rintro ⟨t, ht, hu⟩
    obtain ⟨hkin, rfl⟩ := get?_oldKin ht
    obtain ⟨h, -⟩ | ⟨-, h⟩ | ⟨h, -⟩ := get?_kin hkin
    · exact absurd h (by decide)
    · obtain rfl := Given.proper.inj h
      obtain rfl : u = stranger := by simpa [heir] using hu
      decide
    · exact absurd h (by decide)

/-- The first stage leaves parents in the place of the child and the elder, and the second strangers
in the place of the parents. -/
theorem staged_kin :
    youngKin.Precedes oldKin ∧ (youngKin.extend oldKin).Acyclic ∧
      ∃ s r, youngKin.apply (heir (.var child) (.var stranger)) = .ok s ∧
        oldKin.apply s = .ok r ∧
        (youngKin.extend oldKin).apply (heir (.var child) (.var stranger)) = .ok r ∧
        s = heir (heir (.var parent) (.var parent)) (.var stranger) ∧
        r = heir (heir (heir (.var stranger) (.var stranger)) (heir (.var stranger)
          (.var stranger))) (.var stranger) := by
  have hyoung : youngKin.Acyclic := acyclic_kin.of_leads fun v u ⟨t, ht, hu⟩ =>
    ⟨t, (get?_youngKin ht).1, hu⟩
  have hold : oldKin.Acyclic := acyclic_kin.of_leads fun v u ⟨t, ht, hu⟩ =>
    ⟨t, (get?_oldKin ht).1, hu⟩
  obtain ⟨hacyclic, hterms, -⟩ := staged_of_precedes
    (fun v s hs => bindsTerms_kin v s (get?_youngKin hs).1)
    (fun v s hs => bindsTerms_kin v s (get?_oldKin hs).1) hyoung hold precedes_kin
  obtain ⟨s, r, hs, hr, hboth⟩ := hterms (heir (.var child) (.var stranger))
  have hs' : s = heir (heir (.var parent) (.var parent)) (.var stranger) :=
    Except.ok.inj (hs.symm.trans rfl)
  refine ⟨precedes_kin, hacyclic, s, r, hs, hr, hboth, hs', ?_⟩
  rw [hs'] at hr
  exact Except.ok.inj (hr.symm.trans rfl)

end Substitution

end MarkovLogic
