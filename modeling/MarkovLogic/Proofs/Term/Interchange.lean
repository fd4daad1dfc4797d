import MarkovLogic.Proofs.Term.Resolution

/-!
# Equal terms are interchangeable

No operation on terms and atoms tells equal ones apart. Their texts, their signatures and whether
they are ground are the same, their walks find equal subterms in the same order
(`Term.map_bare_subterms_congr`), and equal substitutions make equal results of them
(`Substitution.Same.value_congr`, `Term.same_replace`).

The sets of an atom are collected along the walk, which finds exactly what is in the terms of the
atom at some depth (`Term.mem_subterms_iff`). Each set holds what there is of its kind, up to
equality and each once (`collects_distinct`), so equal atoms have the same sets
(`sameElements_distinct`).
-/

namespace MarkovLogic

/-! ## Sets up to equality -/

section

variable {β γ : Type} {same : β → β → Bool}

/-- Each of the lists has the elements of the other, up to equality. -/
structure SameElements (same : β → β → Bool) (xs ys : List β) : Prop where
  forth : ∀ x ∈ xs, ∃ y ∈ ys, same x y = true
  back : ∀ y ∈ ys, ∃ x ∈ xs, same x y = true

/-- The list holds the elements with the property, up to equality and each once. -/
structure Collects (same : β → β → Bool) (P : β → Prop) (set : List β) : Prop where
  apart : set.Pairwise fun x y => same x y = false
  found : ∀ x ∈ set, P x
  covers : ∀ x, P x → ∃ y ∈ set, same y x = true

theorem collects_distinct (hrefl : ∀ x, same x x = true) {P : β → Prop} {xs : List β}
    (h : ∀ x, x ∈ xs ↔ P x) : Collects same P (distinct same xs) where
  apart := pairwise_distinct same xs
  found x hx := (h x).1 (distinct_subset same xs hx)
  covers x hx := exists_mem_distinct hrefl ((h x).2 hx)

variable {g : β → γ} (hsame : ∀ x y, same x y = true ↔ g x = g y) {xs ys : List β}

include hsame

theorem exists_same_of_map_eq (h : xs.map g = ys.map g) :
    ∀ x ∈ distinct same xs, ∃ y ∈ distinct same ys, same x y = true := by
  intro x hx
  have hgx : g x ∈ ys.map g := h ▸ List.mem_map_of_mem (distinct_subset same xs hx)
  obtain ⟨y, hy, hyx⟩ := List.mem_map.1 hgx
  obtain ⟨z, hz, hzy⟩ := exists_mem_distinct (fun x => (hsame x x).2 rfl) hy
  exact ⟨z, hz, (hsame x z).2 (hyx.symm.trans ((hsame z y).1 hzy).symm)⟩

/-- The sets collected from lists of equal elements are the same. -/
theorem sameElements_distinct (h : xs.map g = ys.map g) :
    SameElements same (distinct same xs) (distinct same ys) where
  forth := exists_same_of_map_eq hsame h
  back y hy := by
    obtain ⟨x, hx, hyx⟩ := exists_same_of_map_eq hsame h.symm y hy
    exact ⟨x, hx, (hsame x y).2 ((hsame y x).1 hyx).symm⟩

end

/-! ## The walk -/

namespace Term

/-- The first term is the second or is nested in it. -/
inductive Within (s : Term) : Term → Prop where
  | self : Within s s
  | argument {t : Term} {f : Identifier} {args : List Term} {d : Option String} :
    t ∈ args → Within s t → Within s (.app f args d)

theorem self_mem_subterms (t : Term) : t ∈ t.subterms := by
  cases t <;> simp [subterms]

/-- **The walk finds what is nested in a term, and nothing else.** -/
theorem mem_subterms_iff {s : Term} (t : Term) : s ∈ t.subterms ↔ s.Within t := by
  constructor
  · induction t using Term.induction with
    | const c =>
      intro h
      rw [subterms, List.mem_singleton] at h
      exact h ▸ .self
    | var v =>
      intro h
      rw [subterms, List.mem_singleton] at h
      exact h ▸ .self
    | app f args d ih =>
      intro h
      rw [subterms, List.mem_cons, subtermsList_eq, List.mem_flatMap] at h
      rcases h with rfl | ⟨t, ht, hs⟩
      · exact .self
      · exact .argument ht (ih t ht hs)
  · intro h
    induction h with
    | self => exact s.self_mem_subterms
    | argument ht _ ih =>
      rw [subterms, subtermsList_eq]
      exact List.mem_cons_of_mem _ (List.mem_flatMap.2 ⟨_, ht, ih⟩)

/-- The variable, if the term is one. -/
def var? : Term → Option Variable
  | .var v => some v
  | _ => none

/-- The constant, if the term is one. -/
def const? : Term → Option Constant
  | .const c => some c
  | _ => none

/-- The term is a function applied to arguments. -/
def isApp : Term → Bool
  | .app .. => true
  | _ => false

/-- The number of arguments, if the term is a function. -/
def arity? : Term → Option Nat
  | .app _ args _ => some args.length
  | _ => none

theorem var?_eq_some_iff {t : Term} {v : Variable} : t.var? = some v ↔ t = .var v := by
  cases t <;> simp [var?]

theorem const?_eq_some_iff {t : Term} {c : Constant} : t.const? = some c ↔ t = .const c := by
  cases t <;> simp [const?]

theorem arity?_bare (t : Term) : t.bare.arity? = t.arity? := by
  cases t <;> simp [arity?]

variable {ts us : List Term} (h : ts.map bare = us.map bare)

include h

theorem filterMap_var?_congr : ts.filterMap var? = us.filterMap var? := by
  have hbare : ∀ ts : List Term, (ts.map bare).filterMap var? = ts.filterMap var? := by
    intro ts
    rw [List.filterMap_map]
    exact List.filterMap_congr fun t _ => by cases t <;> simp [var?]
  rw [← hbare, h, hbare]

theorem map_bare_filterMap_const?_congr :
    (ts.filterMap const?).map Constant.bare = (us.filterMap const?).map Constant.bare := by
  have hbare : ∀ ts : List Term,
      (ts.map bare).filterMap const? = (ts.filterMap const?).map Constant.bare := by
    intro ts
    rw [List.filterMap_map, List.map_filterMap]
    exact List.filterMap_congr fun t _ => by cases t <;> simp [const?]
  rw [← hbare, h, hbare]

theorem map_bare_filter_isApp_congr :
    (ts.filter isApp).map bare = (us.filter isApp).map bare := by
  have hbare : ∀ ts : List Term, (ts.map bare).filter isApp = (ts.filter isApp).map bare := by
    intro ts
    have happ : isApp ∘ bare = isApp := by
      funext t
      cases t <;> simp [isApp]
    rw [List.filter_map, happ]
  rw [← hbare, h, hbare]

theorem forall₂_same_of_map_bare : List.Forall₂ (fun t u => t.same u = true) ts us := by
  have hbare : List.Forall₂ (fun t u => t.bare = u.bare) ts us := by
    rwa [← List.forall₂_map_right_iff (R := fun t u => Term.bare t = u),
      ← List.forall₂_map_left_iff (R := Eq), List.forall₂_eq_eq_eq]
  exact hbare.imp fun t _ => t.same_iff.2

end Term

/-! ## Replacement -/

namespace Term

variable {t u : Term} {f g : Variable → Term}

theorem bare_replace (f : Variable → Term) (t : Term) :
    (t.replace f).bare = t.bare.replace fun v => (f v).bare := by
  induction t using Term.induction with
  | const c => rfl
  | var v => simp [replace]
  | app k args d ih =>
    have hargs : (args.map (replace f)).map bare =
        (args.map bare).map (replace fun v => (f v).bare) := by
      rw [List.map_map, List.map_map]
      exact List.map_congr_left ih
    rw [replace, replaceList_eq, bare_app, bare_app, replace, replaceList_eq, hargs]

/-- Equal images make equal results of equal terms. -/
theorem same_replace (h : t.same u = true)
    (hf : ∀ v, t.Mentions v → (f v).same (g v) = true) :
    (t.replace f).same (u.replace g) = true := by
  rw [same_iff, bare_replace, bare_replace, ← t.same_iff.1 h]
  exact replace_congr fun v hv => (f v).same_iff.1 (hf v (t.mentions_bare.1 hv))

end Term

theorem Atom.same_replace {a b : Atom} {f g : Variable → Term} (h : a.same b = true)
    (hf : ∀ v, (f v).same (g v) = true) : (a.replace f).same (b.replace g) = true := by
  obtain ⟨hpredicate, hterms⟩ := Atom.same_iff.1 h
  have himages : (fun v => (f v).bare) = fun v => (g v).bare :=
    funext fun v => (f v).same_iff.1 (hf v)
  have hmap : ∀ (f : Variable → Term) (ts : List Term), (ts.map (Term.replace f)).map Term.bare =
      (ts.map Term.bare).map (Term.replace fun v => (f v).bare) := by
    intro f ts
    rw [List.map_map, List.map_map]
    exact List.map_congr_left fun t _ => t.bare_replace f
  rw [Atom.same_iff]
  refine ⟨hpredicate, ?_⟩
  rw [Atom.replace, Atom.replace, hmap, hmap, hterms, himages]

/-! ## Equal substitutions -/

namespace Substitution

/-- The substitutions bind the same variables, each to equal terms. -/
def Same (θ θ' : Substitution) : Prop :=
  ∀ v, (θ.get? v = none ∧ θ'.get? v = none) ∨
    ∃ t u, θ.get? v = some (.proper t) ∧ θ'.get? v = some (.proper u) ∧ t.same u = true

variable {θ θ' : Substitution}

namespace Same

theorem symm (h : θ.Same θ') : θ'.Same θ := by
  intro v
  rcases h v with ⟨hfree, hfree'⟩ | ⟨t, u, ht, hu, htu⟩
  · exact .inl ⟨hfree', hfree⟩
  · exact .inr ⟨u, t, hu, ht, Term.same_equivalence.symm htu⟩

theorem bindsTerms (h : θ.Same θ') : θ.BindsTerms := by
  intro v s hs
  rcases h v with ⟨hfree, -⟩ | ⟨t, -, ht, -⟩
  · exact Option.some_ne_none _ (hs.symm.trans hfree)
  · cases hs.symm.trans ht

/-- Equal substitutions have the same chains. -/
theorem leads (h : θ.Same θ') {v u : Variable} (hlead : θ'.Leads v u) : θ.Leads v u := by
  obtain ⟨t', ht', hu⟩ := hlead
  rcases h v with ⟨-, hfree⟩ | ⟨t, s, ht, hs, hts⟩
  · exact absurd (ht'.symm.trans hfree) (Option.some_ne_none _)
  · obtain rfl := Given.proper.inj (Option.some.inj (ht'.symm.trans hs))
    exact ⟨t, ht, (t.mentions_congr hts u).2 hu⟩

theorem acyclic (h : θ.Same θ') (hacyclic : θ.Acyclic) : θ'.Acyclic :=
  hacyclic.of_leads fun _ _ => h.leads

/-- **Under equal substitutions a variable has equal values.** -/
theorem value_congr (h : θ.Same θ') (hacyclic : θ.Acyclic) (v : Variable) :
    (θ.value v).same (θ'.value v) = true := by
  have hbinds : θ.BindsTerms := h.bindsTerms
  have hbinds' : θ'.BindsTerms := h.symm.bindsTerms
  have hacyclic' : θ'.Acyclic := h.acyclic hacyclic
  obtain ⟨rank, hrank, -, -⟩ := hacyclic.exists_rank
  induction hk : rank v using Nat.strong_induction_on generalizing v with
  | _ k ih =>
    rcases h v with ⟨hfree, hfree'⟩ | ⟨t, u, ht, hu, htu⟩
    · rw [value_of_free hfree, value_of_free hfree']
      exact Term.same_refl _
    · rw [value_of_bound hbinds hacyclic ht, value_of_bound hbinds' hacyclic' hu]
      exact Term.same_replace htu fun w hw => ih (rank w) (hk ▸ hrank v w ⟨t, ht, hw⟩) w rfl

end Same

end Substitution

/-! ## Interchange -/

/-- The same variables, constants and functions are collected from the terms. -/
structure Term.SameSets (ts us : List Term) : Prop where
  vars : SameElements (fun v w => v = w) (distinct (fun v w => v = w) (ts.filterMap var?))
    (distinct (fun v w => v = w) (us.filterMap var?))
  constants : SameElements Constant.same (distinct Constant.same (ts.filterMap const?))
    (distinct Constant.same (us.filterMap const?))
  functions : SameElements Term.same (distinct Term.same (ts.filter isApp))
    (distinct Term.same (us.filter isApp))

/-- Nothing tells the terms apart. -/
structure Term.Interchange (t u : Term) : Prop where
  text : t.text = u.text
  isGround : t.isGround = u.isGround
  arity : t.arity? = u.arity?
  /-- The walks find equal terms in the same order. -/
  walk : List.Forall₂ (fun s s' => s.same s' = true) t.subterms u.subterms
  sets : SameSets t.subterms u.subterms
  occurs : ∀ s s' : Term, s.same s' = true → t.hasSubterm s = u.hasSubterm s'
  substituted : ∀ θ θ' : Substitution, θ.Same θ' → θ.Acyclic → θ'.Acyclic ∧
    ∃ r r', θ.apply t = .ok r ∧ θ'.apply u = .ok r' ∧ r.same r' = true

/-- Nothing tells the atoms apart. -/
structure Atom.Interchange (a b : Atom) : Prop where
  text : a.text = b.text
  isGround : a.isGround = b.isGround
  arity : a.arity = b.arity
  signature : a.signature = b.signature
  vars : SameElements (fun v w => v = w) a.vars b.vars
  constants : SameElements Constant.same a.constants b.constants
  functions : SameElements Term.same a.functions b.functions
  substituted : ∀ θ θ' : Substitution, θ.Same θ' → θ.Acyclic → θ'.Acyclic ∧
    ∃ c c', a.substitute θ = .ok c ∧ b.substitute θ' = .ok c' ∧ c.same c' = true

/-- The term is an argument of the atom or nested in one. -/
def Atom.Holds (a : Atom) (s : Term) : Prop :=
  ∃ t ∈ a.terms, s.Within t

/-- The sets of the atom hold what there is of each kind in its arguments. -/
structure Atom.CollectsAll (a : Atom) : Prop where
  vars : Collects (fun v w => v = w) (fun v => a.Holds (.var v)) a.vars
  constants : Collects Constant.same (fun c => a.Holds (.const c)) a.constants
  functions : Collects Term.same (fun t => a.Holds t ∧ t.isApp = true) a.functions

/-- The same is collected from equal terms. -/
theorem Term.sameSets {ts us : List Term} (h : ts.map bare = us.map bare) : SameSets ts us where
  vars := by
    rw [filterMap_var?_congr h]
    exact sameElements_distinct (g := id) (fun _ _ => decide_eq_true_iff) rfl
  constants := sameElements_distinct (g := Constant.bare) (fun _ _ => Constant.same_iff)
    (map_bare_filterMap_const?_congr h)
  functions := sameElements_distinct (fun t _ => t.same_iff) (map_bare_filter_isApp_congr h)

theorem Term.interchange {t u : Term} (h : t.same u = true) : t.Interchange u where
  text := by rw [Term.text, Term.text, chars_congr h]
  isGround := isGround_congr h
  arity := by rw [← arity?_bare, t.same_iff.1 h, arity?_bare]
  walk := forall₂_same_of_map_bare (map_bare_subterms_congr h)
  sets := sameSets (map_bare_subterms_congr h)
  occurs _ _ hs := hasSubterm_congr h hs
  substituted _ _ hθ hacyclic := ⟨hθ.acyclic hacyclic, _, _,
    Substitution.substitute_eq hθ.bindsTerms t, Substitution.substitute_eq hθ.symm.bindsTerms u,
    same_replace h fun v _ => hθ.value_congr hacyclic v⟩

theorem Atom.interchange {a b : Atom} (h : a.same b = true) : a.Interchange b := by
  have hsets : Term.SameSets a.subterms b.subterms := Term.sameSets (map_bare_subterms_congr h)
  exact {
    text := by rw [Atom.text, Atom.text, chars_congr h]
    isGround := isGround_congr h
    arity := arity_congr h
    signature := by rw [signature, signature, arity_congr h, (same_iff.1 h).1]
    vars := hsets.vars
    constants := hsets.constants
    functions := hsets.functions
    substituted := fun _ _ hθ hacyclic => ⟨hθ.acyclic hacyclic, _, _,
      Substitution.substitute_eq hθ.bindsTerms a, Substitution.substitute_eq hθ.symm.bindsTerms b,
      same_replace h fun v => hθ.value_congr hacyclic v⟩ }

theorem Atom.holds_iff (a : Atom) {s : Term} : a.Holds s ↔ s ∈ a.subterms := by
  simp only [Holds, subterms, List.mem_flatMap, Term.mem_subterms_iff]

theorem Atom.collectsAll (a : Atom) : a.CollectsAll where
  vars := by
    refine collects_distinct ?_ fun v => ?_
    · exact fun _ => decide_eq_true rfl
    · rw [holds_iff]
      exact (List.mem_filterMap (f := Term.var?)).trans (by simp [Term.var?_eq_some_iff])
  constants := by
    refine collects_distinct (fun _ => Constant.same_iff.2 rfl) fun c => ?_
    rw [holds_iff]
    exact (List.mem_filterMap (f := Term.const?)).trans (by simp [Term.const?_eq_some_iff])
  functions := by
    refine collects_distinct Term.same_refl fun t => ?_
    rw [holds_iff]
    exact List.mem_filter (p := Term.isApp)

/-- **Equal terms are interchangeable, and so are equal atoms.** Equality, which reads all but the
domains of constants, is an equivalence. -/
theorem Term.equal_interchangeable :
    (∀ t u : Term, t.same u = true ↔ t.bare = u.bare) ∧
      (Equivalence fun t u : Term => t.same u = true) ∧
      (Equivalence fun a b : Atom => a.same b = true) ∧
      (∀ t u : Term, t.same u = true → t.Interchange u) ∧
      (∀ a b : Atom, a.same b = true → a.Interchange b) ∧
      ∀ a : Atom, a.CollectsAll :=
  ⟨fun t _ => t.same_iff, Term.same_equivalence, Atom.same_equivalence,
    fun _ _ => Term.interchange, fun _ _ => Atom.interchange, Atom.collectsAll⟩

/-! ## Ida of two domains -/

namespace Substitution

/-- The constant `Ida` of a domain. -/
def ida (domain : String) : Term :=
  .const ⟨⟨"Ida", by decide⟩, some domain, by decide⟩

/-- The bindings `p ↦ Heir(e,Ida)` and `e ↦ Ida`. -/
def idaKin : Substitution :=
  .ofList [(parent, .proper (heir (.var elder) (ida "person"))), (elder, .proper (ida "event"))]

/-- The same bindings the other way round, with `Ida` of the other domain. -/
def idaKin' : Substitution :=
  .ofList [(elder, .proper (ida "person")), (parent, .proper (heir (.var elder) (ida "event")))]

theorem same_idaKin : idaKin.Same idaKin' := by
  intro v
  by_cases hparent : v = parent
  · subst hparent
    exact .inr ⟨_, _, rfl, rfl, by decide⟩
  · by_cases helder : v = elder
    · subst helder
      exact .inr ⟨_, _, rfl, rfl, by decide⟩
    · refine .inl ⟨?_, ?_⟩ <;> simp [idaKin, idaKin', Table.ofList, hparent, helder]

theorem acyclic_idaKin : idaKin.Acyclic := by
  refine acyclic_of_rank (fun v => if v = parent then 2 else if v = elder then 1 else 0) ?_
  rintro v u ⟨t, ht, hu⟩
  rw [Table.get?_eq_some_iff, idaKin, Table.toList_ofList (by decide)] at ht
  rcases List.mem_pair.1 ht with h | h <;> obtain ⟨rfl, himage⟩ := Prod.mk.inj h <;>
    obtain rfl := Given.proper.inj himage
  · obtain rfl : u = elder := by simpa [heir, ida] using hu
    decide
  · exact absurd hu (Term.not_mentions_const _)

theorem interchange_idaKin :
    (heir (ida "person") (.var parent)).same (heir (ida "event") (.var parent)) = true ∧
      idaKin.Same idaKin' ∧ idaKin.Acyclic ∧
      ∃ r r', idaKin.apply (heir (ida "person") (.var parent)) = .ok r ∧
        idaKin'.apply (heir (ida "event") (.var parent)) = .ok r' ∧ r.same r' = true := by
  have hsame : (heir (ida "person") (.var parent)).same (heir (ida "event") (.var parent)) :=
    by decide
  have hequal : (heir (ida "person") (.var parent)).Interchange
      (heir (ida "event") (.var parent)) := Term.equal_interchangeable.2.2.2.1 _ _ hsame
  exact ⟨hsame, same_idaKin, acyclic_idaKin,
    (hequal.substituted _ _ same_idaKin acyclic_idaKin).2⟩

end Substitution

end MarkovLogic
