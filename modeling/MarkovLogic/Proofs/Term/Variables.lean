import MarkovLogic.Proofs.Term.Equality

/-!
# Variables of terms and their replacement

A variable occurs in a term if it is found there as a subterm (`Term.Mentions`), and equal terms
have the same variables (`Term.mentions_congr`). `Term.replace` puts a term in the place of every
variable, all at once: what occurs in the result occurs in what was put there
(`Term.mentions_replace`), and only what is put for variables that occur matters
(`Term.replace_congr`).

Atoms and literals have the variables of their terms and are replaced in term by term.
`Substitutable` collects what terms, atoms and literals have in common in this, so that what holds
of substitutions is said and proved once.
-/

namespace MarkovLogic

namespace Term

variable {v w : Variable}

/-! ## Variables that occur -/

/-- The variable occurs in the term. -/
def Mentions (t : Term) (v : Variable) : Prop :=
  t.hasSubterm (.var v) = true

@[simp]
theorem not_mentions_const (c : Constant) : ¬ (Term.const c).Mentions v := by
  simp [Mentions, hasSubterm, subterms, same]

@[simp]
theorem mentions_var : (Term.var w).Mentions v ↔ v = w := by
  simp [Mentions, hasSubterm, subterms, same, eq_comm]

@[simp]
theorem mentions_app {f : Identifier} {args : List Term} {d : Option String} :
    (Term.app f args d).Mentions v ↔ ∃ t ∈ args, t.Mentions v := by
  simp [Mentions, hasSubterm, subterms, subtermsList_eq, same]

/-- A term is ground if no variable occurs in it. -/
theorem isGround_iff (t : Term) : t.isGround = true ↔ ∀ v, ¬ t.Mentions v := by
  induction t using Term.induction with
  | const c => simp [isGround]
  | var w => simp [isGround]
  | app f args d ih =>
    rw [isGround, isGroundList_eq, List.all_eq_true]
    simp only [mentions_app, not_exists, not_and]
    constructor
    · exact fun h v t ht => (ih t ht).1 (h t ht) v
    · exact fun h t ht => (ih t ht).2 fun v => h v t ht

theorem mentions_bare (t : Term) : t.bare.Mentions v ↔ t.Mentions v := by
  rw [Mentions, Mentions, hasSubterm_iff, hasSubterm_iff, bare_bare]

/-- **The same variables occur in equal terms.** -/
theorem mentions_congr (t : Term) {u : Term} (h : t.same u = true) (v : Variable) :
    t.Mentions v ↔ u.Mentions v := by
  rw [Mentions, Mentions, hasSubterm_congr h (same_refl (.var v))]

/-! ## Replacement -/

section Replacement

variable (f : Variable → Term)

mutual

/-- The term with every variable replaced by its image, all at once. -/
def replace : Term → Term
  | .const c => .const c
  | .var v => f v
  | .app g args d => .app g (replaceList args) d

/-- The terms with every variable replaced by its image. -/
def replaceList : List Term → List Term
  | [] => []
  | t :: ts => replace t :: replaceList ts

end

end Replacement

variable {f g : Variable → Term}

theorem replaceList_eq (ts : List Term) : replaceList f ts = ts.map (replace f) := by
  induction ts with
  | nil => rfl
  | cons t ts ih => rw [replaceList, ih, List.map_cons]

/-- Only the images of the variables that occur matter. -/
theorem replace_congr {t : Term} (h : ∀ v, t.Mentions v → f v = g v) :
    t.replace f = t.replace g := by
  induction t using Term.induction with
  | const c => rfl
  | var v => exact h v (mentions_var.2 rfl)
  | app k args d ih =>
    have hargs : args.map (replace f) = args.map (replace g) :=
      List.map_congr_left fun t ht => ih t ht fun v hv => h v (mentions_app.2 ⟨t, ht, hv⟩)
    rw [replace, replace, replaceList_eq, replaceList_eq, hargs]

theorem replace_var (t : Term) : t.replace .var = t := by
  induction t using Term.induction with
  | const c => rfl
  | var v => rfl
  | app k args d ih =>
    have hargs : args.map (replace .var) = args := by
      rw [List.map_congr_left ih, List.map_id']
    rw [replace, replaceList_eq, hargs]

theorem replace_eq_self {t : Term} (h : ∀ v, t.Mentions v → f v = .var v) : t.replace f = t :=
  (replace_congr h).trans t.replace_var

theorem replace_replace (t : Term) :
    (t.replace f).replace g = t.replace fun v => (f v).replace g := by
  induction t using Term.induction with
  | const c => rfl
  | var v => rfl
  | app k args d ih =>
    have hargs : (args.map (replace f)).map (replace g) =
        args.map (replace fun v => (f v).replace g) := by
      rw [List.map_map]
      exact List.map_congr_left ih
    simp only [replace, replaceList_eq, hargs]

/-- **What occurs after a replacement occurs in the image of a variable that occurred.** -/
theorem mentions_replace (t : Term) :
    (t.replace f).Mentions w ↔ ∃ v, t.Mentions v ∧ (f v).Mentions w := by
  induction t using Term.induction with
  | const c => simp [replace]
  | var v => simp [replace]
  | app k args d ih =>
    rw [replace, replaceList_eq, mentions_app]
    simp only [List.mem_map, mentions_app]
    constructor
    · rintro ⟨_, ⟨t, ht, rfl⟩, hw⟩
      obtain ⟨v, hv, hw⟩ := (ih t ht).1 hw
      exact ⟨v, ⟨t, ht, hv⟩, hw⟩
    · rintro ⟨v, ⟨t, ht, hv⟩, hw⟩
      exact ⟨_, ⟨t, ht, rfl⟩, (ih t ht).2 ⟨v, hv, hw⟩⟩

/-! ## Replacement that may fail -/

theorem bindVarsList_eq_mapM {ε : Type} (f : Variable → Except ε Term) (ts : List Term) :
    bindVarsList f ts = ts.mapM (bindVars f) := by
  induction ts with
  | nil => rfl
  | cons t ts ih => rw [bindVarsList, ih, List.mapM_cons]

/-- Where every image is there, nothing fails. -/
theorem bindVars_eq_ok {ε : Type} {e : Variable → Except ε Term} (h : ∀ v, e v = .ok (f v))
    (t : Term) : t.bindVars e = .ok (t.replace f) := by
  induction t using Term.induction with
  | const c => rfl
  | var v => exact h v
  | app k args d ih =>
    rw [bindVars, replace, replaceList_eq, bindVarsList_eq_mapM, mapM_eq_ok_map ih]
    rfl

end Term

/-! ## Atoms and literals -/

namespace Atom

/-- The atom with every variable replaced by its image, all at once. -/
def replace (f : Variable → Term) (a : Atom) : Atom :=
  ⟨a.predicate, a.terms.map (Term.replace f)⟩

theorem mem_vars_iff {a : Atom} {v : Variable} : v ∈ a.vars ↔ ∃ t ∈ a.terms, t.Mentions v := by
  have hsame : ∀ s : Term, s.same (.var v) = true ↔ s = .var v := by
    intro s
    cases s <;> simp [Term.same]
  rw [vars, mem_distinct]
  simp only [subterms, List.mem_filterMap, List.mem_flatMap, Term.Mentions, Term.hasSubterm,
    List.any_eq_true, hsame, exists_eq_right]
  constructor
  · rintro ⟨s, ⟨t, ht, hs⟩, hv⟩
    cases s with
    | const c => cases hv
    | app f args d => cases hv
    | var u =>
      obtain rfl := Option.some.inj hv
      exact ⟨t, ht, hs⟩
  · rintro ⟨t, ht, hv⟩
    exact ⟨_, ⟨t, ht, hv⟩, rfl⟩

theorem mem_vars_replace {f : Variable → Term} {a : Atom} {w : Variable} :
    w ∈ (a.replace f).vars ↔ ∃ v ∈ a.vars, (f v).Mentions w := by
  simp only [mem_vars_iff, replace, List.mem_map]
  constructor
  · rintro ⟨_, ⟨t, ht, rfl⟩, hw⟩
    obtain ⟨v, hv, hw⟩ := t.mentions_replace.1 hw
    exact ⟨v, ⟨t, ht, hv⟩, hw⟩
  · rintro ⟨v, ⟨t, ht, hv⟩, hw⟩
    exact ⟨_, ⟨t, ht, rfl⟩, t.mentions_replace.2 ⟨v, hv, hw⟩⟩

theorem replace_replace (a : Atom) (f g : Variable → Term) :
    (a.replace f).replace g = a.replace fun v => (f v).replace g := by
  simp [replace, Function.comp_def, Term.replace_replace]

theorem replace_eq_self {a : Atom} {f : Variable → Term} (h : ∀ v ∈ a.vars, f v = .var v) :
    a.replace f = a := by
  have hterms : a.terms.map (Term.replace f) = a.terms := by
    refine (List.map_congr_left fun t ht => ?_).trans (List.map_id' a.terms)
    exact Term.replace_eq_self fun v hv => h v (mem_vars_iff.2 ⟨t, ht, hv⟩)
  rw [replace, hterms]

theorem isGround_iff (a : Atom) : a.isGround = true ↔ ∀ v, v ∉ a.vars := by
  simp only [isGround, List.all_eq_true, Term.isGround_iff, mem_vars_iff, not_exists, not_and]
  exact ⟨fun h v t ht => h t ht v, fun h t ht v => h v t ht⟩

theorem mem_vars_congr {a b : Atom} (h : a.same b = true) (v : Variable) :
    v ∈ a.vars ↔ v ∈ b.vars := by
  have hvars : ∀ a : Atom, v ∈ a.vars ↔ ∃ t ∈ a.terms.map Term.bare, t.Mentions v := by
    intro a
    simp [mem_vars_iff, Term.mentions_bare]
  rw [hvars, hvars, (same_iff.1 h).2]

theorem substitute_eq_ok {a : Atom} {θ : Substitution} {f : Variable → Term}
    (h : ∀ t : Term, θ.apply t = .ok (t.replace f)) : a.substitute θ = .ok (a.replace f) := by
  rw [substitute, mapM_eq_ok_map fun t _ => h t]
  rfl

end Atom

/-- The literal with every variable replaced by its image, all at once. -/
def Literal.replace (f : Variable → Term) (l : Literal) : Literal :=
  ⟨l.atom.replace f, l.positive⟩

/-! ## What a substitution applies to -/

/-- Terms and what is built of them, with the operations of each and the laws they share. -/
class Substitutable (E : Type) where
  substitute : Substitution → E → Except Scalar E
  replace : (Variable → Term) → E → E
  Mentions : E → Variable → Prop
  isGround : E → Bool
  same : E → E → Bool
  substitute_eq_ok : ∀ {θ : Substitution} {f : Variable → Term},
    (∀ t : Term, θ.apply t = .ok (t.replace f)) → ∀ e, substitute θ e = .ok (replace f e)
  mentions_replace : ∀ {f : Variable → Term} (e : E) {w : Variable},
    Mentions (replace f e) w ↔ ∃ v, Mentions e v ∧ (f v).Mentions w
  replace_replace : ∀ (e : E) (f g : Variable → Term),
    replace g (replace f e) = replace (fun v => (f v).replace g) e
  replace_eq_self : ∀ {e : E} {f : Variable → Term},
    (∀ v, Mentions e v → f v = .var v) → replace f e = e
  isGround_iff : ∀ e, isGround e = true ↔ ∀ v, ¬ Mentions e v
  same_refl : ∀ e, same e e = true
  mentions_congr : ∀ {e e' : E}, same e e' = true → ∀ v, Mentions e v ↔ Mentions e' v

instance : Substitutable Term where
  substitute := Substitution.apply
  replace := Term.replace
  Mentions := Term.Mentions
  isGround := Term.isGround
  same := Term.same
  substitute_eq_ok h := h
  mentions_replace t _ := t.mentions_replace
  replace_replace t _ _ := t.replace_replace
  replace_eq_self := Term.replace_eq_self
  isGround_iff := Term.isGround_iff
  same_refl := Term.same_refl
  mentions_congr {t _} h := t.mentions_congr h

instance : Substitutable Atom where
  substitute θ a := a.substitute θ
  replace := Atom.replace
  Mentions a v := v ∈ a.vars
  isGround := Atom.isGround
  same := Atom.same
  substitute_eq_ok h _ := Atom.substitute_eq_ok h
  mentions_replace _ := Atom.mem_vars_replace
  replace_replace := Atom.replace_replace
  replace_eq_self := Atom.replace_eq_self
  isGround_iff := Atom.isGround_iff
  same_refl := Atom.same_refl
  mentions_congr := Atom.mem_vars_congr

instance : Substitutable Literal where
  substitute θ l := l.substitute θ
  replace := Literal.replace
  Mentions l v := v ∈ l.atom.vars
  isGround l := l.atom.isGround
  same := Literal.same
  substitute_eq_ok h l := by
    rw [Literal.substitute, Atom.substitute_eq_ok h]
    rfl
  mentions_replace _ := Atom.mem_vars_replace
  replace_replace l f g := congrArg (Literal.mk · l.positive) (l.atom.replace_replace f g)
  replace_eq_self {l _} h := congrArg (Literal.mk · l.positive) (Atom.replace_eq_self h)
  isGround_iff l := l.atom.isGround_iff
  same_refl l := by simp [Literal.same, Atom.same_refl]
  mentions_congr h v := by
    rw [Literal.same, Bool.and_eq_true] at h
    exact Atom.mem_vars_congr h.1 v

end MarkovLogic
