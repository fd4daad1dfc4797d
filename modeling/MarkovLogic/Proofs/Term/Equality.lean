import MarkovLogic.Atom
import MarkovLogic.Proofs.Distinct
import Mathlib.Order.Basic

/-!
# Equality of terms

Equality reads everything in a term but the domains of its constants. So terms are equal exactly if
they are the same without these domains (`Term.same_iff`), and equality is an equivalence relation.
What does not read the domains of constants is the same for a term and its bare form, and hence for
equal terms: the text (`Term.chars_bare`), whether there are variables (`Term.isGround_bare`), the
subterms up to equality (`Term.subterms_bare`) and what is found among them (`Term.hasSubterm_iff`).
-/

namespace MarkovLogic

/-- The constant without its domain. -/
def Constant.bare (c : Constant) : Constant :=
  ⟨c.symbol, none, c.notLower⟩

theorem Constant.same_iff {c d : Constant} : c.same d = true ↔ c.bare = d.bare := by
  simp [same, bare]

namespace Term

mutual

/-- The term without the domains of its constants. -/
def bare : Term → Term
  | .const c => .const c.bare
  | .var v => .var v
  | .app f args d => .app f (bareList args) d

/-- The terms without the domains of their constants. -/
def bareList : List Term → List Term
  | [] => []
  | t :: ts => bare t :: bareList ts

end

theorem bareList_eq (ts : List Term) : bareList ts = ts.map bare := by
  induction ts with
  | nil => rfl
  | cons t ts ih => rw [bareList, ih, List.map_cons]

@[simp]
theorem bare_const (c : Constant) : (Term.const c).bare = .const c.bare := by
  rw [bare]

@[simp]
theorem bare_var (v : Variable) : (Term.var v).bare = .var v := by
  rw [bare]

@[simp]
theorem bare_app (f : Identifier) (args : List Term) (d : Option String) :
    (Term.app f args d).bare = .app f (args.map bare) d := by
  rw [bare, bareList_eq]

theorem bare_bare (t : Term) : t.bare.bare = t.bare := by
  induction t using Term.induction with
  | const c => rfl
  | var v => rfl
  | app f args d ih =>
    have hargs : args.map (bare ∘ bare) = args.map bare := List.map_congr_left ih
    rw [bare_app, bare_app, List.map_map, hargs]

/-! ## Equality -/

theorem sameList_iff_of_forall {ts : List Term}
    (h : ∀ t ∈ ts, ∀ u : Term, t.same u = true ↔ t.bare = u.bare) :
    ∀ {us : List Term}, sameList ts us = true ↔ ts.map bare = us.map bare := by
  induction ts with
  | nil => intro us; cases us <;> simp [sameList]
  | cons t ts ih =>
    intro us
    obtain ⟨ht, hts⟩ := List.forall_mem_cons.1 h
    cases us with
    | nil => simp [sameList]
    | cons u us => simp [sameList, ht u, ih hts]

/-- **Terms are equal if they are the same without the domains of constants.** -/
theorem same_iff (t : Term) : ∀ {u : Term}, t.same u = true ↔ t.bare = u.bare := by
  induction t using Term.induction with
  | const c =>
    intro u
    cases u <;> simp [same, bare, Constant.same_iff]
  | var v =>
    intro u
    cases u <;> simp [same, bare]
  | app f args d ih =>
    intro u
    have hargs : ∀ {us : List Term}, sameList args us = true ↔ args.map bare = us.map bare :=
      sameList_iff_of_forall fun t ht u => ih t ht
    cases u with
    | const c => simp [same, bare]
    | var v => simp [same, bare]
    | app g us e => simp [same, hargs, and_assoc, and_comm (a := d = e)]

theorem sameList_iff {ts us : List Term} : sameList ts us = true ↔ ts.map bare = us.map bare :=
  sameList_iff_of_forall fun t _ _ => t.same_iff

theorem same_refl (t : Term) : t.same t = true :=
  t.same_iff.2 rfl

theorem same_equivalence : Equivalence fun t u : Term => t.same u = true where
  refl := same_refl
  symm {t u} h := u.same_iff.2 (t.same_iff.1 h).symm
  trans {t u _} h h' := t.same_iff.2 ((t.same_iff.1 h).trans (u.same_iff.1 h'))

/-! ## What equality keeps -/

theorem charsList_map_bare {ts : List Term} (h : ∀ t ∈ ts, t.bare.chars = t.chars) :
    charsList (ts.map bare) = charsList ts := by
  induction ts with
  | nil => rfl
  | cons t ts ih =>
    obtain ⟨ht, hts⟩ := List.forall_mem_cons.1 h
    cases ts with
    | nil => exact ht
    | cons u us =>
      have htail := ih hts
      rw [List.map_cons] at htail
      rw [List.map_cons, List.map_cons, charsList, htail, ht, charsList]

theorem chars_bare (t : Term) : t.bare.chars = t.chars := by
  induction t using Term.induction with
  | const c => rfl
  | var v => rfl
  | app f args d ih => rw [bare_app, chars, chars, charsList_map_bare ih]

theorem all_isGround_map_bare {ts : List Term} (h : ∀ t ∈ ts, t.bare.isGround = t.isGround) :
    (ts.map bare).all isGround = ts.all isGround := by
  induction ts with
  | nil => rfl
  | cons t ts ih =>
    obtain ⟨ht, hts⟩ := List.forall_mem_cons.1 h
    rw [List.map_cons, List.all_cons, List.all_cons, ht, ih hts]

theorem isGround_bare (t : Term) : t.bare.isGround = t.isGround := by
  induction t using Term.induction with
  | const c => rfl
  | var v => rfl
  | app f args d ih =>
    rw [bare_app, isGround, isGround, isGroundList_eq, isGroundList_eq, all_isGround_map_bare ih]

theorem flatMap_subterms_map_bare {ts : List Term}
    (h : ∀ t ∈ ts, t.bare.subterms = t.subterms.map bare) :
    (ts.map bare).flatMap subterms = (ts.flatMap subterms).map bare := by
  rw [List.flatMap_map, List.map_flatMap]
  exact List.flatMap_congr h

/-- The subterms of the bare term are those of the term, each without the domains of constants. -/
theorem subterms_bare (t : Term) : t.bare.subterms = t.subterms.map bare := by
  induction t using Term.induction with
  | const c => rfl
  | var v => rfl
  | app f args d ih =>
    rw [bare_app, subterms, subterms, subtermsList_eq, subtermsList_eq, List.map_cons, bare_app,
      flatMap_subterms_map_bare ih]

theorem hasSubterm_iff {t needle : Term} :
    t.hasSubterm needle = true ↔ needle.bare ∈ t.bare.subterms := by
  simp only [hasSubterm, List.any_eq_true, same_iff, subterms_bare, List.mem_map]

variable {t u : Term}

theorem chars_congr (h : t.same u = true) : t.chars = u.chars := by
  rw [← chars_bare, t.same_iff.1 h, chars_bare]

theorem isGround_congr (h : t.same u = true) : t.isGround = u.isGround := by
  rw [← isGround_bare, t.same_iff.1 h, isGround_bare]

theorem map_bare_subterms_congr (h : t.same u = true) :
    t.subterms.map bare = u.subterms.map bare := by
  rw [← subterms_bare, t.same_iff.1 h, subterms_bare]

/-- Equal terms are found in equal terms. -/
theorem hasSubterm_congr (h : t.same u = true) {needle needle' : Term}
    (hneedle : needle.same needle' = true) : t.hasSubterm needle = u.hasSubterm needle' := by
  rw [Bool.eq_iff_iff, hasSubterm_iff, hasSubterm_iff, t.same_iff.1 h, needle.same_iff.1 hneedle]

end Term

/-! ## Atoms -/

namespace Atom

theorem same_iff {a b : Atom} : a.same b = true ↔
    a.predicate = b.predicate ∧ a.terms.map Term.bare = b.terms.map Term.bare := by
  simp [same, Term.sameList_iff]

theorem same_refl (a : Atom) : a.same a = true :=
  same_iff.2 ⟨rfl, rfl⟩

theorem same_equivalence : Equivalence fun a b : Atom => a.same b = true where
  refl := same_refl
  symm h := same_iff.2 ⟨(same_iff.1 h).1.symm, (same_iff.1 h).2.symm⟩
  trans h h' := same_iff.2
    ⟨(same_iff.1 h).1.trans (same_iff.1 h').1, (same_iff.1 h).2.trans (same_iff.1 h').2⟩

variable {a b : Atom}

theorem chars_congr (h : a.same b = true) : a.chars = b.chars := by
  obtain ⟨hpredicate, hterms⟩ := same_iff.1 h
  have hchars : ∀ ts : List Term, Term.charsList (ts.map Term.bare) = Term.charsList ts :=
    fun ts => Term.charsList_map_bare fun t _ => t.chars_bare
  rw [chars, chars, hpredicate, ← hchars a.terms, hterms, hchars]

theorem isGround_congr (h : a.same b = true) : a.isGround = b.isGround := by
  have hground : ∀ ts : List Term, (ts.map Term.bare).all Term.isGround = ts.all Term.isGround :=
    fun ts => Term.all_isGround_map_bare fun t _ => t.isGround_bare
  rw [isGround, isGround, ← hground, (same_iff.1 h).2, hground]

theorem arity_congr (h : a.same b = true) : a.arity = b.arity := by
  have hlength := congrArg List.length (same_iff.1 h).2
  rwa [List.length_map, List.length_map] at hlength

theorem map_bare_subterms_congr (h : a.same b = true) :
    a.subterms.map Term.bare = b.subterms.map Term.bare := by
  have hsubterms : ∀ ts : List Term, (ts.map Term.bare).flatMap Term.subterms =
      (ts.flatMap Term.subterms).map Term.bare :=
    fun ts => Term.flatMap_subterms_map_bare fun t _ => t.subterms_bare
  rw [subterms, subterms, ← hsubterms, (same_iff.1 h).2, hsubterms]

end Atom

end MarkovLogic
