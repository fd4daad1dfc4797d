import MarkovLogic.Proofs.Term.Chains
import Mathlib.Logic.Function.Iterate

/-!
# Complete resolution

Under an acyclic substitution every variable has a value (`Substitution.value`), and applying the
substitution puts the values in the place of the variables (`substitute_eq`). A value is what comes
of a variable when bound variables are replaced by their images again and again
(`iterate_once_eq`). Free variables are their own values, and the value of a bound variable is its
image with the values in it (`value_of_bound`), so that the variables left are the free ones at the
ends of chains (`mentions_value_iff`).

So terms, atoms and literals are resolved completely (`resolvesAll_of_acyclic`).
-/

namespace MarkovLogic

namespace Substitution

open Relation (ReflTransGen)
open Substitutable (Mentions)

variable {E : Type} [Substitutable E]

/-! ## Single steps -/

/-- The image of a variable; a free variable is its own. -/
def image (θ : Substitution) (v : Variable) : Term :=
  match θ.get? v with
  | some (.proper t) => t
  | _ => .var v

/-- Every bound variable that occurs replaced by its image, all at once and once only. -/
def once (θ : Substitution) (e : E) : E :=
  Substitutable.replace θ.image e

/-- What comes of a variable after as many steps as there are bindings. -/
def value (θ : Substitution) (v : Variable) : Term :=
  θ.once^[θ.size] (.var v)

variable {θ : Substitution} {v w : Variable}

theorem image_of_free (h : θ.get? v = none) : θ.image v = .var v := by
  simp only [image, h]

theorem image_of_bound {t : Term} (h : θ.get? v = some (.proper t)) : θ.image v = t := by
  simp only [image, h]

theorem mentions_once_iff (h : θ.BindsTerms) {t : Term} :
    (θ.once t).Mentions w ↔
      (t.Mentions w ∧ θ.get? w = none) ∨ ∃ v, t.Mentions v ∧ θ.Leads v w := by
  refine (Term.mentions_replace t).trans ⟨?_, ?_⟩
  · rintro ⟨v, hv, hw⟩
    rcases h.free_or_bound v with hfree | ⟨s, hs⟩
    · rw [image_of_free hfree, Term.mentions_var] at hw
      exact .inl ⟨hw ▸ hv, hw ▸ hfree⟩
    · exact .inr ⟨v, hv, s, hs, image_of_bound hs ▸ hw⟩
  · rintro (⟨hw, hfree⟩ | ⟨v, hv, s, hs, hw⟩)
    · exact ⟨w, hw, by rw [image_of_free hfree, Term.mentions_var]⟩
    · exact ⟨v, hv, by rwa [image_of_bound hs]⟩

/-- A step changes nothing where no bound variable occurs. -/
theorem once_eq_self {e : E} (h : ∀ v, Mentions e v → θ.get? v = none) : θ.once e = e :=
  Substitutable.replace_eq_self fun v hv => image_of_free (h v hv)

theorem once_var_of_free (h : θ.get? v = none) : θ.once (Term.var v) = .var v :=
  image_of_free h

theorem once_var_of_bound {t : Term} (h : θ.get? v = some (.proper t)) :
    θ.once (Term.var v) = t :=
  image_of_bound h

/-- Steps are taken in every variable apart. -/
theorem iterate_once (n : Nat) (e : E) :
    θ.once^[n] e = Substitutable.replace (fun v => θ.once^[n] (.var v)) e := by
  induction n with
  | zero => exact (Substitutable.replace_eq_self fun _ _ => rfl).symm
  | succ n ih =>
    rw [Function.iterate_succ_apply', ih, once, Substitutable.replace_replace]
    simp only [Function.iterate_succ_apply']
    rfl

/-- **Following chains down to a depth is taking as many steps.** -/
theorem resolve_eq (h : θ.BindsTerms) (n : Nat) (v : Variable) :
    θ.resolve n v = .ok (θ.once^[n] (.var v)) := by
  induction n generalizing v with
  | zero => rfl
  | succ n ih =>
    rw [resolve, Function.iterate_succ_apply]
    rcases h.free_or_bound v with hfree | ⟨t, ht⟩
    · simp only [hfree]
      rw [once_var_of_free hfree, Function.iterate_fixed (once_var_of_free hfree)]
    · simp only [ht]
      rw [once_var_of_bound ht, iterate_once]
      exact Term.bindVars_eq_ok ih t

/-- Applying a substitution puts the values in the place of the variables. -/
theorem substitute_eq (h : θ.BindsTerms) (e : E) :
    Substitutable.substitute θ e = .ok (Substitutable.replace θ.value e) :=
  Substitutable.substitute_eq_ok (fun t => Term.bindVars_eq_ok (resolve_eq h θ.size) t) e

/-! ## Where steps lead -/

/-- What occurs after some steps is reached from what occurred. -/
theorem exists_reaches_of_iterate_once (h : θ.BindsTerms) (n : Nat) :
    ∀ {t : Term}, (θ.once^[n] t).Mentions w → ∃ v, t.Mentions v ∧ ReflTransGen θ.Leads v w := by
  induction n with
  | zero => exact fun hw => ⟨w, hw, .refl⟩
  | succ n ih =>
    intro t hw
    obtain ⟨u, hu, hreach⟩ := ih hw
    rcases (mentions_once_iff h).1 hu with ⟨hu, -⟩ | ⟨v, hv, hlead⟩
    · exact ⟨u, hu, hreach⟩
    · exact ⟨v, hv, hreach.head hlead⟩

/-- **Each step lowers the ranks of the bound variables**, and with the last rank the last of them
is gone. -/
theorem free_of_iterate_once (h : θ.BindsTerms) {rank : Variable → Nat}
    (hrank : ∀ v u, θ.Leads v u → rank u < rank v) (hfree : ∀ v, θ.get? v = none ↔ rank v = 0)
    (n : Nat) : ∀ {t : Term}, (∀ v, t.Mentions v → rank v ≤ n) →
      (θ.once^[n] t).Mentions w → θ.get? w = none := by
  induction n with
  | zero => exact fun ht hw => (hfree w).2 (Nat.le_zero.1 (ht w hw))
  | succ n ih =>
    intro t ht
    refine ih fun u hu => ?_
    rcases (mentions_once_iff h).1 hu with ⟨-, hu⟩ | ⟨v, hv, hlead⟩
    · rw [(hfree u).1 hu]
      exact Nat.zero_le n
    · exact Nat.le_of_lt_succ ((hrank v u hlead).trans_le (ht v hv))

/-! ## Values -/

section Values

variable (h : θ.BindsTerms) (hacyclic : θ.Acyclic)

include h hacyclic

theorem free_of_mentions_value (hw : (θ.value v).Mentions w) : θ.get? w = none := by
  obtain ⟨rank, hrank, hfree, hsize⟩ := hacyclic.exists_rank
  exact free_of_iterate_once h hrank hfree θ.size (fun u _ => hsize u) hw

theorem iterate_once_var {n : Nat} (hn : θ.size ≤ n) : θ.once^[n] (.var v) = θ.value v := by
  obtain ⟨k, rfl⟩ := Nat.exists_eq_add_of_le' hn
  rw [Function.iterate_add_apply]
  exact Function.iterate_fixed (once_eq_self fun _ => free_of_mentions_value h hacyclic) k

/-- **Steps come to an end with the values.** -/
theorem iterate_once_eq {n : Nat} (hn : θ.size ≤ n) (e : E) :
    θ.once^[n] e = Substitutable.replace θ.value e := by
  rw [iterate_once]
  simp only [iterate_once_var h hacyclic hn]

omit h hacyclic in
theorem value_of_free (hv : θ.get? v = none) : θ.value v = .var v :=
  Function.iterate_fixed (once_var_of_free hv) θ.size

/-- The value of a bound variable is its image with the values in it. -/
theorem value_of_bound {t : Term} (ht : θ.get? v = some (.proper t)) :
    θ.value v = t.replace θ.value := by
  rw [← iterate_once_var h hacyclic (Nat.le_succ θ.size), Function.iterate_succ_apply,
    once_var_of_bound ht]
  exact iterate_once_eq h hacyclic (Nat.le_refl θ.size) t

/-- **The variables of a value are the free variables that chains lead to.** -/
theorem mentions_value_iff :
    (θ.value v).Mentions w ↔ θ.get? w = none ∧ ReflTransGen θ.Leads v w := by
  constructor
  · intro hw
    obtain ⟨u, hu, hreach⟩ := exists_reaches_of_iterate_once h θ.size hw
    exact ⟨free_of_mentions_value h hacyclic hw, Term.mentions_var.1 hu ▸ hreach⟩
  · rintro ⟨hw, hreach⟩
    induction hreach using ReflTransGen.head_induction_on with
    | refl => rw [value_of_free hw, Term.mentions_var]
    | head hlead _ ih =>
      obtain ⟨t, ht, hu⟩ := hlead
      rw [value_of_bound h hacyclic ht]
      exact t.mentions_replace.2 ⟨_, hu, ih⟩

end Values

/-! ## Complete resolution -/

/-- What the substitution has made of an expression, be it a term, an atom or a literal. -/
structure Resolves (θ : Substitution) (e r : E) : Prop where
  /-- No bound variable is left. -/
  free : ∀ v, Mentions r v → θ.get? v = none
  /-- The variables left are the free ones that chains lead to. -/
  mentions_iff : ∀ w, Mentions r w ↔
    θ.get? w = none ∧ ∃ v, Mentions e v ∧ ReflTransGen θ.Leads v w
  isGround_iff : Substitutable.isGround r = true ↔
    ¬ ∃ w, θ.get? w = none ∧ ∃ v, Mentions e v ∧ ReflTransGen θ.Leads v w
  /-- Steps that replace all bound variables at once come to an end with the same. -/
  limit : ∀ n, θ.size ≤ n → θ.once^[n] e = r
  /-- Applied again, the substitution changes nothing. -/
  again : Substitutable.substitute θ r = .ok r
  /-- It changes nothing in the first place exactly if no bound variable occurs. -/
  eq_self_iff : r = e ↔ ∀ v, Mentions e v → θ.get? v = none
  same_iff : Substitutable.same r e = true ↔ ∀ v, Mentions e v → θ.get? v = none

theorem resolves_replace_value (h : θ.BindsTerms) (hacyclic : θ.Acyclic) (e : E) :
    θ.Resolves e (Substitutable.replace θ.value e) := by
  have hmentions : ∀ w, Mentions (Substitutable.replace θ.value e) w ↔
      θ.get? w = none ∧ ∃ v, Mentions e v ∧ ReflTransGen θ.Leads v w := by
    intro w
    rw [Substitutable.mentions_replace]
    simp only [mentions_value_iff h hacyclic]
    constructor
    · rintro ⟨v, hv, hw, hreach⟩
      exact ⟨hw, v, hv, hreach⟩
    · rintro ⟨hw, v, hv, hreach⟩
      exact ⟨v, hv, hw, hreach⟩
  have hfree : ∀ w, Mentions (Substitutable.replace θ.value e) w → θ.get? w = none :=
    fun w hw => ((hmentions w).1 hw).1
  have hself : (∀ v, Mentions e v → θ.get? v = none) → Substitutable.replace θ.value e = e :=
    fun hv => Substitutable.replace_eq_self fun v hmem => value_of_free (hv v hmem)
  constructor
  case free => exact hfree
  case mentions_iff => exact hmentions
  case isGround_iff =>
    rw [Substitutable.isGround_iff]
    simp only [hmentions, not_exists]
  case limit => exact fun n hn => iterate_once_eq h hacyclic hn e
  case again =>
    rw [substitute_eq h, Substitutable.replace_eq_self fun v hv => value_of_free (hfree v hv)]
  case eq_self_iff => exact ⟨fun heq v hv => hfree v (heq.symm ▸ hv), hself⟩
  case same_iff =>
    constructor
    · exact fun hsame v hv => hfree v ((Substitutable.mentions_congr hsame v).2 hv)
    · intro hv
      rw [hself hv]
      exact Substitutable.same_refl e

/-- What an acyclic substitution does. -/
structure ResolvesAll (θ : Substitution) : Prop where
  /-- The descent that follows chains ends for every term. -/
  ends : WellFounded θ.Calls
  /-- Its result for a term is that of the descent from it: a constant and a free variable stay, -/
  apply_const : ∀ c, θ.apply (.const c) = .ok (.const c)
  apply_free : ∀ v, θ.get? v = none → θ.apply (.var v) = .ok (.var v)
  /-- a bound variable becomes what its image becomes, -/
  apply_bound : ∀ v t, θ.get? v = some (.proper t) → θ.apply (.var v) = θ.apply t
  /-- and a function is applied to what its arguments become. -/
  apply_app : ∀ f args d,
    θ.apply (.app f args d) = (args.mapM θ.apply).map fun rs => .app f rs d
  term : ∀ t : Term, ∃ r, θ.apply t = .ok r ∧ θ.Resolves t r
  atom : ∀ a : Atom, ∃ b, a.substitute θ = .ok b ∧ θ.Resolves a b ∧
    b.predicate = a.predicate ∧ b.arity = a.arity
  literal : ∀ l : Literal, ∃ m, l.substitute θ = .ok m ∧ θ.Resolves l m ∧
    m.atom.predicate = l.atom.predicate ∧ m.atom.arity = l.atom.arity ∧ m.positive = l.positive

/-- **Substitution resolves completely and ends**, if no chain of bound variables is a cycle. -/
theorem resolvesAll_of_acyclic (h : θ.BindsTerms) (hacyclic : θ.Acyclic) : θ.ResolvesAll := by
  have happly : ∀ t : Term, θ.apply t = .ok (t.replace θ.value) := fun t => substitute_eq h t
  constructor
  case ends => exact wellFounded_calls_iff.2 hacyclic
  case apply_const => exact fun c => rfl
  case apply_free =>
    intro v hv
    rw [happly, Term.replace, value_of_free hv]
  case apply_bound =>
    intro v t ht
    rw [happly, happly, Term.replace, value_of_bound h hacyclic ht]
  case apply_app =>
    intro f args d
    rw [happly, mapM_eq_ok_map fun t _ => happly t, Term.replace, Term.replaceList_eq]
    rfl
  case term => exact fun t => ⟨_, happly t, resolves_replace_value h hacyclic t⟩
  case atom =>
    exact fun a => ⟨_, substitute_eq h a, resolves_replace_value h hacyclic a, rfl,
      List.length_map _⟩
  case literal =>
    exact fun l => ⟨_, substitute_eq h l, resolves_replace_value h hacyclic l, rfl,
      List.length_map _, rfl⟩

/-! ## Chains of kin -/

/-- Variables for persons. -/
def child : Variable := ⟨⟨"c", by decide⟩, some "person", by decide⟩
def parent : Variable := ⟨⟨"p", by decide⟩, some "person", by decide⟩
def elder : Variable := ⟨⟨"e", by decide⟩, some "person", by decide⟩
def stranger : Variable := ⟨⟨"s", by decide⟩, some "person", by decide⟩

/-- The term `Heir(t,u)`. -/
def heir (t u : Term) : Term := .app ⟨"Heir", by decide⟩ [t, u] (some "person")

/-- The bindings `c ↦ Heir(p,e)`, `p ↦ Heir(s,s)` and `e ↦ p`. -/
def kin : Substitution :=
  .ofList [(child, .proper (heir (.var parent) (.var elder))),
    (parent, .proper (heir (.var stranger) (.var stranger))), (elder, .proper (.var parent))]

theorem get?_kin {v : Variable} {given : Given Term} (h : kin.get? v = some given) :
    (v = child ∧ given = .proper (heir (.var parent) (.var elder))) ∨
      (v = parent ∧ given = .proper (heir (.var stranger) (.var stranger))) ∨
        (v = elder ∧ given = .proper (.var parent)) := by
  rw [Table.get?_eq_some_iff, kin, Table.toList_ofList (by decide)] at h
  simpa using h

theorem bindsTerms_kin : kin.BindsTerms := by
  intro v s h
  rcases get?_kin h with ⟨-, h⟩ | ⟨-, h⟩ | ⟨-, h⟩ <;> cases h

theorem acyclic_kin : kin.Acyclic := by
  let rank (v : Variable) : Nat :=
    if v = child then 3 else if v = elder then 2 else if v = parent then 1 else 0
  refine acyclic_of_rank rank ?_
  rintro v u ⟨t, ht, hu⟩
  rcases get?_kin ht with ⟨rfl, h⟩ | ⟨rfl, h⟩ | ⟨rfl, h⟩ <;> obtain rfl := Given.proper.inj h
  · obtain rfl | rfl : u = parent ∨ u = elder := by simpa [heir] using hu
    · decide
    · decide
  · obtain rfl : u = stranger := by simpa [heir] using hu
    decide
  · obtain rfl : u = parent := Term.mentions_var.1 hu
    decide

theorem resolvesAll_kin :
    kin.BindsTerms ∧ kin.Acyclic ∧ kin.ResolvesAll ∧
      kin.apply (heir (.var child) (.var stranger)) =
        .ok (heir (heir (heir (.var stranger) (.var stranger))
          (heir (.var stranger) (.var stranger))) (.var stranger)) :=
  ⟨bindsTerms_kin, acyclic_kin, resolvesAll_of_acyclic bindsTerms_kin acyclic_kin, rfl⟩

end Substitution

end MarkovLogic
