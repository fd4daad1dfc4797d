import MarkovLogic.Clause
import MarkovLogic.Proofs.Reading.Phrases

/-!
# Conforming expressions

A term conforms to the declarations of a vocabulary in a place of a domain when its variables have
the domain of their place and its functions are declared with values of that domain
(`Term.Conforms`); constants fit everywhere. The phrase of a conforming term denotes the term again,
up to the domains that constants carry (`Phrase.toTerm_of_writes`).
-/

namespace MarkovLogic

namespace Term

mutual

/-- The term fits a place of the given domain. -/
def Conforms (functions : FunctionSchema) (domain : Option String) : Term → Prop
  | .const _ => True
  | .var v => v.domain = domain
  | .app f args value =>
    ∃ places, functions.get? ⟨f.text, args.length⟩ = some (value, places) ∧
      (domain = none ∨ value = domain) ∧ ConformsList functions places args

/-- The terms fit the places one by one, as many as there are. -/
def ConformsList (functions : FunctionSchema) :
    List (Option String) → List Term → Prop
  | [], [] => True
  | domain :: places, t :: ts => Conforms functions domain t ∧ ConformsList functions places ts
  | _, _ => False

end

end Term

/-- The predicate is declared and the terms fit its places. -/
def Atom.Conforms (v : Vocabulary) (a : Atom) : Prop :=
  ∃ places, v.predicates.get? a.signature = some places ∧
    Term.ConformsList v.functions places a.terms

/-- The atom of the literal conforms. -/
def Literal.Conforms (v : Vocabulary) (l : Literal) : Prop :=
  l.atom.Conforms v

/-- Every literal of the clause conforms. -/
def Clause.Conforms {α : Type} (v : Vocabulary) (c : Clause α) : Prop :=
  ∀ l ∈ c.literals, l.Conforms v

/-! ## Phrases of conforming terms -/

namespace Phrase

variable {functions : FunctionSchema}

theorem ofIdentifier_constant (c : Constant) (domain : Option String) :
    Term.ofIdentifier c.symbol domain = .const ⟨c.symbol, domain, c.notLower⟩ := by
  have hnot : ¬ c.symbol.startsLower = true := by
    rw [c.notLower]
    decide
  rw [Term.ofIdentifier, dif_neg hnot]

theorem ofIdentifier_variable (v : Variable) : Term.ofIdentifier v.name v.domain = .var v := by
  rw [Term.ofIdentifier, dif_pos v.lower]

theorem toTerms_of_writes {args : List Term}
    (h : ∀ t ∈ args, ∀ (φ : Phrase) (domain : Option String), φ.Writes t →
      t.Conforms functions domain →
        ∃ t', φ.toTerm functions domain = .ok t' ∧ t'.same t = true) :
    ∀ {φs : List Phrase} {places : List (Option String)}, WritesList φs args →
      Term.ConformsList functions places args →
        ∃ ts, toTerms functions places φs = .ok ts ∧ Term.sameList ts args = true := by
  induction args with
  | nil =>
    intro φs places hw _
    cases φs with
    | nil => exact ⟨[], rfl, rfl⟩
    | cons φ φs => exact hw.elim
  | cons t args ih =>
    intro φs places hw hc
    cases φs with
    | nil => exact hw.elim
    | cons φ φs =>
      cases places with
      | nil => exact hc.elim
      | cons domain places =>
        obtain ⟨t', ht', hsame⟩ := h t List.mem_cons_self φ domain hw.1 hc.1
        obtain ⟨ts, hts, hsames⟩ :=
          ih (fun t' ht' => h t' (List.mem_cons_of_mem _ ht')) hw.2 hc.2
        refine ⟨t' :: ts, ?_, ?_⟩
        · rw [toTerms]
          exact bind_eq_ok_iff.2 ⟨t', ht', bind_eq_ok_iff.2 ⟨ts, hts, rfl⟩⟩
        · rw [Term.sameList, hsame, hsames]
          rfl

/-- **The phrase of a conforming term denotes the term**: constants take the domain of their place,
everything else is the same. -/
theorem toTerm_of_writes (t : Term) : ∀ (φ : Phrase) (domain : Option String), φ.Writes t →
    t.Conforms functions domain → ∃ t', φ.toTerm functions domain = .ok t' ∧ t'.same t = true := by
  induction t using Term.induction with
  | const c =>
    intro φ domain hw _
    cases φ with
    | call w p φs => exact hw.elim
    | name w p =>
      obtain rfl : w = c.symbol := hw
      refine ⟨.const ⟨c.symbol, domain, c.notLower⟩, ?_, ?_⟩
      · rw [toTerm, ofIdentifier_constant]
      · simp [Term.same, Constant.same]
  | var v =>
    intro φ domain hw hc
    cases φ with
    | call w p φs => exact hw.elim
    | name w p =>
      obtain rfl : w = v.name := hw
      obtain rfl : v.domain = domain := hc
      refine ⟨.var v, ?_, ?_⟩
      · rw [toTerm, ofIdentifier_variable]
      · simp [Term.same]
  | app f args value ih =>
    intro φ domain hw hc
    cases φ with
    | name w p => exact hw.elim
    | call w p φs =>
      obtain ⟨rfl, hφs⟩ : w = f ∧ WritesList φs args := hw
      obtain ⟨places, hget, hdomain, hargs⟩ := hc
      obtain ⟨ts, hts, hsame⟩ := toTerms_of_writes ih hφs hargs
      refine ⟨.app w ts value, ?_, ?_⟩
      · have hfits : (domain.isSome && value != domain) = false := by
          rcases hdomain with rfl | rfl
          · rfl
          · simp
        rw [toTerm]
        simp only [hφs.length_eq, hget, hfits, Bool.false_eq_true, if_false]
        exact bind_eq_ok_iff.2 ⟨ts, hts, rfl⟩
      · simp [Term.same, hsame]

end Phrase

end MarkovLogic
