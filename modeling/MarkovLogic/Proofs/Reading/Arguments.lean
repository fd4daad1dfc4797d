import MarkovLogic.Proofs.Reading.Acceptance
import MarkovLogic.Proofs.Reading.Phrases

/-!
# Written arguments and declared domains

The signature that is looked up has the number of arguments that were written, but the arguments
are paired with the domains of the declaration as far as both go. So an atom that was read has all
arguments of its text, at every level, exactly if the declarations it uses have a domain for each of
them (`Vocabulary.keeps_of_readAtom`); domains to spare do no harm. A declaration with too few
domains loses arguments (`Vocabulary.loses_halfDeclared`).
-/

namespace MarkovLogic

/-- The predicate with the number of arguments that were written. -/
def LiteralPhrase.signature (φ : LiteralPhrase) : Signature :=
  ⟨φ.predicate.text, φ.args.length⟩

namespace Phrase

variable {functions : FunctionSchema}

mutual

/-- Every function that the phrase applies has a domain for each argument. -/
def Fits (functions : FunctionSchema) : Phrase → Prop
  | .name _ _ => True
  | .call w _ args =>
    (∀ value places, functions.get? ⟨w.text, args.length⟩ = some (value, places) →
      args.length ≤ places.length) ∧ FitsList functions args

/-- Every function that the phrases apply has a domain for each argument. -/
def FitsList (functions : FunctionSchema) : List Phrase → Prop
  | [] => True
  | φ :: φs => Fits functions φ ∧ FitsList functions φs

end

theorem fitsList_of_forall {φs : List Phrase} (h : ∀ φ ∈ φs, Fits functions φ) :
    FitsList functions φs := by
  induction φs with
  | nil => exact trivial
  | cons φ φs ih =>
    obtain ⟨hφ, hφs⟩ := List.forall_mem_cons.1 h
    exact ⟨hφ, ih hφs⟩

/-! ## What becomes of the arguments -/

theorem length_of_toTerms {args : List Phrase} :
    ∀ {places : List (Option String)} {ts : List Term}, toTerms functions places args = .ok ts →
      ts.length = min args.length places.length := by
  induction args with
  | nil =>
    intro places ts h
    rw [toTerms] at h
    obtain rfl := Except.ok.inj h
    simp
  | cons φ args ih =>
    intro places ts h
    cases places with
    | nil =>
      rw [toTerms] at h
      obtain rfl := Except.ok.inj h
      simp
    | cons d places =>
      rw [toTerms] at h
      obtain ⟨t, -, h⟩ := bind_eq_ok_iff.1 h
      obtain ⟨us, hus, h⟩ := bind_eq_ok_iff.1 h
      obtain rfl := Except.ok.inj h
      simp only [List.length_cons, ih hus]
      omega

/-- **A list of arguments is kept exactly if there are places for all of them** and each argument is
kept. -/
theorem writesList_iff_of_toTerms {args : List Phrase}
    (h : ∀ φ ∈ args, ∀ d t, toTerm functions d φ = .ok t → (Writes φ t ↔ Fits functions φ)) :
    ∀ {places : List (Option String)} {ts : List Term}, toTerms functions places args = .ok ts →
      (WritesList args ts ↔ args.length ≤ places.length ∧ FitsList functions args) := by
  induction args with
  | nil =>
    intro places ts hts
    rw [toTerms] at hts
    obtain rfl := Except.ok.inj hts
    simp [WritesList, FitsList]
  | cons φ args ih =>
    intro places ts hts
    obtain ⟨hφ, hargs⟩ := List.forall_mem_cons.1 h
    cases places with
    | nil =>
      -- the arguments that have no place are gone
      rw [toTerms] at hts
      obtain rfl := Except.ok.inj hts
      simp [WritesList]
    | cons d places =>
      rw [toTerms] at hts
      obtain ⟨t, ht, hts⟩ := bind_eq_ok_iff.1 hts
      obtain ⟨us, hus, hts⟩ := bind_eq_ok_iff.1 hts
      obtain rfl := Except.ok.inj hts
      rw [WritesList, FitsList, hφ d t ht, ih hargs hus, List.length_cons, List.length_cons,
        Nat.add_le_add_iff_right]
      exact and_left_comm

theorem writes_iff_of_toTerm (φ : Phrase) :
    ∀ d t, toTerm functions d φ = .ok t → (Writes φ t ↔ Fits functions φ) := by
  induction φ using Phrase.induction with
  | name w p =>
    intro d t h
    rw [toTerm, Term.ofIdentifier] at h
    obtain rfl := Except.ok.inj h
    split <;> simp [Writes, Fits]
  | call w p args ih =>
    intro d t h
    rw [toTerm] at h
    cases hget : functions.get? ⟨w.text, args.length⟩ with
    | none =>
      rw [hget] at h
      cases h
    | some entry =>
      obtain ⟨value, places⟩ := entry
      rw [hget] at h
      simp only at h
      split at h
      · cases h
      · obtain ⟨ts, hts, h⟩ := bind_eq_ok_iff.1 h
        obtain rfl := Except.ok.inj h
        rw [Writes, Fits, writesList_iff_of_toTerms ih hts, hget]
        simp

end Phrase

namespace Vocabulary

/-- No declaration has fewer domains than arguments. -/
structure Roomy (v : Vocabulary) : Prop where
  predicates : ∀ e ∈ v.predicates.toList, e.1.arity ≤ e.2.length
  functions : ∀ e ∈ v.functions.toList, e.1.arity ≤ e.2.2.length

variable {v : Vocabulary}

theorem Roomy.fits (hv : v.Roomy) (φ : Phrase) : φ.Fits v.functions := by
  induction φ using Phrase.induction with
  | name w p => exact trivial
  | call w p args ih =>
    refine ⟨fun value places hget => ?_, Phrase.fitsList_of_forall ih⟩
    have hroom := hv.functions _ (v.functions.get?_eq_some_iff.1 hget)
    simpa using hroom

/-- What an atom that was read keeps of the phrase in the text. -/
structure Keeps (v : Vocabulary) (φ : LiteralPhrase) (a : Atom) : Prop where
  predicate : a.predicate = φ.predicate
  /-- The declaration of the predicate as it is written gives places to the arguments. The atom has
  the arguments that have a place; it has the written signature exactly if all have one, and it is
  the written atom exactly if moreover all arguments of functions have one. -/
  arguments : ∃ places, v.predicates.get? φ.signature = some places ∧
    a.arity = min φ.args.length places.length ∧
    (a.signature = φ.signature ↔ φ.args.length ≤ places.length) ∧
    (Phrase.WritesList φ.args a.terms ↔
      φ.args.length ≤ places.length ∧ Phrase.FitsList v.functions φ.args)
  /-- Where every declaration has a domain for each argument, nothing is lost. -/
  roomy : v.Roomy → a.signature = φ.signature ∧ Phrase.WritesList φ.args a.terms

theorem keeps_of_literal {φ : LiteralPhrase} {l : Literal} (h : v.literal φ = .ok l) :
    v.Keeps φ l.atom := by
  rw [literal] at h
  cases hget : v.predicates.get? φ.signature with
  | none =>
    rw [LiteralPhrase.signature] at hget
    rw [hget] at h
    cases h
  | some places =>
    have hroom : v.Roomy → φ.args.length ≤ places.length := by
      intro hv
      simpa [LiteralPhrase.signature] using
        hv.predicates _ (v.predicates.get?_eq_some_iff.1 hget)
    rw [LiteralPhrase.signature] at hget
    rw [hget] at h
    obtain ⟨ts, hts, h⟩ := bind_eq_ok_iff.1 h
    obtain rfl := Except.ok.inj h
    have hlength := Phrase.length_of_toTerms hts
    have hwrites := Phrase.writesList_iff_of_toTerms
      (fun ψ _ => Phrase.writes_iff_of_toTerm ψ) hts
    have hsignature : Atom.signature ⟨φ.predicate, ts⟩ = φ.signature ↔
        φ.args.length ≤ places.length := by
      simp only [Atom.signature, Atom.arity, LiteralPhrase.signature, Signature.mk.injEq, hlength,
        true_and]
      omega
    exact ⟨rfl, ⟨places, hget, hlength, hsignature, hwrites⟩, fun hv =>
      ⟨hsignature.2 (hroom hv),
        hwrites.2 ⟨hroom hv, Phrase.fitsList_of_forall fun ψ _ => hv.fits ψ⟩⟩⟩

/-- **An atom has the arguments of its text as far as they are declared.** Whatever the vocabulary,
a text that is read as an atom is derived from the grammar in one way, with a declared signature,
and no argument is lost, at any level, exactly if each has a domain in the declaration used. -/
theorem keeps_of_readAtom {text : String} {a : Atom} (h : v.readAtom text = .ok a) :
    Unambiguous (LiteralPhrase.DerivesAtom true) text ∧
      ∃ ts φ, Token.Lexes 0 text.toList ts ∧ LiteralPhrase.DerivesAtom true ts φ ∧ v.Keeps φ a := by
  refine ⟨unambiguous_of_read LiteralPhrase.readAtom_eq_ok_iff text, ?_⟩
  rw [readAtom, mapError_eq_ok_iff, atomOfChars_eq_ok_iff] at h
  obtain ⟨ts, φ, l, hts, hd, hl, rfl⟩ := h
  exact ⟨ts, φ, hts, hd, keeps_of_literal hl⟩

/-! ## Domains to spare and a domain too few -/

/-- Declarations with more domains than arguments. -/
def spacious : Vocabulary where
  predicates := .ofList [(⟨"P", 2⟩, [some "d", none, some "e"])]
  functions := .ofList [(⟨"f", 1⟩, (some "d", [none, some "e"]))]

/-- The atom `P(f(A),x)`. -/
def spaciousAtom : Atom :=
  ⟨⟨"P", Eq.refl true⟩,
    [.app ⟨"f", Eq.refl true⟩ [.const ⟨⟨"A", Eq.refl true⟩, none, Eq.refl false⟩] (some "d"),
      .var ⟨⟨"x", Eq.refl true⟩, none, Eq.refl true⟩]⟩

theorem keeps_spacious : spacious.readAtom "P(f(A),x)" = .ok spaciousAtom ∧ spacious.Roomy ∧
    ∃ ts φ, Token.Lexes 0 "P(f(A),x)".toList ts ∧ LiteralPhrase.DerivesAtom true ts φ ∧
      spaciousAtom.signature = φ.signature ∧ Phrase.WritesList φ.args spaciousAtom.terms := by
  have hread : spacious.readAtom "P(f(A),x)" = .ok spaciousAtom := by cbv
  have hroomy : spacious.Roomy := ⟨by decide, by decide⟩
  obtain ⟨-, ts, φ, hts, hd, hkeeps⟩ := keeps_of_readAtom hread
  exact ⟨hread, hroomy, ts, φ, hts, hd, hkeeps.roomy hroomy⟩

/-- A predicate of two arguments with a domain for one. -/
def halfDeclared : Vocabulary where
  predicates := .ofList [(⟨"P", 2⟩, [some "d"])]
  functions := .empty

/-- The atom `P(A)`. -/
def halfAtom : Atom :=
  ⟨⟨"P", Eq.refl true⟩, [.const ⟨⟨"A", Eq.refl true⟩, some "d", Eq.refl false⟩]⟩

/-- **The second argument of `P(A,B)` is lost**, and the atom has a signature that nobody wrote or
declared. -/
theorem loses_halfDeclared : halfDeclared.readAtom "P(A,B)" = .ok halfAtom ∧
    halfDeclared.predicates.get? halfAtom.signature = none ∧
    ∃ ts φ, Token.Lexes 0 "P(A,B)".toList ts ∧ LiteralPhrase.DerivesAtom true ts φ ∧
      φ.signature = ⟨"P", 2⟩ ∧ halfAtom.signature = ⟨"P", 1⟩ := by
  have hread : halfDeclared.readAtom "P(A,B)" = .ok halfAtom := by cbv
  have htokens : tokens "P(A,B)".toList = .ok [⟨.word ⟨"P", by decide⟩, 0⟩, ⟨.mark .opening, 1⟩,
      ⟨.word ⟨"A", by decide⟩, 2⟩, ⟨.mark .comma, 3⟩, ⟨.word ⟨"B", by decide⟩, 4⟩,
      ⟨.mark .closing, 5⟩] := by cbv
  have hderives : LiteralPhrase.DerivesAtom true _ _ := .applied ⟨"P", by decide⟩ 0
    (.terms 1 5 (.more 3 (.name ⟨"A", by decide⟩ 2) (.one (.name ⟨"B", by decide⟩ 4))))
  exact ⟨hread, by decide, _, _, tokens_eq_ok_iff.1 htokens, hderives, by decide, by decide⟩

end Vocabulary

end MarkovLogic
