import MarkovLogic.Proofs.Table
import MarkovLogic.Proofs.Reading.Derivations
import Mathlib

/-!
# The texts that are accepted

A vocabulary gives a derivation a meaning (`Vocabulary.Denotes`): the declared predicate, and for
each argument a term of the domain that its place requires. A text is read as an atom or a literal
exactly if it lexes into tokens with a derivation that has a meaning, and the result is that meaning
(`Vocabulary.accepts_exactly`).
-/

namespace MarkovLogic

/-! ## Meanings -/

namespace Phrase

/-- Induction on phrases with the hypothesis for every argument. -/
theorem induction {P : Phrase → Prop} (name : ∀ w p, P (.name w p))
    (call : ∀ w p args, (∀ φ ∈ args, P φ) → P (.call w p args)) (φ : Phrase) : P φ :=
  @Phrase.rec P (fun φs => ∀ φ ∈ φs, P φ) name call
    (fun _ h => absurd h List.not_mem_nil)
    (fun _ _ head tail _ h => (List.mem_cons.1 h).elim (fun e => e ▸ head) (tail _)) φ

mutual

/-- What the phrase denotes in a place of the given domain. A function term has the declared value
domain, which is that of the place unless the place has none. -/
inductive Denotes (functions : FunctionSchema) : Option String → Phrase → Term → Prop where
  | var (w : Identifier) (p : Nat) (d : Option String) (h : w.startsLower = true) :
    Denotes functions d (.name w p) (.var ⟨w, d, h⟩)
  | const (w : Identifier) (p : Nat) (d : Option String) (h : w.startsLower = false) :
    Denotes functions d (.name w p) (.const ⟨w, d, h⟩)
  | call (w : Identifier) (p : Nat) {d value : Option String} {places : List (Option String)}
    {args : List Phrase} {terms : List Term}
    (hget : functions.get? ⟨w.text, args.length⟩ = some (value, places))
    (hd : d = none ∨ value = d) (h : DenotesList functions places args terms) :
    Denotes functions d (.call w p args) (.app w terms value)

/-- What the phrases denote in the places of the given domains. -/
inductive DenotesList (functions : FunctionSchema) :
    List (Option String) → List Phrase → List Term → Prop where
  | nil : DenotesList functions [] [] []
  | cons {d : Option String} {ds : List (Option String)} {φ : Phrase} {φs : List Phrase} {t : Term}
    {ts : List Term} (h : Denotes functions d φ t) (hs : DenotesList functions ds φs ts) :
    DenotesList functions (d :: ds) (φ :: φs) (t :: ts)

end

end Phrase

namespace Vocabulary

/-- Every declaration has a domain for each argument. -/
structure Regular (v : Vocabulary) : Prop where
  predicates : ∀ e ∈ v.predicates.toList, (e.2.length : Int) = e.1.arity
  functions : ∀ e ∈ v.functions.toList, (e.2.2.length : Int) = e.1.arity

/-- What the phrase of a literal denotes: its predicate is declared. -/
structure Denotes (v : Vocabulary) (φ : LiteralPhrase) (l : Literal) : Prop where
  positive : l.positive = φ.positive
  predicate : l.atom.predicate = φ.predicate
  terms : ∃ places, v.predicates.get? ⟨φ.predicate.text, φ.args.length⟩ = some places ∧
    Phrase.DenotesList v.functions places φ.args l.atom.terms

/-- The text is derived from the grammar, and the derivation denotes the literal. -/
def Writes (v : Vocabulary) (grammar : List Token → LiteralPhrase → Prop) (text : String)
    (l : Literal) : Prop :=
  ∃ ts φ, Token.Lexes 0 text.toList ts ∧ grammar ts φ ∧ v.Denotes φ l

/-- The text has at most one derivation from the grammar. -/
def Unambiguous (grammar : List Token → LiteralPhrase → Prop) (text : String) : Prop :=
  ∀ ts φ us ψ, Token.Lexes 0 text.toList ts → grammar ts φ → Token.Lexes 0 text.toList us →
    grammar us ψ → ts = us ∧ φ = ψ

end Vocabulary

/-! ## Phrases to terms -/

namespace Phrase

variable {functions : FunctionSchema}

theorem toTerm_name_eq_ok_iff {w : Identifier} {p : Nat} {d : Option String} {t : Term} :
    toTerm functions d (.name w p) = .ok t ↔ Denotes functions d (.name w p) t := by
  rw [toTerm, Term.ofIdentifier, Except.ok.injEq]
  constructor
  · rintro rfl
    by_cases h : w.startsLower = true
    · rw [dif_pos h]
      exact .var w p d h
    · rw [dif_neg h]
      exact .const w p d _
  · intro h
    cases h with
    | var _ _ _ h => rw [dif_pos h]
    | const _ _ _ h => rw [dif_neg (by simp [h])]

theorem toTerms_eq_ok_iff {args : List Phrase}
    (h : ∀ φ ∈ args, ∀ d t, toTerm functions d φ = .ok t ↔ Denotes functions d φ t) :
    ∀ {places : List (Option String)} {ts : List Term}, places.length = args.length →
      (toTerms functions places args = .ok ts ↔ DenotesList functions places args ts) := by
  induction args with
  | nil =>
    intro places ts hl
    obtain rfl := List.length_eq_zero_iff.1 hl
    rw [toTerms, Except.ok.injEq]
    constructor
    · rintro rfl
      exact .nil
    · intro h
      cases h
      rfl
  | cons φ args ih =>
    intro places ts hl
    obtain ⟨hφ, hargs⟩ := List.forall_mem_cons.1 h
    cases places with
    | nil => cases hl
    | cons d places =>
      rw [toTerms]
      constructor
      · intro h
        obtain ⟨t, ht, h⟩ := bind_eq_ok_iff.1 h
        obtain ⟨us, hus, h⟩ := bind_eq_ok_iff.1 h
        obtain rfl := Except.ok.inj h
        exact .cons ((hφ d t).1 ht) ((ih hargs (Nat.succ.inj hl)).1 hus)
      · intro h
        cases h with
        | cons ht hts =>
          exact bind_eq_ok_iff.2 ⟨_, (hφ _ _).2 ht,
            bind_eq_ok_iff.2 ⟨_, (ih hargs (Nat.succ.inj hl)).2 hts, rfl⟩⟩

/-- **A phrase is turned into a term exactly if it denotes the term.** -/
theorem toTerm_eq_ok_iff (hf : ∀ {s value places}, functions.get? s = some (value, places) →
      (places.length : Int) = s.arity) (φ : Phrase) :
    ∀ d t, toTerm functions d φ = .ok t ↔ Denotes functions d φ t := by
  induction φ using Phrase.induction with
  | name w p =>
    intro d t
    exact toTerm_name_eq_ok_iff
  | call w p args ih =>
    intro d t
    rw [toTerm]
    cases hget : functions.get? ⟨w.text, args.length⟩ with
    | none =>
      simp only
      constructor
      · intro h
        cases h
      · intro h
        cases h with
        | call _ _ hget' _ _ =>
          rw [hget] at hget'
          cases hget'
    | some entry =>
      obtain ⟨value, places⟩ := entry
      have hl : places.length = args.length := by
        have : (places.length : Int) = args.length := hf hget
        omega
      simp only
      -- the value domain is compared only where the place has a domain
      by_cases hd : d = none ∨ value = d
      · have hfits : (d.isSome && value != d) = false := by
          rcases hd with rfl | rfl <;> simp
        rw [hfits, if_neg (by decide)]
        constructor
        · intro h
          obtain ⟨ts, hts, h⟩ := bind_eq_ok_iff.1 h
          obtain rfl := Except.ok.inj h
          exact .call w p hget hd ((toTerms_eq_ok_iff ih hl).1 hts)
        · intro h
          cases h with
          | call _ _ hget' _ hterms =>
            rw [hget, Option.some.injEq, Prod.mk.injEq] at hget'
            obtain ⟨rfl, rfl⟩ := hget'
            exact bind_eq_ok_iff.2 ⟨_, (toTerms_eq_ok_iff ih hl).2 hterms, rfl⟩
      · have hfits : (d.isSome && value != d) = true := by
          rw [not_or] at hd
          simp [Option.isSome_iff_ne_none.2 hd.1, hd.2]
        rw [hfits, if_pos rfl]
        constructor
        · intro h
          cases h
        · intro h
          cases h with
          | call _ _ hget' hd' _ =>
            rw [hget, Option.some.injEq, Prod.mk.injEq] at hget'
            obtain ⟨rfl, rfl⟩ := hget'
            exact absurd hd' hd

end Phrase

/-! ## Whole texts -/

namespace Vocabulary

variable {v : Vocabulary}

theorem Regular.length_predicate (hv : v.Regular) {s : Signature} {places : List (Option String)}
    (h : v.predicates.get? s = some places) : (places.length : Int) = s.arity :=
  hv.predicates _ (v.predicates.get?_eq_some_iff.1 h)

theorem Regular.length_function (hv : v.Regular) {s : Signature} {value : Option String}
    {places : List (Option String)} (h : v.functions.get? s = some (value, places)) :
    (places.length : Int) = s.arity :=
  hv.functions _ (v.functions.get?_eq_some_iff.1 h)

theorem literal_eq_ok_iff (hv : v.Regular) {φ : LiteralPhrase} {l : Literal} :
    v.literal φ = .ok l ↔ v.Denotes φ l := by
  rw [literal]
  cases hget : v.predicates.get? ⟨φ.predicate.text, φ.args.length⟩ with
  | none =>
    simp only
    constructor
    · intro h
      cases h
    · intro h
      obtain ⟨places, hplaces, -⟩ := h.terms
      rw [hget] at hplaces
      cases hplaces
  | some places =>
    have hl : places.length = φ.args.length := by
      have : (places.length : Int) = φ.args.length := hv.length_predicate hget
      omega
    simp only
    have hterms : ∀ ts, Phrase.toTerms v.functions places φ.args = .ok ts ↔
        Phrase.DenotesList v.functions places φ.args ts := by
      intro ts
      exact Phrase.toTerms_eq_ok_iff
        (fun ψ _ => Phrase.toTerm_eq_ok_iff hv.length_function ψ) hl
    constructor
    · intro h
      obtain ⟨ts, hts, h⟩ := bind_eq_ok_iff.1 h
      obtain rfl := Except.ok.inj h
      exact ⟨rfl, rfl, places, hget, (hterms ts).1 hts⟩
    · rintro ⟨hpositive, hpredicate, places', hplaces, h⟩
      rw [hget, Option.some.injEq] at hplaces
      subst hplaces
      obtain ⟨⟨predicate, terms⟩, positive⟩ := l
      simp only at hpositive hpredicate h
      subst hpositive hpredicate
      exact bind_eq_ok_iff.2 ⟨terms, (hterms terms).2 h, rfl⟩

theorem readAtom_eq_ok_iff (hv : v.Regular) {text : String} {a : Atom} :
    v.readAtom text = .ok a ↔ v.Writes (LiteralPhrase.DerivesAtom true) text ⟨a, true⟩ := by
  rw [readAtom, mapError_eq_ok_iff, atomOfChars_eq_ok_iff]
  constructor
  · rintro ⟨ts, φ, l, hts, hd, hl, rfl⟩
    have hdenotes := (literal_eq_ok_iff hv).1 hl
    have hpositive : l.positive = true :=
      hdenotes.positive.trans (LiteralPhrase.positive_of_derivesAtom hd)
    refine ⟨ts, φ, hts, hd, ?_⟩
    rw [← hpositive]
    exact hdenotes
  · rintro ⟨ts, φ, hts, hd, hdenotes⟩
    exact ⟨ts, φ, ⟨a, true⟩, hts, hd, (literal_eq_ok_iff hv).2 hdenotes, rfl⟩

theorem readLiteral_eq_ok_iff (hv : v.Regular) {text : String} {l : Literal} :
    v.readLiteral text = .ok l ↔ v.Writes LiteralPhrase.Derives text l := by
  rw [readLiteral, mapError_eq_ok_iff, literalOfChars_eq_ok_iff]
  simp only [literal_eq_ok_iff hv]
  rfl

theorem lexes_unique {p : Nat} {cs : List Char} {ts us : List Token} (hts : Token.Lexes p cs ts)
    (hus : Token.Lexes p cs us) : ts = us :=
  Except.ok.inj ((Token.scan_of_lexes hts).symm.trans (Token.scan_of_lexes hus))

/-- A grammar that some reader follows to the end of the input is unambiguous. -/
theorem unambiguous_of_read {grammar : List Token → LiteralPhrase → Prop}
    {read : List Token → Except Misread (LiteralPhrase × List Token)}
    (h : ∀ {ts φ}, read ts = .ok (φ, []) ↔ grammar ts φ) (text : String) :
    Unambiguous grammar text := by
  intro ts φ us ψ hts hφ hus hψ
  obtain rfl := lexes_unique hts hus
  have heq := Except.ok.inj ((h.2 hφ).symm.trans (h.2 hψ))
  exact ⟨rfl, (Prod.mk.inj heq).1⟩

/-- What is not read ends in an error that shows the text. -/
theorem exists_error_of_ne_ok {α : Type} {x : Except Misread α} {text : String}
    (h : ∀ a, x.mapError (·.inText text) ≠ .ok a) :
    ∃ e, x.mapError (·.inText text) = .error e ∧ e.text = text := by
  cases x with
  | ok a => exact absurd rfl (h a)
  | error m => exact ⟨m.inText text, rfl, rfl⟩

/-- **Exactly the grammar is accepted.** If every declaration has a domain for each argument, then a
text is read as an atom exactly if it is derived from the grammar of atoms and the derivation
denotes the atom, and every other text is an error; the same holds of literals. No text has two
derivations. -/
theorem accepts_exactly (hv : v.Regular) (text : String) :
    (∀ a, v.readAtom text = .ok a ↔ v.Writes (LiteralPhrase.DerivesAtom true) text ⟨a, true⟩) ∧
    (∀ l, v.readLiteral text = .ok l ↔ v.Writes LiteralPhrase.Derives text l) ∧
    ((∀ a, ¬ v.Writes (LiteralPhrase.DerivesAtom true) text ⟨a, true⟩) →
      ∃ e, v.readAtom text = .error e ∧ e.text = text) ∧
    ((∀ l, ¬ v.Writes LiteralPhrase.Derives text l) →
      ∃ e, v.readLiteral text = .error e ∧ e.text = text) ∧
    Unambiguous (LiteralPhrase.DerivesAtom true) text ∧ Unambiguous LiteralPhrase.Derives text := by
  refine ⟨fun a => readAtom_eq_ok_iff hv, fun l => readLiteral_eq_ok_iff hv, ?_, ?_, ?_, ?_⟩
  · intro h
    apply exists_error_of_ne_ok
    intro a ha
    exact h a ((readAtom_eq_ok_iff hv).1 ha)
  · intro h
    apply exists_error_of_ne_ok
    intro l hl
    exact h l ((readLiteral_eq_ok_iff hv).1 hl)
  · exact unambiguous_of_read LiteralPhrase.readAtom_eq_ok_iff text
  · exact unambiguous_of_read LiteralPhrase.read_eq_ok_iff text

/-! ## A text with a function term -/

/-- Events happen at times, and to walk is an event whatever walks. -/
def walks : Vocabulary where
  predicates := .ofList [(⟨"Happens", 2⟩, [some "event", some "time"])]
  functions := .ofList [(⟨"walking", 1⟩, (some "event", [none]))]

theorem regular_walks : walks.Regular :=
  ⟨by decide, by decide⟩

/-- The literal `!Happens(walking(ID0),t)`. -/
def neverWalks : Literal :=
  ⟨⟨⟨"Happens", by decide⟩,
    [.app ⟨"walking", by decide⟩ [.const ⟨⟨"ID0", by decide⟩, none, by decide⟩] (some "event"),
      .var ⟨⟨"t", by decide⟩, some "time", by decide⟩]⟩, false⟩

theorem accepts_exactly_walks : walks.Regular ∧
    walks.readLiteral "!Happens( walking(ID0) ,t)" = .ok neverWalks ∧
    walks.Writes LiteralPhrase.Derives "!Happens( walking(ID0) ,t)" neverWalks ∧
    ∀ l, ¬ walks.Writes LiteralPhrase.Derives "Happens(walking(ID0),t,)" l := by
  have hread : walks.readLiteral "!Happens( walking(ID0) ,t)" = .ok neverWalks := by
    cbv
  have hcomma : walks.readLiteral "Happens(walking(ID0),t,)" =
      .error ⟨.expectedTerm ")", some 23, "Happens(walking(ID0),t,)"⟩ := by
    cbv
  refine ⟨regular_walks, hread, ((accepts_exactly regular_walks _).2.1 _).1 hread, ?_⟩
  intro l h
  have hok := ((accepts_exactly regular_walks _).2.1 l).2 h
  rw [hcomma] at hok
  cases hok

end Vocabulary

end MarkovLogic
