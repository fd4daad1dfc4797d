import MarkovLogic.Proofs.Reading.Derivations
import MarkovLogic.Proofs.Reading.Conformity

/-!
# Written literals and their phrases

The lexemes of an atom and of a literal are found by scanning (`Literal.scans_chars`), and tokens
with these lexemes derive it as it is written (`LiteralPhrase.derives_of_lexemes`); so do the tokens
of literals with the separator between them (`LiteralPhrase.derivesAll_of_lexemes`). The phrase of a
conforming literal denotes the literal again (`Vocabulary.literal_of_writes`).
-/

namespace MarkovLogic

/-! ## Lexemes -/

namespace Atom

/-- The lexemes of the text form. -/
def lexemes (a : Atom) : List Lexeme :=
  .word a.predicate :: .mark .opening :: (Term.lexemesList a.terms ++ [.mark .closing])

theorem scans_chars (a : Atom) {cs : List Char} {ls : List Lexeme} (h : Token.Scans cs ls) :
    Token.Scans (a.chars ++ cs) (a.lexemes ++ ls) := by
  have hclosing := Token.scans_mark .closing h
  have hargs : Token.Scans (Term.charsList a.terms ++ ')' :: cs)
      (Term.lexemesList a.terms ++ .mark .closing :: ls) :=
    Term.scans_charsList (fun t _ => t.scans_chars) _ _ (Text.stopsWord_cons (by decide) _) hclosing
  have hall := Token.scans_word a.predicate (Text.stopsWord_cons (by decide) _)
    (Token.scans_mark .opening hargs)
  simp only [chars, lexemes, List.append_assoc, List.cons_append, List.nil_append]
  exact hall

end Atom

namespace Literal

/-- The lexemes of the text form. -/
def lexemes (l : Literal) : List Lexeme :=
  if l.positive then l.atom.lexemes else .mark .bang :: l.atom.lexemes

theorem scans_chars (l : Literal) {cs : List Char} {ls : List Lexeme} (h : Token.Scans cs ls) :
    Token.Scans (l.chars ++ cs) (l.lexemes ++ ls) := by
  have hatom := l.atom.scans_chars h
  unfold chars lexemes
  cases l.positive with
  | true => exact hatom
  | false => exact Token.scans_mark .bang hatom

end Literal

namespace Clause

theorem charsOfLiterals_cons (l : Literal) (rest : List Literal) :
    charsOfLiterals (l :: rest) =
      l.chars ++ rest.flatMap fun m => ' ' :: 'v' :: ' ' :: m.chars := by
  induction rest generalizing l with
  | nil => rw [charsOfLiterals, List.flatMap_nil, List.append_nil]
  | cons m rest ih =>
    rw [charsOfLiterals, ih, List.flatMap_cons]
    rfl

theorem scans_flatMap (rest : List Literal) :
    Token.Scans (rest.flatMap fun m => ' ' :: 'v' :: ' ' :: m.chars)
      (rest.flatMap fun m => .word separator :: m.lexemes) := by
  induction rest with
  | nil => exact Token.scans_nil
  | cons m rest ih =>
    rw [List.flatMap_cons, List.flatMap_cons]
    have hm := Token.scans_blank (c := ' ') (by decide) (m.scans_chars ih)
    have hv := Token.scans_word separator (Text.stopsWord_cons (by decide) _) hm
    exact Token.scans_blank (by decide) hv

/-- **Scanning finds the lexemes of the literals of a clause.** -/
theorem scans_charsOfLiterals (l : Literal) (rest : List Literal) :
    Token.Scans (charsOfLiterals (l :: rest))
      (l.lexemes ++ rest.flatMap fun m => .word separator :: m.lexemes) := by
  rw [charsOfLiterals_cons]
  exact l.scans_chars (scans_flatMap rest)

end Clause

/-! ## Derivations -/

namespace LiteralPhrase

/-- The phrase is the literal as it is written. -/
structure Writes (φ : LiteralPhrase) (l : Literal) : Prop where
  positive : φ.positive = l.positive
  predicate : φ.predicate = l.atom.predicate
  args : Phrase.WritesList φ.args l.atom.terms

/-- Tokens with the lexemes of an atom derive it as it is written. -/
theorem derivesAtom_of_lexemes (positive : Bool) {a : Atom} {us : List Token}
    (h : us.map Token.lexeme = a.lexemes) :
    ∃ φ, DerivesAtom positive us φ ∧ Writes φ ⟨a, positive⟩ := by
  obtain ⟨p, behind, rfl, hbehind⟩ := Phrase.exists_cons_of_map_eq h
  obtain ⟨φs, hφs, hw⟩ :=
    Phrase.derivesArgs_of_lexemes (fun t _ => Phrase.derives_of_lexemes t) hbehind
  exact ⟨⟨positive, a.predicate, p, φs⟩, .applied a.predicate p hφs, rfl, rfl, hw⟩

/-- **Tokens with the lexemes of a literal derive it as it is written.** -/
theorem derives_of_lexemes {l : Literal} {us : List Token}
    (h : us.map Token.lexeme = l.lexemes) : ∃ φ, Derives us φ ∧ Writes φ l := by
  obtain ⟨a, positive⟩ := l
  unfold Literal.lexemes at h
  cases positive with
  | true =>
    obtain ⟨φ, hφ, hw⟩ := derivesAtom_of_lexemes true h
    exact ⟨φ, .plain hφ, hw⟩
  | false =>
    obtain ⟨p, behind, rfl, hbehind⟩ := Phrase.exists_cons_of_map_eq h
    obtain ⟨φ, hφ, hw⟩ := derivesAtom_of_lexemes false hbehind
    exact ⟨φ, .negated p hφ, hw⟩

theorem derivesMore_of_lexemes {ls : List Literal} : ∀ {us : List Token},
    us.map Token.lexeme = (ls.flatMap fun l => .word separator :: l.lexemes) →
      ∃ rows, DerivesMore us rows ∧ List.Forall₂ (fun row l => Writes row.2 l) rows ls := by
  induction ls with
  | nil =>
    intro us h
    obtain rfl := List.map_eq_nil_iff.1 h
    exact ⟨[], .done, .nil⟩
  | cons l ls ih =>
    intro us h
    rw [List.flatMap_cons, List.cons_append] at h
    obtain ⟨p, behind, rfl, hbehind⟩ := Phrase.exists_cons_of_map_eq h
    obtain ⟨ts, more, rfl, hts, hmore⟩ := List.map_eq_append_iff.1 hbehind
    obtain ⟨φ, hφ, hw⟩ := derives_of_lexemes hts
    obtain ⟨rows, hrows, hws⟩ := ih hmore
    exact ⟨(ts, φ) :: rows, .more p hφ hrows, .cons hw hws⟩

/-- Tokens with the lexemes of the literals of a clause derive them as they are written. -/
theorem derivesAll_of_lexemes {l : Literal} {ls : List Literal} {us : List Token}
    (h : us.map Token.lexeme = l.lexemes ++ ls.flatMap fun m => .word separator :: m.lexemes) :
    ∃ rows, DerivesAll us rows ∧ List.Forall₂ (fun row l => Writes row.2 l) rows (l :: ls) := by
  obtain ⟨ts, more, rfl, hts, hmore⟩ := List.map_eq_append_iff.1 h
  obtain ⟨φ, hφ, hw⟩ := derives_of_lexemes hts
  obtain ⟨rows, hrows, hws⟩ := derivesMore_of_lexemes hmore
  exact ⟨(ts, φ) :: rows, .literals hφ hrows, .cons hw hws⟩

end LiteralPhrase

namespace Vocabulary

variable {v : Vocabulary}

/-- The phrase of a conforming literal denotes the literal. -/
theorem literal_of_writes {φ : LiteralPhrase} {l : Literal} (hc : l.Conforms v)
    (hw : φ.Writes l) : ∃ l', v.literal φ = .ok l' ∧ l'.same l = true := by
  obtain ⟨places, hget, hterms⟩ := hc
  obtain ⟨ts, hts, hsame⟩ :=
    Phrase.toTerms_of_writes (fun t _ => Phrase.toTerm_of_writes t) hw.args hterms
  refine ⟨⟨⟨φ.predicate, ts⟩, φ.positive⟩, ?_, ?_⟩
  · have hsignature : (⟨φ.predicate.text, φ.args.length⟩ : Signature) = l.atom.signature := by
      rw [hw.predicate, hw.args.length_eq]
      rfl
    rw [literal, hsignature]
    simp only [hget]
    exact bind_eq_ok_iff.2 ⟨ts, hts, rfl⟩
  · simp [Literal.same, Atom.same, hw.predicate, hsame, hw.positive]

theorem literals_of_writes {rows : List (List Token × LiteralPhrase)} {ls : List Literal}
    (hc : ∀ l ∈ ls, l.Conforms v)
    (hw : List.Forall₂ (fun row l => LiteralPhrase.Writes row.2 l) rows ls) :
    ∃ ls', v.LiteralsOf rows ls' ∧ List.Forall₂ (fun l' l => l'.same l = true) ls' ls := by
  induction hw with
  | nil => exact ⟨[], .nil, .nil⟩
  | cons hw _ ih =>
    obtain ⟨hl, hls⟩ := List.forall_mem_cons.1 hc
    obtain ⟨l', hl', hsame⟩ := literal_of_writes hl hw
    obtain ⟨ls', hls', hsames⟩ := ih hls
    exact ⟨l' :: ls', .cons hl' hls', .cons hsame hsames⟩

end Vocabulary

end MarkovLogic
