import MarkovLogic.Reading.Vocabulary
import MarkovLogic.Proofs.Reading.Tokens
import MarkovLogic.Proofs.Reading.Grammar

/-!
# Written terms and their phrases

The text form of a term is a row of lexemes (`Term.lexemes`), which scanning finds again
(`Term.scans_chars`). Tokens with these lexemes derive a phrase of the same shape (`Phrase.Writes`,
`Phrase.derives_of_lexemes`).
-/

namespace MarkovLogic

namespace Term

/-! ## Lexemes -/

mutual

/-- The lexemes of the text form. -/
def lexemes : Term → List Lexeme
  | .const c => [.word c.symbol]
  | .var v => [.word v.name]
  | .app f args _ => .word f :: .mark .opening :: (lexemesList args ++ [.mark .closing])

/-- The lexemes of the terms with commas between them. -/
def lexemesList : List Term → List Lexeme
  | [] => []
  | [t] => lexemes t
  | t :: u :: ts => lexemes t ++ .mark .comma :: lexemesList (u :: ts)

end

theorem scans_charsList {args : List Term}
    (h : ∀ t ∈ args, ∀ cs ls, Text.StopsWord cs → Token.Scans cs ls →
      Token.Scans (t.chars ++ cs) (t.lexemes ++ ls)) :
    ∀ cs ls, Text.StopsWord cs → Token.Scans cs ls →
      Token.Scans (charsList args ++ cs) (lexemesList args ++ ls) := by
  induction args with
  | nil =>
    intro cs ls _ hs
    exact hs
  | cons t ts ih =>
    intro cs ls hcs hs
    have ht := h t List.mem_cons_self
    cases ts with
    | nil => exact ht cs ls hcs hs
    | cons u us =>
      have ih := ih (fun t' ht' => h t' (List.mem_cons_of_mem _ ht')) cs ls hcs hs
      rw [charsList, lexemesList, List.append_assoc, List.append_assoc]
      exact ht _ _ (Text.stopsWord_cons (by decide) _) (Token.scans_mark .comma ih)

/-- **Scanning finds the lexemes of a term**, if no word character follows it. -/
theorem scans_chars (t : Term) : ∀ cs ls, Text.StopsWord cs → Token.Scans cs ls →
    Token.Scans (t.chars ++ cs) (t.lexemes ++ ls) := by
  induction t using Term.induction with
  | const c =>
    intro cs ls hcs hs
    exact Token.scans_word c.symbol hcs hs
  | var v =>
    intro cs ls hcs hs
    exact Token.scans_word v.name hcs hs
  | app f args d ih =>
    intro cs ls hcs hs
    have hargs := scans_charsList ih (')' :: cs) (.mark .closing :: ls)
      (Text.stopsWord_cons (by decide) _) (Token.scans_mark .closing hs)
    have hf := Token.scans_word f (Text.stopsWord_cons (by decide) _)
      (Token.scans_mark .opening hargs)
    simp only [chars, lexemes, List.append_assoc, List.cons_append, List.nil_append]
    exact hf

end Term

/-! ## Phrases of terms -/

namespace Phrase

mutual

/-- The phrase is the term as it is written. -/
def Writes : Phrase → Term → Prop
  | .name w _, .const c => w = c.symbol
  | .name w _, .var v => w = v.name
  | .call w _ phrases, .app f args _ => w = f ∧ WritesList phrases args
  | _, _ => False

/-- The phrases are the terms as they are written. -/
def WritesList : List Phrase → List Term → Prop
  | [], [] => True
  | φ :: φs, t :: ts => Writes φ t ∧ WritesList φs ts
  | _, _ => False

end

theorem WritesList.length_eq {φs : List Phrase} {ts : List Term} (h : WritesList φs ts) :
    φs.length = ts.length := by
  induction φs generalizing ts with
  | nil =>
    cases ts with
    | nil => rfl
    | cons t ts => exact h.elim
  | cons φ φs ih =>
    cases ts with
    | nil => exact h.elim
    | cons t ts => rw [List.length_cons, List.length_cons, ih h.2]

/-! ## Derivations of written terms -/

theorem exists_cons_of_map_eq {tokens : List Token} {l : Lexeme} {ls : List Lexeme}
    (h : tokens.map Token.lexeme = l :: ls) :
    ∃ p rest, tokens = ⟨l, p⟩ :: rest ∧ rest.map Token.lexeme = ls := by
  obtain ⟨t, rest, rfl, rfl, hrest⟩ := List.map_eq_cons_iff.1 h
  exact ⟨t.position, rest, rfl, hrest⟩

theorem derivesTerms_of_lexemes {args : List Term}
    (h : ∀ t ∈ args, ∀ us : List Token, us.map Token.lexeme = t.lexemes →
      ∃ φ, Derives us φ ∧ Writes φ t) :
    ∀ {us : List Token}, args ≠ [] → us.map Token.lexeme = Term.lexemesList args →
      ∃ φs, DerivesTerms us φs ∧ WritesList φs args := by
  induction args with
  | nil =>
    intro us hne _
    exact absurd rfl hne
  | cons t args ih =>
    intro us _ hus
    obtain ⟨ht, hargs⟩ := List.forall_mem_cons.1 h
    cases args with
    | nil =>
      rw [Term.lexemesList] at hus
      obtain ⟨φ, hφ, hw⟩ := ht us hus
      exact ⟨[φ], .one hφ, hw, trivial⟩
    | cons u args =>
      rw [Term.lexemesList] at hus
      obtain ⟨front, behind, rfl, hfront, hbehind⟩ := List.map_eq_append_iff.1 hus
      obtain ⟨p, more, rfl, hmore⟩ := exists_cons_of_map_eq hbehind
      obtain ⟨φ, hφ, hw⟩ := ht front hfront
      obtain ⟨φs, hφs, hws⟩ := ih hargs (List.cons_ne_nil _ _) hmore
      exact ⟨φ :: φs, .more p hφ hφs, hw, hws⟩

/-- Arguments in parentheses are derived whether there are any or none. -/
theorem derivesArgs_of_lexemes {args : List Term}
    (h : ∀ t ∈ args, ∀ us : List Token, us.map Token.lexeme = t.lexemes →
      ∃ φ, Derives us φ ∧ Writes φ t) {us : List Token}
    (hus : us.map Token.lexeme =
      .mark .opening :: (Term.lexemesList args ++ [.mark .closing])) :
    ∃ φs, DerivesArgs us φs ∧ WritesList φs args := by
  obtain ⟨p, inside, rfl, hinside⟩ := exists_cons_of_map_eq hus
  obtain ⟨front, behind, rfl, hfront, hbehind⟩ := List.map_eq_append_iff.1 hinside
  obtain ⟨q, rest, rfl, hrest⟩ := exists_cons_of_map_eq hbehind
  obtain rfl := List.map_eq_nil_iff.1 hrest
  cases args with
  | nil =>
    obtain rfl := List.map_eq_nil_iff.1 hfront
    exact ⟨[], .empty p q, trivial⟩
  | cons t args =>
    obtain ⟨φs, hφs, hw⟩ := derivesTerms_of_lexemes h (List.cons_ne_nil _ _) hfront
    exact ⟨φs, .terms p q hφs, hw⟩

/-- **Tokens with the lexemes of a term derive a phrase of its shape.** -/
theorem derives_of_lexemes (t : Term) : ∀ us : List Token, us.map Token.lexeme = t.lexemes →
    ∃ φ, Derives us φ ∧ Writes φ t := by
  induction t using Term.induction with
  | const c =>
    intro us hus
    obtain ⟨p, rest, rfl, hrest⟩ := exists_cons_of_map_eq hus
    obtain rfl := List.map_eq_nil_iff.1 hrest
    exact ⟨.name c.symbol p, .name c.symbol p, rfl⟩
  | var v =>
    intro us hus
    obtain ⟨p, rest, rfl, hrest⟩ := exists_cons_of_map_eq hus
    obtain rfl := List.map_eq_nil_iff.1 hrest
    exact ⟨.name v.name p, .name v.name p, rfl⟩
  | app f args d ih =>
    intro us hus
    rw [Term.lexemes] at hus
    obtain ⟨p, rest, rfl, hrest⟩ := exists_cons_of_map_eq hus
    obtain ⟨φs, hφs, hw⟩ := derivesArgs_of_lexemes ih hrest
    exact ⟨.call f p φs, .call f p hφs, rfl, hw⟩

end Phrase

end MarkovLogic
