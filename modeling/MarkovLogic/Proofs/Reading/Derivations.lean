import MarkovLogic.Reading.Reader
import MarkovLogic.Proofs.Reading.Lexing
import MarkovLogic.Proofs.Reading.Grammar

/-!
# Reading to the end

Reading an atom, a literal or a row of literals from characters is lexing all of them, deriving the
tokens and looking up what the phrases denote (`Vocabulary.atomOfChars_eq_ok_iff`,
`Vocabulary.literalOfChars_eq_ok_iff`, `Vocabulary.literalsOfChars_eq_ok_iff`). Nothing is assumed
of the declarations.
-/

namespace MarkovLogic

namespace Vocabulary

open LiteralPhrase

variable {v : Vocabulary}

theorem finish_eq_ok_iff {ts : List Token} {u : Unit} : finish ts = .ok u ↔ ts = [] := by
  cases ts with
  | nil => simp [finish]
  | cons t ts => simp [finish]

theorem tokens_eq_ok_iff {cs : List Char} {ts : List Token} :
    tokens cs = .ok ts ↔ Token.Lexes 0 cs ts := by
  rw [tokens, Token.takeAll_start, mapError_eq_ok_iff, Token.scan_eq_ok_iff]

theorem atomOfChars_eq_ok_iff {cs : List Char} {a : Atom} : v.atomOfChars cs = .ok a ↔
    ∃ ts φ l, Token.Lexes 0 cs ts ∧ DerivesAtom true ts φ ∧ v.literal φ = .ok l ∧ l.atom = a := by
  constructor
  · intro h
    obtain ⟨ts, hts, h⟩ := bind_eq_ok_iff.1 h
    obtain ⟨⟨φ, rest⟩, hread, h⟩ := bind_eq_ok_iff.1 h
    obtain ⟨l, hl, h⟩ := bind_eq_ok_iff.1 h
    obtain ⟨_, hfinish, h⟩ := bind_eq_ok_iff.1 h
    obtain rfl := finish_eq_ok_iff.1 hfinish
    exact ⟨ts, φ, l, tokens_eq_ok_iff.1 hts, readAtom_eq_ok_iff.1 hread, hl, Except.ok.inj h⟩
  · rintro ⟨ts, φ, l, hts, hd, hl, rfl⟩
    exact bind_eq_ok_iff.2 ⟨ts, tokens_eq_ok_iff.2 hts, bind_eq_ok_iff.2
      ⟨(φ, []), readAtom_eq_ok_iff.2 hd, bind_eq_ok_iff.2 ⟨l, hl, rfl⟩⟩⟩

/-! ## One literal after the other -/

theorem takeLiteral_sound {ts rest : List Token} {l : Literal}
    (h : v.takeLiteral ts = .ok (l, rest)) :
    ∃ us φ, ts = us ++ rest ∧ Derives us φ ∧ v.literal φ = .ok l := by
  obtain ⟨⟨φ, behind⟩, hread, h⟩ := bind_eq_ok_iff.1 h
  obtain ⟨l', hl, h⟩ := bind_eq_ok_iff.1 h
  obtain ⟨rfl, rfl⟩ := Prod.mk.inj (Except.ok.inj h)
  obtain ⟨us, hus, hd⟩ := read_sound hread
  exact ⟨us, φ, hus, hd, hl⟩

theorem takeLiteral_complete {us rest : List Token} {φ : LiteralPhrase} {l : Literal}
    (hd : Derives us φ) (hl : v.literal φ = .ok l) (hr : Phrase.StopsTerm rest) :
    v.takeLiteral (us ++ rest) = .ok (l, rest) :=
  bind_eq_ok_iff.2 ⟨(φ, rest), read_complete hd hr, bind_eq_ok_iff.2 ⟨l, hl, rfl⟩⟩

theorem literalOfChars_eq_ok_iff {cs : List Char} {l : Literal} : v.literalOfChars cs = .ok l ↔
    ∃ ts φ, Token.Lexes 0 cs ts ∧ Derives ts φ ∧ v.literal φ = .ok l := by
  constructor
  · intro h
    obtain ⟨ts, hts, h⟩ := bind_eq_ok_iff.1 h
    obtain ⟨⟨l, rest⟩, htake, h⟩ := bind_eq_ok_iff.1 h
    obtain ⟨_, hfinish, h⟩ := bind_eq_ok_iff.1 h
    obtain rfl := finish_eq_ok_iff.1 hfinish
    obtain rfl := Except.ok.inj h
    obtain ⟨us, φ, rfl, hd, hl⟩ := takeLiteral_sound htake
    rw [List.append_nil] at hts
    exact ⟨us, φ, tokens_eq_ok_iff.1 hts, hd, hl⟩
  · rintro ⟨ts, φ, hts, hd, hl⟩
    have htake := takeLiteral_complete hd hl stopsTerm_nil
    rw [List.append_nil] at htake
    exact bind_eq_ok_iff.2 ⟨ts, tokens_eq_ok_iff.2 hts, bind_eq_ok_iff.2 ⟨_, htake, rfl⟩⟩

/-- The declarations give the literals that the phrases of the rows denote. -/
def LiteralsOf (v : Vocabulary) : List (List Token × LiteralPhrase) → List Literal → Prop :=
  List.Forall₂ fun row l => v.literal row.2 = .ok l

theorem isSeparator_iff {t : Token} : isSeparator t = true ↔ t.lexeme = .word separator := by
  obtain ⟨l, p⟩ := t
  unfold isSeparator
  rw [decide_eq_true_iff]
  cases l with
  | mark m => cases m <;> simp [Lexeme.chars, Mark.char]
  | word i =>
    obtain ⟨text, hi⟩ := i
    have htext : text.toList = "v".toList ↔ text = "v" := String.toList_inj
    simpa [Lexeme.chars, Identifier.chars, separator] using htext

theorem moreLiterals_sound {bound : Nat} :
    ∀ {ts : List Token} {ls : List Literal}, v.moreLiterals bound ts = .ok (ls, []) →
      ∃ rows, DerivesMore ts rows ∧ v.LiteralsOf rows ls := by
  induction bound with
  | zero =>
    intro ts ls h
    obtain ⟨rfl, rfl⟩ := Prod.mk.inj (Except.ok.inj h)
    exact ⟨[], .done, .nil⟩
  | succ bound ih =>
    intro ts ls h
    match ts with
    | [] =>
      obtain ⟨rfl, -⟩ := Prod.mk.inj (Except.ok.inj h)
      exact ⟨[], .done, .nil⟩
    | ⟨lexeme, p⟩ :: ts =>
      rw [moreLiterals] at h
      split at h
      · next hseparator =>
        obtain rfl : lexeme = .word separator := isSeparator_iff.1 hseparator
        obtain ⟨⟨l, behind⟩, htake, h⟩ := bind_eq_ok_iff.1 h
        obtain ⟨⟨ls', rest⟩, hmore, h⟩ := bind_eq_ok_iff.1 h
        obtain ⟨rfl, rfl⟩ := Prod.mk.inj (Except.ok.inj h)
        obtain ⟨us, φ, rfl, hd, hl⟩ := takeLiteral_sound htake
        obtain ⟨rows, hrows, hls⟩ := ih hmore
        exact ⟨(us, φ) :: rows, .more p hd hrows, .cons hl hls⟩
      · cases h

/-- The number of tokens is bound enough, because every separator takes one. -/
theorem moreLiterals_complete {ts : List Token} {rows : List (List Token × LiteralPhrase)}
    (h : DerivesMore ts rows) : ∀ {bound : Nat} {ls : List Literal}, v.LiteralsOf rows ls →
      ts.length ≤ bound → v.moreLiterals bound ts = .ok (ls, []) := by
  induction h with
  | done =>
    intro bound ls hls _
    cases hls
    cases bound <;> rfl
  | @more p ts us φ rows hd hs ih =>
    intro bound ls hls hlength
    cases hls with
    | cons hl hls =>
      simp only [List.length_cons, List.length_append] at hlength
      obtain ⟨bound, rfl⟩ := Nat.exists_eq_add_one_of_ne_zero (n := bound) (by omega)
      have htake := takeLiteral_complete hd hl (stopsTerm_of_derivesMore hs)
      have hmore := ih hls (show us.length ≤ bound by omega)
      rw [moreLiterals, if_pos (isSeparator_iff.2 rfl)]
      exact bind_eq_ok_iff.2 ⟨_, htake, bind_eq_ok_iff.2 ⟨_, hmore, rfl⟩⟩

theorem literalsOfChars_eq_ok_iff {cs : List Char}
    {ls : { literals : List Literal // literals ≠ [] }} : v.literalsOfChars cs = .ok ls ↔
      ∃ ts rows, Token.Lexes 0 cs ts ∧ DerivesAll ts rows ∧ v.LiteralsOf rows ls.1 := by
  constructor
  · intro h
    obtain ⟨ts, hts, h⟩ := bind_eq_ok_iff.1 h
    obtain ⟨⟨l, behind⟩, htake, h⟩ := bind_eq_ok_iff.1 h
    obtain ⟨⟨ls', rest⟩, hmore, h⟩ := bind_eq_ok_iff.1 h
    obtain ⟨_, hfinish, h⟩ := bind_eq_ok_iff.1 h
    obtain rfl := finish_eq_ok_iff.1 hfinish
    obtain rfl := Except.ok.inj h
    obtain ⟨us, φ, rfl, hd, hl⟩ := takeLiteral_sound htake
    obtain ⟨rows, hrows, hls⟩ := moreLiterals_sound hmore
    exact ⟨_, (us, φ) :: rows, tokens_eq_ok_iff.1 hts, .literals hd hrows, .cons hl hls⟩
  · rintro ⟨ts, rows, hts, hrows, hls⟩
    obtain ⟨ls, hne⟩ := ls
    cases hrows with
    | literals hd hs =>
      cases hls with
      | cons hl hls =>
        have htake := takeLiteral_complete hd hl (stopsTerm_of_derivesMore hs)
        have hmore := moreLiterals_complete hs hls (Nat.le_refl _)
        exact bind_eq_ok_iff.2 ⟨_, tokens_eq_ok_iff.2 hts, bind_eq_ok_iff.2 ⟨_, htake,
          bind_eq_ok_iff.2 ⟨_, hmore, rfl⟩⟩⟩

end Vocabulary

end MarkovLogic
