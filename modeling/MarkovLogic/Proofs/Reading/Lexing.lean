import MarkovLogic.Proofs.Reading.Tokens

/-!
# Lexical structure

A text lexes into tokens (`Token.Lexes`) when it is made of blanks, marks and identifiers, each
identifier a run of word characters that does not go on behind it. Scanning finds the tokens of
exactly these texts (`Token.scan_eq_ok_iff`).
-/

namespace MarkovLogic

namespace Token

/-- The characters from a position on are the tokens, with any blanks between them. -/
inductive Lexes : Nat → List Char → List Token → Prop where
  | nil (p : Nat) : Lexes p [] []
  | blank {p : Nat} {c : Char} {cs : List Char} {ts : List Token} (hc : Text.isBlank c = true)
    (h : Lexes (p + 1) cs ts) : Lexes p (c :: cs) ts
  | mark {p : Nat} {cs : List Char} {ts : List Token} (m : Mark) (h : Lexes (p + 1) cs ts) :
    Lexes p (m.char :: cs) (⟨.mark m, p⟩ :: ts)
  | word {p : Nat} {cs : List Char} {ts : List Token} (i : Identifier) (hcs : Text.StopsWord cs)
    (h : Lexes (p + i.chars.length) cs ts) : Lexes p (i.chars ++ cs) (⟨.word i, p⟩ :: ts)

theorem scan_of_lexes {p : Nat} {cs : List Char} {ts : List Token} (h : Lexes p cs ts) :
    scan p cs = .ok ts := by
  induction h with
  | nil p => rw [scan]
  | blank hc _ ih => rw [scan_blank hc, ih]
  | mark m _ ih => rw [scan_mark, ih]; rfl
  | word i hcs _ ih => rw [scan_word _ i hcs, ih]; rfl

theorem lexes_of_scan {p : Nat} {cs : List Char} :
    ∀ {ts : List Token}, scan p cs = .ok ts → Lexes p cs ts := by
  induction p, cs using scan.induct with
  | case1 p =>
    intro ts h
    rw [scan] at h
    obtain rfl := Except.ok.inj h
    exact .nil p
  | case2 p c cs hc ih =>
    intro ts h
    rw [scan_blank hc] at h
    exact .blank hc (ih h)
  | case3 p c cs hb hc tail =>
    rename_i ih
    intro ts h
    -- the run that is scanned is an identifier, and it stops where the run does
    obtain ⟨i, hsplit, hi⟩ := exists_word hc cs
    have hlength : p + 1 + tail.length = p + i.chars.length := by
      simp only [hi, tail]
      omega
    rw [hsplit] at h ⊢
    rw [scan_word p i (Text.stopsWord_dropWhile cs)] at h
    obtain ⟨rest, hrest, h⟩ := bind_eq_ok_iff.1 h
    obtain rfl := Except.ok.inj h
    rw [hlength] at ih
    exact .word i (Text.stopsWord_dropWhile cs) (ih hrest)
  | case4 p c cs hb hw m hm ih =>
    intro ts h
    obtain rfl := Mark.ofChar?_eq_some_iff.1 hm
    rw [scan_mark] at h
    obtain ⟨rest, hrest, h⟩ := bind_eq_ok_iff.1 h
    obtain rfl := Except.ok.inj h
    exact .mark m (ih hrest)
  | case5 p c cs hb hw hm =>
    intro ts h
    rw [scan, if_neg hb, dif_neg hw, hm] at h
    cases h

/-- **Scanning finds the tokens of exactly the texts that lex.** -/
theorem scan_eq_ok_iff {p : Nat} {cs : List Char} {ts : List Token} :
    scan p cs = .ok ts ↔ Lexes p cs ts :=
  ⟨lexes_of_scan, scan_of_lexes⟩

end Token

end MarkovLogic
