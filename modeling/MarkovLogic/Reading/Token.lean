import MarkovLogic.Identifier

/-!
# Tokens

A text is read as identifiers, the longest runs of word characters, and the four punctuation marks,
with blanks anywhere between them. Every token knows the position at which it starts.

`Token.takeAll` takes one token after the other, each behind the blanks that stand before it, until
nothing or only blanks are left.
-/

namespace MarkovLogic

/-- The punctuation of atoms and literals. -/
inductive Mark where
  | opening
  | closing
  | comma
  | bang
deriving DecidableEq, Repr

namespace Mark

/-- The character of a mark. -/
def char : Mark → Char
  | .opening => '('
  | .closing => ')'
  | .comma => ','
  | .bang => '!'

/-- The mark of a character. -/
def ofChar? : Char → Option Mark
  | '(' => some .opening
  | ')' => some .closing
  | ',' => some .comma
  | '!' => some .bang
  | _ => none

end Mark

/-- An identifier or a mark. -/
inductive Lexeme where
  | word (name : Identifier)
  | mark (m : Mark)
deriving DecidableEq, Repr

/-- The characters of a lexeme. -/
def Lexeme.chars : Lexeme → List Char
  | .word name => name.chars
  | .mark m => [m.char]

/-- The characters of a lexeme as a string. -/
def Lexeme.text (l : Lexeme) : String :=
  String.ofList l.chars

theorem Text.isWordRun_takeWhile {c : Char} {cs : List Char} (h : isWord c = true) :
    isWordRun (c :: cs.takeWhile isWord) = true := by
  simp [isWordRun, h]

/-- The lexeme that the characters start with: as many word characters as there are, or a mark. -/
def Lexeme.first? : List Char → Option Lexeme
  | [] => none
  | c :: cs =>
    if h : Text.isWord c = true then
      some (.word (.ofChars (c :: cs.takeWhile Text.isWord) (Text.isWordRun_takeWhile h)))
    else (Mark.ofChar? c).map .mark

theorem Lexeme.chars_ne_nil (l : Lexeme) : l.chars ≠ [] := by
  cases l with
  | mark m => exact List.cons_ne_nil _ _
  | word i =>
    intro h
    have hrun := i.isWordRun
    unfold chars Identifier.chars at h
    simp [h, Text.isWordRun] at hrun

/-- A lexeme and the position of its first character. -/
structure Token where
  lexeme : Lexeme
  position : Nat
deriving DecidableEq, Repr

namespace Token

/-- The index behind the last character of a token. -/
def stop (t : Token) : Nat :=
  t.position + t.lexeme.chars.length

/-- The token behind that many characters from the index on, or behind fewer if none stands
there. -/
def behind? (text : List Char) (start : Nat) : Nat → Option Token
  | 0 => (Lexeme.first? (text.drop start)).map (⟨·, start⟩)
  | n + 1 =>
    match Lexeme.first? (text.drop (start + (n + 1))) with
    | some l => some ⟨l, start + (n + 1)⟩
    | none => behind? text start n

/-- The next token from the index on. It stands behind the blanks there, or behind some of them. -/
def next? (text : List Char) (start : Nat) : Option Token :=
  behind? text start ((text.drop start).takeWhile Text.isBlank).length

theorem position_of_behind? {text : List Char} {start : Nat} {t : Token} :
    ∀ {n : Nat}, behind? text start n = some t → start ≤ t.position
  | 0, h => by
    rw [behind?, Option.map_eq_some_iff] at h
    obtain ⟨l, -, rfl⟩ := h
    exact Nat.le_refl start
  | n + 1, h => by
    rw [behind?] at h
    split at h
    · obtain rfl := Option.some.inj h
      exact Nat.le_add_right start (n + 1)
    · exact position_of_behind? h

theorem lt_stop_of_next? {text : List Char} {start : Nat} {t : Token}
    (h : next? text start = some t) : start < t.stop := by
  have hposition : start ≤ t.position := position_of_behind? h
  have hlength := List.length_pos_iff.2 t.lexeme.chars_ne_nil
  unfold stop
  omega

/-- The tokens of the text: those taken already, and those from the index on. Fails with the index
of the first character that belongs to no token and is not blank. -/
def takeAll (text : List Char) (start : Nat) (taken : List Token) : Except Nat (List Token) :=
  if _h : start < text.length then
    if Text.trim (text.drop start) = [] then .ok taken
    else
      match _hnext : next? text start with
      | none => .error (text.length - ((text.drop start).dropWhile Text.isBlank).length)
      | some t => takeAll text t.stop (taken ++ [t])
  else .ok taken
termination_by text.length - start
decreasing_by
  have hstop := lt_stop_of_next? _hnext
  omega

end Token

end MarkovLogic
