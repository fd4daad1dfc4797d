import MarkovLogic.Reading.Phrase
import MarkovLogic.Proofs.Runs

/-!
# The grammar of atoms and literals

Over tokens the grammar is

    Literals = Literal {'v' Literal}
    Literal  = ['!'] Atom
    Atom     = ident [Args]
    Term     = ident [Args]
    Args     = '(' [Terms] ')'
    Terms    = Term {',' Term}

and a phrase is a derivation tree of it. Reading a row of tokens to its end gives the phrase that it
derives, and fails if it derives none (`LiteralPhrase.readAtom_eq_ok_iff`,
`LiteralPhrase.read_eq_ok_iff`). The word between the literals may be the name of anything as well:
no literal goes on behind its last token, so a row of tokens is split into literals in one way only
(`LiteralPhrase.derivesAll_unique`).
-/

namespace MarkovLogic

/-! ## Derivations -/

namespace Phrase

mutual

/-- `Term = ident [Args]` -/
inductive Derives : List Token → Phrase → Prop where
  | name (w : Identifier) (p : Nat) : Derives [⟨.word w, p⟩] (.name w p)
  | call (w : Identifier) (p : Nat) {ts : List Token} {args : List Phrase}
    (h : DerivesArgs ts args) : Derives (⟨.word w, p⟩ :: ts) (.call w p args)

/-- `Args = '(' [Terms] ')'` -/
inductive DerivesArgs : List Token → List Phrase → Prop where
  | empty (p q : Nat) : DerivesArgs [⟨.mark .opening, p⟩, ⟨.mark .closing, q⟩] []
  | terms (p q : Nat) {ts : List Token} {φs : List Phrase} (h : DerivesTerms ts φs) :
    DerivesArgs (⟨.mark .opening, p⟩ :: (ts ++ [⟨.mark .closing, q⟩])) φs

/-- `Terms = Term {',' Term}` -/
inductive DerivesTerms : List Token → List Phrase → Prop where
  | one {ts : List Token} {φ : Phrase} (h : Derives ts φ) : DerivesTerms ts [φ]
  | more (p : Nat) {ts us : List Token} {φ : Phrase} {φs : List Phrase} (h : Derives ts φ)
    (hs : DerivesTerms us φs) : DerivesTerms (ts ++ ⟨.mark .comma, p⟩ :: us) (φ :: φs)

end

end Phrase

namespace LiteralPhrase

/-- `Atom = ident [Args]` -/
inductive DerivesAtom (positive : Bool) : List Token → LiteralPhrase → Prop where
  | bare (w : Identifier) (p : Nat) : DerivesAtom positive [⟨.word w, p⟩] ⟨positive, w, p, []⟩
  | applied (w : Identifier) (p : Nat) {ts : List Token} {args : List Phrase}
    (h : Phrase.DerivesArgs ts args) :
    DerivesAtom positive (⟨.word w, p⟩ :: ts) ⟨positive, w, p, args⟩

/-- `Literal = ['!'] Atom` -/
inductive Derives : List Token → LiteralPhrase → Prop where
  | plain {ts : List Token} {φ : LiteralPhrase} (h : DerivesAtom true ts φ) : Derives ts φ
  | negated (p : Nat) {ts : List Token} {φ : LiteralPhrase} (h : DerivesAtom false ts φ) :
    Derives (⟨.mark .bang, p⟩ :: ts) φ

end LiteralPhrase

namespace Phrase

/-! ## What is read is derived -/

section Soundness

/-- What the reader takes off before a closing parenthesis is derived. -/
def Sound (inner : List Token → Except Misread (List Phrase × List Token)) : Prop :=
  ∀ {ts φs rest}, inner ts = .ok (φs, rest) →
    ∃ us q, ts = us ++ ⟨.mark .closing, q⟩ :: rest ∧ DerivesTerms us φs

variable {inner : List Token → Except Misread (List Phrase × List Token)}

/-- Arguments are read from an opening parenthesis on, or nothing is read. -/
theorem parenthesised_sound (hs : Sound inner) {ts rest : List Token} {args : Option (List Phrase)}
    (h : parenthesised inner ts = .ok (args, rest)) :
    (args = none ∧ ts = rest) ∨
      ∃ us φs, args = some φs ∧ ts = us ++ rest ∧ DerivesArgs us φs := by
  unfold parenthesised at h
  split at h
  · next p q behind =>
    obtain ⟨rfl, rfl⟩ := Prod.mk.inj (Except.ok.inj h)
    exact .inr ⟨_, [], rfl, rfl, .empty p q⟩
  · next p inside _ =>
    obtain ⟨⟨φs, behind⟩, hinner, h⟩ := bind_eq_ok_iff.1 h
    obtain ⟨rfl, rfl⟩ := Prod.mk.inj (Except.ok.inj h)
    obtain ⟨us, q, rfl, hus⟩ := hs hinner
    exact .inr ⟨_, φs, rfl, by simp, .terms p q hus⟩
  · obtain ⟨rfl, rfl⟩ := Prod.mk.inj (Except.ok.inj h)
    exact .inl ⟨rfl, rfl⟩

/-- A name with what was read behind it is a term. -/
theorem derives_ofArguments {w : Identifier} {p : Nat} {ts rest : List Token}
    {args : Option (List Phrase)} (h : (args = none ∧ ts = rest) ∨
      ∃ us φs, args = some φs ∧ ts = us ++ rest ∧ DerivesArgs us φs) :
    ∃ us, ⟨.word w, p⟩ :: ts = us ++ rest ∧ Derives us (ofArguments w p args) := by
  rcases h with ⟨rfl, rfl⟩ | ⟨us, φs, rfl, rfl, hus⟩
  · exact ⟨[⟨.word w, p⟩], rfl, .name w p⟩
  · exact ⟨⟨.word w, p⟩ :: us, rfl, .call w p hus⟩

theorem listWithin_sound (bound : Nat) : Sound (listWithin bound) := by
  induction bound with
  | zero =>
    intro ts φs rest h
    rw [listWithin] at h
    cases h
  | succ bound ih =>
    intro ts φs rest h
    match ts with
    | [] =>
      rw [listWithin] at h
      cases h
    | ⟨.mark m, p⟩ :: ts =>
      rw [listWithin] at h
      cases h
    | ⟨.word w, p⟩ :: ts =>
      rw [listWithin] at h
      obtain ⟨⟨args, behind⟩, hargs, h⟩ := bind_eq_ok_iff.1 h
      obtain ⟨us, hus, hd⟩ := derives_ofArguments (w := w) (p := p) (parenthesised_sound ih hargs)
      rw [hus]
      simp only at h
      split at h
      · cases h
      · next more q _ =>
        obtain ⟨⟨ψs, last⟩, hmore, h⟩ := bind_eq_ok_iff.1 h
        obtain ⟨rfl, rfl⟩ := Prod.mk.inj (Except.ok.inj h)
        obtain ⟨vs, q', rfl, hvs⟩ := ih hmore
        exact ⟨_, q', by simp, .more q hd hvs⟩
      · next last q _ =>
        obtain ⟨rfl, rfl⟩ := Prod.mk.inj (Except.ok.inj h)
        exact ⟨us, q, rfl, .one hd⟩
      · cases h

end Soundness

/-! ## What is derived is read -/

section Completeness

/-- Within its bound the reader takes derived terms and the closing parenthesis off. -/
def Complete (inner : List Token → Except Misread (List Phrase × List Token)) (bound : Nat) :
    Prop :=
  ∀ {us φs}, DerivesTerms us φs → us.length ≤ bound → ∀ q rest,
    inner (us ++ ⟨.mark .closing, q⟩ :: rest) = .ok (φs, rest)

variable {inner : List Token → Except Misread (List Phrase × List Token)} {bound : Nat}

theorem exists_word_of_derives {ts : List Token} {φ : Phrase} (h : Derives ts φ) :
    ∃ w p us, ts = ⟨.word w, p⟩ :: us := by
  cases h with
  | name w p => exact ⟨w, p, [], rfl⟩
  | call w p _ => exact ⟨w, p, _, rfl⟩

theorem exists_word_of_derivesTerms {ts : List Token} {φs : List Phrase} (h : DerivesTerms ts φs) :
    ∃ w p us, ts = ⟨.word w, p⟩ :: us := by
  cases h with
  | one h => exact exists_word_of_derives h
  | more q h _ =>
    obtain ⟨w, p, us, rfl⟩ := exists_word_of_derives h
    exact ⟨w, p, _, rfl⟩

theorem parenthesised_of_derivesArgs (hc : Complete inner bound) {ts : List Token}
    {args : List Phrase} (h : DerivesArgs ts args) (hl : ts.length ≤ bound + 2)
    (rest : List Token) : parenthesised inner (ts ++ rest) = .ok (some args, rest) := by
  cases h with
  | empty p q => rfl
  | @terms p q us φs h =>
    have hinner := hc h (by simp at hl; omega) q rest
    -- derived terms begin with a name, so the parentheses are not the empty ones
    obtain ⟨w, p', us', rfl⟩ := exists_word_of_derivesTerms h
    rw [List.cons_append, List.append_assoc, List.singleton_append]
    exact bind_eq_ok_iff.2 ⟨_, hinner, rfl⟩

/-- The tokens do not go on with an opening parenthesis. -/
def StopsTerm (rest : List Token) : Prop :=
  ∀ t ∈ rest.head?, t.lexeme ≠ .mark .opening

theorem parenthesised_of_stopsTerm {rest : List Token} (h : StopsTerm rest) :
    parenthesised inner rest = .ok (none, rest) := by
  unfold parenthesised
  split
  · exact absurd rfl (h _ rfl)
  · exact absurd rfl (h _ rfl)
  · rfl

/-- A derived term is read as its name and what follows it. -/
theorem exists_parenthesised_of_derives (hc : Complete inner bound) {ts : List Token} {φ : Phrase}
    (h : Derives ts φ) (hl : ts.length ≤ bound + 3) {rest : List Token} (hr : StopsTerm rest) :
    ∃ w p behind args, ts ++ rest = ⟨.word w, p⟩ :: behind ∧
      parenthesised inner behind = .ok (args, rest) ∧ φ = ofArguments w p args := by
  cases h with
  | name w p => exact ⟨w, p, rest, none, rfl, parenthesised_of_stopsTerm hr, rfl⟩
  | @call w p us args h =>
    have hl : us.length ≤ bound + 2 := by simpa using hl
    exact ⟨w, p, us ++ rest, some args, rfl, parenthesised_of_derivesArgs hc h hl rest, rfl⟩

/-- **The number of tokens is bound enough**, because every term takes one. -/
theorem listWithin_complete (bound : Nat) : Complete (listWithin bound) bound := by
  induction bound with
  | zero =>
    intro us φs h hl
    obtain ⟨w, p, us', rfl⟩ := exists_word_of_derivesTerms h
    cases hl
  | succ bound ih =>
    intro us φs h hl q rest
    cases h with
    | @one _ φ h =>
      have hstops : StopsTerm (⟨.mark .closing, q⟩ :: rest) := by
        simp [StopsTerm]
      obtain ⟨w, p, behind, args, hsplit, hread, rfl⟩ :=
        exists_parenthesised_of_derives ih h (by omega) hstops
      rw [hsplit, listWithin]
      exact bind_eq_ok_iff.2 ⟨_, hread, rfl⟩
    | @more r ts vs φ φs h hs =>
      have hstops : StopsTerm (⟨.mark .comma, r⟩ :: (vs ++ ⟨.mark .closing, q⟩ :: rest)) := by
        simp [StopsTerm]
      -- the first term and the comma take tokens, so the bound holds for what follows
      have hlengths : ts.length ≤ bound + 3 ∧ vs.length ≤ bound := by
        simp only [List.length_append, List.length_cons] at hl
        omega
      obtain ⟨w, p, behind, args, hsplit, hread, rfl⟩ :=
        exists_parenthesised_of_derives ih h hlengths.1 hstops
      rw [List.append_assoc, List.cons_append, hsplit, listWithin]
      have hmore := ih hs hlengths.2 q rest
      exact bind_eq_ok_iff.2 ⟨_, hread, bind_eq_ok_iff.2 ⟨_, hmore, rfl⟩⟩

end Completeness

end Phrase

/-! ## Atoms and literals -/

/-- The word between the literals of a clause. -/
def separator : Identifier :=
  ⟨"v", by decide⟩

namespace LiteralPhrase

theorem list_sound : Phrase.Sound Phrase.list := by
  intro ts φs rest h
  exact Phrase.listWithin_sound ts.length h

theorem list_complete (bound : Nat) : Phrase.Complete Phrase.list bound := by
  intro us φs h _ q rest
  exact Phrase.listWithin_complete _ h (by simp) q rest

theorem readAtom_sound {positive : Bool} {ts rest : List Token} {φ : LiteralPhrase}
    (h : readAtom positive ts = .ok (φ, rest)) :
    ∃ us, ts = us ++ rest ∧ DerivesAtom positive us φ := by
  match ts with
  | [] => cases h
  | ⟨.mark m, p⟩ :: ts => cases h
  | ⟨.word w, p⟩ :: ts =>
    rw [readAtom] at h
    obtain ⟨⟨args, behind⟩, hargs, h⟩ := bind_eq_ok_iff.1 h
    obtain ⟨rfl, rfl⟩ := Prod.mk.inj (Except.ok.inj h)
    rcases Phrase.parenthesised_sound list_sound hargs with ⟨rfl, rfl⟩ | ⟨us, φs, rfl, rfl, hus⟩
    · exact ⟨[⟨.word w, p⟩], rfl, .bare w p⟩
    · exact ⟨⟨.word w, p⟩ :: us, rfl, .applied w p hus⟩

theorem readAtom_complete {positive : Bool} {us rest : List Token} {φ : LiteralPhrase}
    (h : DerivesAtom positive us φ) (hr : Phrase.StopsTerm rest) :
    readAtom positive (us ++ rest) = .ok (φ, rest) := by
  cases h with
  | bare w p =>
    exact bind_eq_ok_iff.2 ⟨(none, rest), Phrase.parenthesised_of_stopsTerm hr, rfl⟩
  | @applied w p us args h =>
    have hread := Phrase.parenthesised_of_derivesArgs (list_complete us.length) h (by omega) rest
    exact bind_eq_ok_iff.2 ⟨_, hread, rfl⟩

/-- What is read of a literal is derived. -/
theorem read_sound {ts rest : List Token} {φ : LiteralPhrase} (h : read ts = .ok (φ, rest)) :
    ∃ us, ts = us ++ rest ∧ Derives us φ := by
  unfold read at h
  split at h
  · next p ts =>
    obtain ⟨us, rfl, hus⟩ := readAtom_sound h
    exact ⟨⟨.mark .bang, p⟩ :: us, rfl, .negated p hus⟩
  · obtain ⟨us, rfl, hus⟩ := readAtom_sound h
    exact ⟨us, rfl, .plain hus⟩

/-- A derived literal is read, whatever follows that does not open a parenthesis. -/
theorem read_complete {us rest : List Token} {φ : LiteralPhrase} (h : Derives us φ)
    (hr : Phrase.StopsTerm rest) : read (us ++ rest) = .ok (φ, rest) := by
  cases h with
  | negated p h => exact readAtom_complete h hr
  | plain h =>
    have hread := readAtom_complete h hr
    -- an atom starts with a name and not with an exclamation mark
    cases h with
    | bare w p => exact hread
    | applied w p h => exact hread

theorem positive_of_derivesAtom {positive : Bool} {ts : List Token} {φ : LiteralPhrase}
    (h : DerivesAtom positive ts φ) : φ.positive = positive := by
  cases h <;> rfl

theorem stopsTerm_nil : Phrase.StopsTerm [] := by
  simp [Phrase.StopsTerm]

/-- **Reading an atom to the end of the input is finding its derivation.** -/
theorem readAtom_eq_ok_iff {positive : Bool} {ts : List Token} {φ : LiteralPhrase} :
    readAtom positive ts = .ok (φ, []) ↔ DerivesAtom positive ts φ := by
  constructor
  · intro h
    obtain ⟨us, rfl, hus⟩ := readAtom_sound h
    rw [List.append_nil]
    exact hus
  · intro h
    have hread := readAtom_complete h stopsTerm_nil
    rw [List.append_nil] at hread
    exact hread

/-- **Reading a literal to the end of the input is finding its derivation.** -/
theorem read_eq_ok_iff {ts : List Token} {φ : LiteralPhrase} :
    read ts = .ok (φ, []) ↔ Derives ts φ := by
  constructor
  · intro h
    obtain ⟨us, rfl, hus⟩ := read_sound h
    rw [List.append_nil]
    exact hus
  · intro h
    have hread := read_complete h stopsTerm_nil
    rw [List.append_nil] at hread
    exact hread

/-! ## Rows of literals -/

/-- `{'v' Literal}`, with the tokens and the phrase of each literal. -/
inductive DerivesMore : List Token → List (List Token × LiteralPhrase) → Prop where
  | done : DerivesMore [] []
  | more (p : Nat) {ts us : List Token} {φ : LiteralPhrase}
    {rows : List (List Token × LiteralPhrase)} (h : Derives ts φ) (hs : DerivesMore us rows) :
    DerivesMore (⟨.word separator, p⟩ :: (ts ++ us)) ((ts, φ) :: rows)

/-- `Literals = Literal {'v' Literal}`, with the tokens and the phrase of each literal. -/
inductive DerivesAll : List Token → List (List Token × LiteralPhrase) → Prop where
  | literals {ts us : List Token} {φ : LiteralPhrase} {rows : List (List Token × LiteralPhrase)}
    (h : Derives ts φ) (hs : DerivesMore us rows) : DerivesAll (ts ++ us) ((ts, φ) :: rows)

theorem stopsTerm_of_derivesMore {us : List Token} {rows : List (List Token × LiteralPhrase)}
    (h : DerivesMore us rows) : Phrase.StopsTerm us := by
  cases h with
  | done => exact stopsTerm_nil
  | more p _ _ => simp [Phrase.StopsTerm]

/-- Reading finds where a literal ends, so no two literals end in different places. -/
theorem head_unique {ts us ts' us' : List Token} {φ φ' : LiteralPhrase}
    {rows rows' : List (List Token × LiteralPhrase)} (h : Derives ts φ) (hs : DerivesMore us rows)
    (h' : Derives ts' φ') (hs' : DerivesMore us' rows') (heq : ts ++ us = ts' ++ us') :
    (ts, φ) = (ts', φ') ∧ us = us' := by
  have hread := read_complete h (stopsTerm_of_derivesMore hs)
  rw [heq, read_complete h' (stopsTerm_of_derivesMore hs'), Except.ok.injEq, Prod.mk.injEq] at hread
  obtain ⟨rfl, rfl⟩ := hread
  obtain rfl := List.append_cancel_right heq
  exact ⟨rfl, rfl⟩

theorem derivesMore_unique {ts : List Token} {rows rows' : List (List Token × LiteralPhrase)}
    (h : DerivesMore ts rows) (h' : DerivesMore ts rows') : rows = rows' := by
  induction h generalizing rows' with
  | done =>
    cases h'
    rfl
  | more p h hs ih =>
    generalize hts : _ :: _ = ts at h'
    cases h' with
    | done => cases hts
    | more p' h' hs' =>
      obtain ⟨hhead, rfl⟩ := head_unique h hs h' hs' (List.cons.inj hts).2
      rw [hhead, ih hs']

/-- **There is one way at most to split tokens into literals**, whatever the names are. -/
theorem derivesAll_unique {ts : List Token} {rows rows' : List (List Token × LiteralPhrase)}
    (h : DerivesAll ts rows) (h' : DerivesAll ts rows') : rows = rows' := by
  cases h with
  | @literals ts us _ _ h hs =>
    generalize hts : ts ++ us = all at h'
    cases h' with
    | literals h' hs' =>
      obtain ⟨hhead, rfl⟩ := head_unique h hs h' hs' hts
      rw [hhead, derivesMore_unique hs hs']

end LiteralPhrase

end MarkovLogic
