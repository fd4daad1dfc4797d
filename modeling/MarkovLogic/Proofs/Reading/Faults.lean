import MarkovLogic.Proofs.Reading.Acceptance

/-!
# Tokens at fault

A reader that fails names a token it was given or says that there are too few of them
(`Misread.PointsInto`), and what its fault says of that token is so (`ReadFault.Blames`). What is
wrong with a phrase is wrong with one of its names (`Phrase.pointsInto_words_of_toTerm`), and the
names of a phrase are among the tokens it was read from (`Phrase.words_subset_of_derives`). So
reading literals from tokens faults one of these tokens (`Vocabulary.pointsInto_of_takeLiteral`,
`Vocabulary.pointsInto_of_moreLiterals`).
-/

namespace MarkovLogic

/-! ## Faults and tokens -/

/-- What the fault says of a token is so. -/
def ReadFault.Blames (v : Vocabulary) (t : Token) : ReadFault → Prop
  | .expected wanted found => wanted = ")" ∧ found = t.lexeme.text ∧
      t.lexeme ≠ .mark .comma ∧ t.lexeme ≠ .mark .closing
  | .expectedPredicate found | .expectedTerm found =>
      found = t.lexeme.text ∧ ∃ m, t.lexeme = .mark m
  | .trailing found => found = t.lexeme.text
  | .unknownPredicate s => ∃ w, t.lexeme = .word w ∧ s.name = w.text ∧ v.predicates.get? s = none
  | .unknownFunction s => ∃ w, t.lexeme = .word w ∧ s.name = w.text ∧ v.functions.get? s = none
  | .returnDomain s actual wanted => ∃ w places, t.lexeme = .word w ∧ s.name = w.text ∧
      v.functions.get? s = some (actual, places) ∧ wanted ≠ none ∧ actual ≠ wanted
  | .unexpectedCharacter | .unexpectedEnd | .weightedAndHard | .noWeight => False

/-- The tokens end too early, or one of them is at fault. -/
inductive Misread.PointsInto (v : Vocabulary) (ts : List Token) : Misread → Prop where
  | atEnd : PointsInto v ts .atEnd
  | token {t : Token} {fault : ReadFault} (ht : t ∈ ts) (h : fault.Blames v t) :
    PointsInto v ts ⟨fault, some t.position⟩

variable {v : Vocabulary}

theorem Misread.PointsInto.mono {ts us : List Token} {m : Misread} (h : m.PointsInto v ts)
    (hsub : ts ⊆ us) : m.PointsInto v us := by
  cases h with
  | atEnd => exact .atEnd
  | token ht h => exact .token (hsub ht) h

/-! ## Readers of tokens -/

namespace Phrase

/-- A reader that faults only the tokens it is given. -/
def Locates (v : Vocabulary)
    (inner : List Token → Except Misread (List Phrase × List Token)) : Prop :=
  ∀ {ts m}, inner ts = .error m → m.PointsInto v ts

theorem pointsInto_of_parenthesised {inner} (hinner : Locates v inner) {ts : List Token}
    {m : Misread} (h : parenthesised inner ts = .error m) : m.PointsInto v ts := by
  unfold parenthesised at h
  split at h
  · cases h
  · next p inside _ =>
    rcases bind_eq_error_iff.1 h with h | ⟨_, -, h⟩
    · exact (hinner h).mono (List.subset_cons_self _ _)
    · cases h
  · cases h

/-- What is left behind arguments was there before. -/
theorem subset_of_parenthesised {inner} (hinner : Sound inner) {ts rest : List Token}
    {args : Option (List Phrase)} (h : parenthesised inner ts = .ok (args, rest)) : rest ⊆ ts := by
  rcases parenthesised_sound hinner h with ⟨-, rfl⟩ | ⟨us, _, -, rfl, -⟩
  · exact List.Subset.refl _
  · exact List.subset_append_right _ _

theorem locates_listWithin (bound : Nat) : Locates v (listWithin bound) := by
  induction bound with
  | zero =>
    intro ts m h
    rw [listWithin] at h
    obtain rfl := Except.error.inj h
    exact .atEnd
  | succ bound ih =>
    intro ts m h
    cases ts with
    | nil =>
      rw [listWithin] at h
      obtain rfl := Except.error.inj h
      exact .atEnd
    | cons t ts =>
      obtain ⟨lexeme, p⟩ := t
      cases lexeme with
      | mark k =>
        rw [listWithin] at h
        obtain rfl := Except.error.inj h
        exact .token List.mem_cons_self ⟨rfl, k, rfl⟩
      | word w =>
        rw [listWithin] at h
        rcases bind_eq_error_iff.1 h with h | ⟨⟨args, rest⟩, hargs, h⟩
        · exact (pointsInto_of_parenthesised ih h).mono (List.subset_cons_self _ _)
        · have hrest := List.subset_cons_of_subset ⟨.word w, p⟩
            (subset_of_parenthesised (listWithin_sound bound) hargs)
          simp only at h
          split at h
          · obtain rfl := Except.error.inj h
            exact .atEnd
          · next more q _ =>
            rcases bind_eq_error_iff.1 h with h | ⟨_, -, h⟩
            · exact (ih h).mono fun t ht => hrest (List.mem_cons_of_mem _ ht)
            · cases h
          · cases h
          · next t _ hcomma hclosing =>
            obtain rfl := Except.error.inj h
            refine .token (hrest List.mem_cons_self) ⟨rfl, rfl, ?_, ?_⟩
            · exact fun hl => hcomma t.position (by rw [← hl])
            · exact fun hl => hclosing t.position (by rw [← hl])

end Phrase

namespace LiteralPhrase

theorem pointsInto_of_readAtom {positive : Bool} {ts : List Token} {m : Misread}
    (h : readAtom positive ts = .error m) : m.PointsInto v ts := by
  cases ts with
  | nil =>
    obtain rfl := Except.error.inj h
    exact .atEnd
  | cons t ts =>
    obtain ⟨lexeme, p⟩ := t
    cases lexeme with
    | mark k =>
      obtain rfl := Except.error.inj h
      exact .token List.mem_cons_self ⟨rfl, k, rfl⟩
    | word w =>
      rw [readAtom] at h
      rcases bind_eq_error_iff.1 h with h | ⟨_, -, h⟩
      · have hlist : Phrase.Locates v Phrase.list := fun {ts _} h =>
          Phrase.locates_listWithin ts.length h
        exact (Phrase.pointsInto_of_parenthesised hlist h).mono (List.subset_cons_self _ _)
      · cases h

theorem pointsInto_of_read {ts : List Token} {m : Misread} (h : read ts = .error m) :
    m.PointsInto v ts := by
  unfold read at h
  split at h
  · exact (pointsInto_of_readAtom h).mono (List.subset_cons_self _ _)
  · exact pointsInto_of_readAtom h

end LiteralPhrase

/-! ## Names of phrases -/

namespace Phrase

mutual

/-- The names of the phrase, each as the token that it was read from. -/
def words : Phrase → List Token
  | .name w p => [⟨.word w, p⟩]
  | .call w p args => ⟨.word w, p⟩ :: wordsList args

/-- The names of the phrases in order. -/
def wordsList : List Phrase → List Token
  | [] => []
  | φ :: φs => words φ ++ wordsList φs

end

mutual

/-- The names of a phrase are among the tokens it is derived from. -/
theorem words_subset_of_derives : ∀ {ts : List Token} {φ : Phrase}, Derives ts φ → φ.words ⊆ ts
  | _, _, .name _ _ => List.Subset.refl _
  | _, _, .call _ _ h => List.cons_subset_cons _ (wordsList_subset_of_derivesArgs h)

theorem wordsList_subset_of_derivesArgs :
    ∀ {ts : List Token} {φs : List Phrase}, DerivesArgs ts φs → wordsList φs ⊆ ts
  | _, _, .empty _ _ => List.nil_subset _
  | _, _, .terms _ _ h => fun _ ht =>
    List.mem_cons_of_mem _ (List.mem_append_left _ (wordsList_subset_of_derivesTerms h ht))

theorem wordsList_subset_of_derivesTerms :
    ∀ {ts : List Token} {φs : List Phrase}, DerivesTerms ts φs → wordsList φs ⊆ ts
  | _, _, .one h => by
    rw [wordsList, wordsList, List.append_nil]
    exact words_subset_of_derives h
  | _, _, .more _ h hs => by
    rw [wordsList]
    refine List.append_subset.2 ⟨?_, ?_⟩
    · exact List.subset_append_of_subset_left _ (words_subset_of_derives h)
    · exact List.subset_append_of_subset_right _
        (List.subset_cons_of_subset _ (wordsList_subset_of_derivesTerms hs))

end

theorem pointsInto_wordsList_of_toTerms {args : List Phrase}
    (h : ∀ φ ∈ args, ∀ {d m}, toTerm v.functions d φ = .error m → m.PointsInto v φ.words) :
    ∀ {places : List (Option String)} {m : Misread},
      toTerms v.functions places args = .error m → m.PointsInto v (wordsList args) := by
  induction args with
  | nil =>
    intro places m hm
    cases hm
  | cons φ args ih =>
    intro places m hm
    obtain ⟨hφ, hargs⟩ := List.forall_mem_cons.1 h
    rw [wordsList]
    cases places with
    | nil => cases hm
    | cons d places =>
      rw [toTerms] at hm
      rcases bind_eq_error_iff.1 hm with hm | ⟨_, -, hm⟩
      · exact (hφ hm).mono (List.subset_append_left _ _)
      · rcases bind_eq_error_iff.1 hm with hm | ⟨_, -, hm⟩
        · exact (ih hargs hm).mono (List.subset_append_right _ _)
        · cases hm

/-- **What is wrong with a phrase is wrong with one of its names.** -/
theorem pointsInto_words_of_toTerm (φ : Phrase) : ∀ {d : Option String} {m : Misread},
    toTerm v.functions d φ = .error m → m.PointsInto v φ.words := by
  induction φ using Phrase.induction with
  | name w p =>
    intro d m h
    cases h
  | call w p args ih =>
    intro d m h
    rw [toTerm] at h
    rw [words]
    cases hget : v.functions.get? ⟨w.text, args.length⟩ with
    | none =>
      simp only [hget] at h
      obtain rfl := Except.error.inj h
      exact .token (t := ⟨.word w, p⟩) List.mem_cons_self ⟨w, rfl, rfl, hget⟩
    | some entry =>
      obtain ⟨value, places⟩ := entry
      simp only [hget] at h
      split at h
      · next hdomain =>
        obtain rfl := Except.error.inj h
        obtain ⟨hsome, hne⟩ : d ≠ none ∧ value ≠ d := by
          simpa [Option.isSome_iff_ne_none] using hdomain
        exact .token (t := ⟨.word w, p⟩) List.mem_cons_self
          ⟨w, places, rfl, rfl, hget, hsome, hne⟩
      · rcases bind_eq_error_iff.1 h with h | ⟨_, -, h⟩
        · exact (pointsInto_wordsList_of_toTerms (fun φ hφ => ih φ hφ) h).mono
            (List.subset_cons_self _ _)
        · cases h

end Phrase

namespace LiteralPhrase

/-- The predicate and the names of the arguments, each as the token that it was read from. -/
def words (φ : LiteralPhrase) : List Token :=
  ⟨.word φ.predicate, φ.position⟩ :: Phrase.wordsList φ.args

theorem words_subset_of_derivesAtom {positive : Bool} {ts : List Token} {φ : LiteralPhrase}
    (h : DerivesAtom positive ts φ) : φ.words ⊆ ts := by
  cases h with
  | bare w p => exact List.Subset.refl _
  | applied w p h => exact List.cons_subset_cons _ (Phrase.wordsList_subset_of_derivesArgs h)

theorem words_subset_of_derives {ts : List Token} {φ : LiteralPhrase} (h : Derives ts φ) :
    φ.words ⊆ ts := by
  cases h with
  | plain h => exact words_subset_of_derivesAtom h
  | negated p h => exact List.subset_cons_of_subset _ (words_subset_of_derivesAtom h)

end LiteralPhrase

/-! ## Readers of texts -/

namespace Vocabulary

open LiteralPhrase

theorem pointsInto_words_of_literal {φ : LiteralPhrase} {m : Misread}
    (h : v.literal φ = .error m) : m.PointsInto v φ.words := by
  rw [literal] at h
  cases hget : v.predicates.get? ⟨φ.predicate.text, φ.args.length⟩ with
  | none =>
    simp only [hget] at h
    obtain rfl := Except.error.inj h
    exact .token (t := ⟨.word φ.predicate, φ.position⟩) List.mem_cons_self
      ⟨φ.predicate, rfl, rfl, hget⟩
  | some places =>
    simp only [hget] at h
    rcases bind_eq_error_iff.1 h with h | ⟨_, -, h⟩
    · exact (Phrase.pointsInto_wordsList_of_toTerms
        (fun ψ _ => Phrase.pointsInto_words_of_toTerm ψ) h).mono (List.subset_cons_self _ _)
    · cases h

theorem pointsInto_of_finish {ts : List Token} {m : Misread} (h : finish ts = .error m) :
    m.PointsInto v ts := by
  cases ts with
  | nil => cases h
  | cons t ts =>
    obtain rfl := Except.error.inj h
    exact .token List.mem_cons_self rfl

theorem pointsInto_of_takeLiteral {ts : List Token} {m : Misread}
    (h : v.takeLiteral ts = .error m) : m.PointsInto v ts := by
  rcases bind_eq_error_iff.1 h with hread | ⟨⟨φ, rest⟩, hread, hliteral⟩
  · exact pointsInto_of_read hread
  · obtain ⟨us, rfl, hus⟩ := read_sound hread
    rcases bind_eq_error_iff.1 hliteral with hliteral | ⟨_, -, hend⟩
    · exact (pointsInto_words_of_literal hliteral).mono
        (List.subset_append_of_subset_left _ (words_subset_of_derives hus))
    · cases hend

theorem subset_of_takeLiteral {ts rest : List Token} {l : Literal}
    (h : v.takeLiteral ts = .ok (l, rest)) : rest ⊆ ts := by
  obtain ⟨us, _, rfl, -⟩ := takeLiteral_sound h
  exact List.subset_append_right _ _

theorem subset_of_moreLiterals {bound : Nat} : ∀ {ts rest : List Token} {ls : List Literal},
    v.moreLiterals bound ts = .ok (ls, rest) → rest ⊆ ts := by
  induction bound with
  | zero =>
    intro ts rest ls h
    obtain ⟨-, rfl⟩ := Prod.mk.inj (Except.ok.inj h)
    exact List.Subset.refl _
  | succ bound ih =>
    intro ts rest ls h
    cases ts with
    | nil =>
      obtain ⟨-, rfl⟩ := Prod.mk.inj (Except.ok.inj h)
      exact List.Subset.refl _
    | cons t ts =>
      rw [moreLiterals] at h
      split at h
      · obtain ⟨⟨l, behind⟩, htake, h⟩ := bind_eq_ok_iff.1 h
        obtain ⟨⟨ls', last⟩, hmore, h⟩ := bind_eq_ok_iff.1 h
        obtain ⟨-, rfl⟩ := Prod.mk.inj (Except.ok.inj h)
        exact List.subset_cons_of_subset t
          (List.Subset.trans (ih hmore) (subset_of_takeLiteral htake))
      · obtain ⟨-, rfl⟩ := Prod.mk.inj (Except.ok.inj h)
        exact List.Subset.refl _

theorem pointsInto_of_moreLiterals {bound : Nat} : ∀ {ts : List Token} {m : Misread},
    v.moreLiterals bound ts = .error m → m.PointsInto v ts := by
  induction bound with
  | zero =>
    intro ts m h
    cases h
  | succ bound ih =>
    intro ts m h
    cases ts with
    | nil => cases h
    | cons t ts =>
      rw [moreLiterals] at h
      split at h
      · rcases bind_eq_error_iff.1 h with h | ⟨⟨l, behind⟩, htake, h⟩
        · exact (pointsInto_of_takeLiteral h).mono (List.subset_cons_self _ _)
        · rcases bind_eq_error_iff.1 h with h | ⟨_, -, h⟩
          · exact (ih h).mono (List.subset_cons_of_subset t (subset_of_takeLiteral htake))
          · cases h
      · cases h

end Vocabulary

end MarkovLogic
