import MarkovLogic.Proofs.Reading.Clauses
import MarkovLogic.Proofs.Reading.Construction
import MarkovLogic.Proofs.Reading.Faults
import MarkovLogic.Proofs.Reading.Positions

/-!
# Where errors are located

A text that is not read ends in an error that shows the text, or for a clause what is left of it
when the weight or the final point is cut off. If the error has a position, then the first illegible
character stands there, or a token at fault (`Vocabulary.Located`). There are no other failures
(`Vocabulary.reads_or_locates`).
-/

namespace MarkovLogic

namespace Vocabulary

open LiteralPhrase
open Text (FirstIllegible)

variable {v : Vocabulary}

/-! ## Readers of characters -/

/-- The characters cannot be tokenised, or their tokens end too early or are at fault. -/
inductive Locates (v : Vocabulary) (cs : List Char) : Misread → Prop where
  | illegible {i : Nat} (h : FirstIllegible cs i) : Locates v cs ⟨.unexpectedCharacter, some i⟩
  | token {ts : List Token} {m : Misread} (hts : tokens cs = .ok ts) (h : m.PointsInto v ts) :
    Locates v cs m

theorem locates_of_tokens {cs : List Char} {m : Misread} (h : tokens cs = .error m) :
    v.Locates cs m := by
  obtain ⟨i, rfl, hi⟩ := firstIllegible_of_tokens h
  exact .illegible hi

theorem locates_of_atomOfChars {cs : List Char} {m : Misread} (h : v.atomOfChars cs = .error m) :
    v.Locates cs m := by
  rcases bind_eq_error_iff.1 h with htokens | ⟨ts, hts, hrest⟩
  · exact locates_of_tokens htokens
  · refine .token hts ?_
    rcases bind_eq_error_iff.1 hrest with hread | ⟨⟨φ, rest⟩, hread, hrest⟩
    · exact pointsInto_of_readAtom hread
    · obtain ⟨us, hus, hd⟩ := readAtom_sound hread
      simp only [hus]
      rcases bind_eq_error_iff.1 hrest with hliteral | ⟨l, -, hrest⟩
      · exact (pointsInto_words_of_literal hliteral).mono
          (List.subset_append_of_subset_left _ (words_subset_of_derivesAtom hd))
      · rcases bind_eq_error_iff.1 hrest with hfinish | ⟨_, -, hend⟩
        · exact (pointsInto_of_finish hfinish).mono (List.subset_append_right _ _)
        · cases hend

theorem locates_of_literalOfChars {cs : List Char} {m : Misread}
    (h : v.literalOfChars cs = .error m) : v.Locates cs m := by
  rcases bind_eq_error_iff.1 h with htokens | ⟨ts, hts, hrest⟩
  · exact locates_of_tokens htokens
  · refine .token hts ?_
    rcases bind_eq_error_iff.1 hrest with htake | ⟨⟨l, rest⟩, htake, hrest⟩
    · exact pointsInto_of_takeLiteral htake
    · rcases bind_eq_error_iff.1 hrest with hfinish | ⟨_, -, hend⟩
      · exact (pointsInto_of_finish hfinish).mono (subset_of_takeLiteral htake)
      · cases hend

theorem locates_of_literalsOfChars {cs : List Char} {m : Misread}
    (h : v.literalsOfChars cs = .error m) : v.Locates cs m := by
  rcases bind_eq_error_iff.1 h with htokens | ⟨ts, hts, hrest⟩
  · exact locates_of_tokens htokens
  · refine .token hts ?_
    rcases bind_eq_error_iff.1 hrest with htake | ⟨⟨l, rest⟩, htake, hrest⟩
    · exact pointsInto_of_takeLiteral htake
    · have hsub := subset_of_takeLiteral htake
      rcases bind_eq_error_iff.1 hrest with hmore | ⟨⟨ls, last⟩, hmore, hrest⟩
      · exact (pointsInto_of_moreLiterals hmore).mono hsub
      · rcases bind_eq_error_iff.1 hrest with hfinish | ⟨_, -, hend⟩
        · exact (pointsInto_of_finish hfinish).mono
            (List.Subset.trans (subset_of_moreLiterals hmore) hsub)
        · cases hend

/-! ## Errors in a text -/

theorem exists_getElem?_of_standsIn {cs : List Char} {t : Token} (h : t.StandsIn cs) :
    ∃ c, cs[t.position]? = some c ∧ Text.isBlank c = false := by
  cases h with
  | @word front back w hsplit _ _ _ =>
    obtain ⟨c, run, hw, hc, -⟩ := w.exists_cons
    exact ⟨c, by simp [hsplit, hw], Text.isBlank_of_isWord hc⟩
  | @mark front back k hsplit => exact ⟨k.char, by simp [hsplit], k.isBlank_char⟩

theorem exists_getElem?_of_firstIllegible {cs : List Char} {i : Nat} (h : FirstIllegible cs i) :
    ∃ c, cs[i]? = some c ∧ Text.isBlank c = false := by
  obtain ⟨front, c, back, rfl, rfl, -, hc⟩ := h
  refine ⟨c, by simp, ?_⟩
  cases hb : Text.isBlank c with
  | false => rfl
  | true => exact absurd (.inl hb) hc

/-- Where an error is located in the text that it shows. -/
structure Located (v : Vocabulary) (e : ReadError) : Prop where
  /-- A position is that of a character of the text which is not blank: -/
  inText : ∀ p, e.position = some p →
    ∃ c, e.text.toList[p]? = some c ∧ Text.isBlank c = false
  /-- the first illegible one, or the first of a token that the fault is about. -/
  offends : ∀ p, e.position = some p →
    (e.fault = .unexpectedCharacter ∧ FirstIllegible e.text.toList p) ∨
      ∃ ts t, tokens e.text.toList = .ok ts ∧ t ∈ ts ∧ t.position = p ∧ e.fault.Blames v t
  /-- Without a position, the text ends too early or is no clause as a whole. -/
  nowhere : e.position = none →
    e.fault = .unexpectedEnd ∨ e.fault = .weightedAndHard ∨ e.fault = .noWeight

theorem located_of_locates {text : String} {m : Misread} (h : v.Locates text.toList m) :
    v.Located (m.inText text) := by
  cases h with
  | illegible h =>
    refine ⟨?_, ?_, nofun⟩
    · rintro p ⟨⟩
      exact exists_getElem?_of_firstIllegible h
    · rintro p ⟨⟩
      exact .inl ⟨rfl, h⟩
  | token hts h =>
    cases h with
    | atEnd => exact ⟨nofun, nofun, fun _ => .inl rfl⟩
    | @token t fault ht hblames =>
      refine ⟨?_, ?_, nofun⟩
      · rintro p ⟨⟩
        exact exists_getElem?_of_standsIn ((takesApart_of_tokens hts).stands t ht)
      · rintro p ⟨⟩
        exact .inr ⟨_, t, hts, ht, rfl, hblames⟩

theorem located_of_wholeText {fault : ReadFault} {text : String}
    (h : fault = .weightedAndHard ∨ fault = .noWeight) : v.Located ⟨fault, none, text⟩ :=
  ⟨nofun, nofun, fun _ => .inr h⟩

theorem located_of_mapError {α : Type} {x : Except Misread α} {text : String} {e : ReadError}
    (hx : ∀ m, x = .error m → v.Locates text.toList m)
    (h : x.mapError (·.inText text) = .error e) : e.text = text ∧ v.Located e := by
  cases x with
  | ok a => cases h
  | error m =>
    obtain rfl := Except.error.inj h
    exact ⟨rfl, located_of_locates (hx m rfl)⟩

/-! ## Clauses -/

/-- What is left of the text of a clause: the blanks at the end are cut off, and either the weight
in front with the blanks around it or the final point. -/
inductive ClauseBody (text : List Char) : List Char → Prop where
  | soft {trimmed back body : List Char} {n : Numeral} (hsplit : text = trimmed ++ back)
    (hback : ∀ c ∈ back, Text.isBlank c = true) (hweighted : Weighted trimmed n body) :
    ClauseBody text body
  | hard {back body : List Char} (hsplit : text = body ++ '.' :: back)
    (hback : ∀ c ∈ back, Text.isBlank c = true) : ClauseBody text body

theorem exists_trimRight (cs : List Char) :
    ∃ back, cs = Text.trimRight cs ++ back ∧ ∀ c ∈ back, Text.isBlank c = true := by
  refine ⟨(cs.reverse.takeWhile Text.isBlank).reverse, ?_, fun c hc => ?_⟩
  · rw [Text.trimRight, ← List.reverse_append, List.takeWhile_append_dropWhile,
      List.reverse_reverse]
  · exact List.all_eq_true.1 List.all_takeWhile c (List.mem_reverse.1 hc)

theorem located_of_clauseOfBody {body : List Char} {weight : Option Number} {label : String}
    {e : ReadError} (h : v.clauseOfBody body weight label = .error e) :
    e.text.toList = body ∧ v.Located e := by
  rcases bind_eq_error_iff.1 h with hread | ⟨ls, -, hend⟩
  · obtain ⟨htext, he⟩ := located_of_mapError (fun m hm => by
      rw [String.toList_ofList]
      exact locates_of_literalsOfChars hm) hread
    exact ⟨by rw [htext, String.toList_ofList], he⟩
  · cases hend

/-- The error is about the clause as a whole and shows its text, or it shows what is left of it. -/
def ShowsClause (text : String) (e : ReadError) : Prop :=
  (e.text = text ∧ e.position = none ∧ (e.fault = .weightedAndHard ∨ e.fault = .noWeight)) ∨
    ClauseBody text.toList e.text.toList

theorem located_of_readClause {text label : String} {e : ReadError}
    (h : v.readClause text label = .error e) : v.Located e ∧ ShowsClause text e := by
  obtain ⟨back, htrim, hback⟩ := exists_trimRight text.toList
  rw [readClause] at h
  split at h
  · next n rest hsplit =>
    split at h
    · obtain rfl := Except.error.inj h
      exact ⟨located_of_wholeText (.inl rfl), .inl ⟨rfl, rfl, .inl rfl⟩⟩
    · obtain ⟨htext, he⟩ := located_of_clauseOfBody h
      rw [ShowsClause, htext]
      exact ⟨he, .inr (.soft htrim hback (splitWeight?_eq_some_iff.1 hsplit))⟩
  · split at h
    · next hlast =>
      obtain ⟨body, hbody⟩ := List.getLast?_eq_some_iff.1 hlast
      rw [hbody, List.dropLast_concat] at h
      obtain ⟨htext, he⟩ := located_of_clauseOfBody h
      rw [ShowsClause, htext]
      have hends : text.toList = body ++ '.' :: back := by
        rw [htrim, hbody, List.append_assoc, List.singleton_append]
      exact ⟨he, .inr (.hard hends hback)⟩
    · obtain rfl := Except.error.inj h
      exact ⟨located_of_wholeText (.inr rfl), .inl ⟨rfl, rfl, .inr rfl⟩⟩

/-! ## Texts that are read -/

/-- What the readers of a vocabulary do with a text: they return, or fail with a located error. -/
structure Reads (v : Vocabulary) (text label : String) : Prop where
  atom : (∃ a, v.readAtom text = .ok a) ∨
    ∃ e, v.readAtom text = .error e ∧ e.text = text ∧ v.Located e
  literal : (∃ l, v.readLiteral text = .ok l) ∨
    ∃ e, v.readLiteral text = .error e ∧ e.text = text ∧ v.Located e
  clause : (∃ c, v.readClause text label = .ok c) ∨
    ∃ e, v.readClause text label = .error e ∧ v.Located e ∧ ShowsClause text e ∧
      e.text.toList <:+: text.toList
  /-- The constructors refuse no phrase, read from this or any text, -/
  literal_constructed : ∀ φ, v.construct φ = (v.literal φ).mapError .misread
  /-- and no clause. -/
  clause_constructed : ∀ c, v.readClause text label = .ok c →
    Clause.ofGiven (c.literals.map .proper) c.weight c.label = .ok c

/-- **Failures of reading are located errors.** Every text is read or ends in an error, whatever the
declarations are. The error shows the text, or what is left of the text of a clause, and a position
is that of the first illegible character or of a token at fault. -/
theorem reads_or_locates (v : Vocabulary) (text label : String) : v.Reads text label where
  atom := by
    cases hread : v.readAtom text with
    | ok a => exact .inl ⟨a, rfl⟩
    | error e =>
      exact .inr ⟨e, rfl, located_of_mapError (fun m hm => locates_of_atomOfChars hm) hread⟩
  literal := by
    cases hread : v.readLiteral text with
    | ok l => exact .inl ⟨l, rfl⟩
    | error e =>
      exact .inr ⟨e, rfl, located_of_mapError (fun m hm => locates_of_literalOfChars hm) hread⟩
  clause := by
    cases hread : v.readClause text label with
    | ok c => exact .inl ⟨c, rfl⟩
    | error e =>
      obtain ⟨he, hshows⟩ := located_of_readClause hread
      exact .inr ⟨e, rfl, he, hshows, infix_of_readClause_error hread⟩
  literal_constructed := v.construct_eq
  clause_constructed c _ := c.ofGiven_literals

end Vocabulary

end MarkovLogic
