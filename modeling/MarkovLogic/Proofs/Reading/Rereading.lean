import MarkovLogic.Proofs.Reading.Clauses

/-!
# Reading what was read

What is read conforms to the declarations (`Vocabulary.conforms_of_readClause`), whatever the text
looked like. So the text of a clause that was read gives the clause again, with one exception: a
numeral above the range of floating-point values is read as infinity, which is written as a word,
and no clause starts with that word (`Vocabulary.reread_of_readClause`).
-/

namespace MarkovLogic

/-! ## Denoted terms conform -/

namespace Phrase

variable {functions : FunctionSchema}

theorem length_of_denotesList {places : List (Option String)} {args : List Phrase}
    {terms : List Term} (h : DenotesList functions places args terms) :
    terms.length = args.length := by
  induction args generalizing places terms with
  | nil =>
    cases h
    rfl
  | cons φ args ih =>
    cases h with
    | cons _ hs => rw [List.length_cons, ih hs, List.length_cons]

theorem conformsList_of_denotesList {args : List Phrase}
    (h : ∀ φ ∈ args, ∀ d t, Denotes functions d φ t → t.Conforms functions d) :
    ∀ {places : List (Option String)} {terms : List Term},
      DenotesList functions places args terms → Term.ConformsList functions places terms := by
  induction args with
  | nil =>
    intro places terms hd
    cases hd
    trivial
  | cons φ args ih =>
    intro places terms hd
    obtain ⟨hφ, hargs⟩ := List.forall_mem_cons.1 h
    cases hd with
    | cons ht hts => exact ⟨hφ _ _ ht, ih hargs hts⟩

/-- **What a phrase denotes in a place conforms in that place.** -/
theorem conforms_of_denotes (φ : Phrase) :
    ∀ d t, Denotes functions d φ t → t.Conforms functions d := by
  induction φ using Phrase.induction with
  | name w p =>
    intro d t h
    cases h with
    | var => rfl
    | const => trivial
  | call w p args ih =>
    intro d t h
    cases h with
    | call _ _ hget hd hs =>
      refine ⟨_, ?_, hd, conformsList_of_denotesList ih hs⟩
      rw [length_of_denotesList hs]
      exact hget

end Phrase

namespace Clause

/-- The weight is finite if there is one. -/
def FiniteWeight (c : Clause Number) : Prop :=
  ∀ x, c.weight = some (.real x) → (Binary.ofFloat? x).isSome = true

/-- The numeral that writes a finite weight has the value of this weight. -/
def WrittenExactly (c : Clause Number) : Prop :=
  ∀ x, c.weight = some (.real x) → (Binary.ofFloat? x).isSome = true →
    ∀ n, Numeral.read? (Number.realChars x) = some n → (n.toFloat == x) = true

end Clause

namespace Vocabulary

variable {v : Vocabulary}

theorem Denotes.conforms {φ : LiteralPhrase} {l : Literal} (h : v.Denotes φ l) : l.Conforms v := by
  obtain ⟨places, hget, hterms⟩ := h.terms
  refine ⟨places, ?_, Phrase.conformsList_of_denotesList
    (fun ψ _ => Phrase.conforms_of_denotes ψ) hterms⟩
  rw [Atom.signature, Atom.arity, h.predicate, Phrase.length_of_denotesList hterms]
  exact hget

theorem conforms_of_writesAll {cs : List Char} {ls : List Literal} (h : v.WritesAll cs ls) :
    ∀ l ∈ ls, l.Conforms v := by
  obtain ⟨ts, rows, -, -, hdenotes⟩ := h
  intro l hl
  obtain ⟨row, -, hrow⟩ := exists_of_forall₂_right hdenotes hl
  exact hrow.conforms

/-! ## Clauses that were read -/

section Read

variable (hv : v.Regular)

include hv

/-- **A clause that was read conforms**, and it has the given label and the value of a numeral as
its weight, or none. -/
theorem conforms_of_readClause {text label : String} {c : Clause Number}
    (h : v.readClause text label = .ok c) :
    c.Conforms v ∧ c.label = label ∧
      (c.weight = none ∨ ∃ n : Numeral, c.weight = some (.real n.toFloat)) := by
  cases (readClause_eq_ok_iff hv).1 h with
  | soft _ _ hliterals hweight hlabel =>
    exact ⟨conforms_of_writesAll hliterals, hlabel, .inr ⟨_, hweight⟩⟩
  | hard _ _ hliterals hweight hlabel =>
    exact ⟨conforms_of_writesAll hliterals, hlabel, .inl hweight⟩

/-- **A clause that was read is read again from its text exactly when its weight is finite.** About
numerals only this is assumed: the one that writes a finite weight has the value of this weight. -/
theorem reread_of_readClause {text label : String} {c : Clause Number}
    (h : v.readClause text label = .ok c) (hwritten : c.WrittenExactly) :
    (c.FiniteWeight → ∃ c', v.readClause c.text label = .ok c' ∧ c'.same c = true) ∧
    (¬ c.FiniteWeight → v.readClause c.text label = .error ⟨.noWeight, none, c.text⟩) := by
  obtain ⟨hc, rfl, hweight⟩ := conforms_of_readClause hv h
  rcases hweight with hhard | ⟨n, hsoft⟩
  · refine ⟨fun _ => readClause_text_of_hard hc hhard, fun hnot => ?_⟩
    refine absurd (fun x hx => ?_) hnot
    rw [hhard] at hx
    cases hx
  · refine ⟨fun hfinite => ?_, fun hnot => ?_⟩
    · have hf := hfinite _ hsoft
      exact readClause_text_of_soft hc hsoft hf (hwritten _ hsoft hf)
    · have hnone : Binary.ofFloat? n.toFloat = none := by
        refine Option.not_isSome_iff_eq_none.1 fun hsome => hnot fun x hx => ?_
        obtain rfl : n.toFloat = x := by simpa [hsoft] using hx
        exact hsome
      rw [readClause_text_of_weight hsoft, Numeral.read?_realChars_eq_none hnone]

end Read

/-- The clause `0.5 !Happens(walking(ID0),t)`. -/
def seldomWalks : Clause Number :=
  ⟨[neverWalks], some (.real (Numeral.toFloat ⟨false, 5, -1⟩)), "rest", by simp⟩

/-- A numeral in another form and more blanks are read, and so is the text of the result. -/
theorem reread_seldomWalks :
    walks.Regular ∧
      walks.readClause " +.5e0  !Happens( walking(ID0) ,t)" "rest" = .ok seldomWalks ∧
      seldomWalks.WrittenExactly ∧ seldomWalks.text = "0.5 !Happens(walking(ID0),t)" ∧
      ∃ c', walks.readClause seldomWalks.text "rest" = .ok c' ∧ c'.same seldomWalks = true := by
  have hsplit : splitWeight? (Text.trimRight " +.5e0  !Happens( walking(ID0) ,t)".toList) =
      some (⟨false, 5, -1⟩, "!Happens( walking(ID0) ,t)".toList) := by cbv
  have hbody : ∀ w, walks.clauseOfBody "!Happens( walking(ID0) ,t)".toList w "rest" =
      .ok ⟨[neverWalks], w, "rest", by simp⟩ := by
    intro w
    cbv
  have hread : walks.readClause " +.5e0  !Happens( walking(ID0) ,t)" "rest" = .ok seldomWalks := by
    rw [readClause]
    simp only [hsplit]
    exact hbody _
  have hnumeral : Numeral.read? (Number.realChars (Numeral.toFloat ⟨false, 5, -1⟩)) =
      some ⟨false, 5, -1⟩ := by decide +kernel
  have hwritten : seldomWalks.WrittenExactly := by
    intro x hx _ n hn
    obtain rfl := Number.real.inj (Option.some.inj hx)
    obtain rfl := Option.some.inj (hnumeral.symm.trans hn)
    decide +kernel
  have hfinite : seldomWalks.FiniteWeight := by
    intro x hx
    obtain rfl := Number.real.inj (Option.some.inj hx)
    decide +kernel
  exact ⟨regular_walks, hread, hwritten, by decide +kernel,
    (reread_of_readClause regular_walks hread hwritten).1 hfinite⟩

/-! ## A weight above all floating-point values -/

/-- One predicate over one domain. -/
def onePlace : Vocabulary where
  predicates := .ofList [(⟨"P", 1⟩, [some "d"])]
  functions := .empty

/-- The literal `P(x)`. -/
def placeLiteral : Literal :=
  ⟨⟨⟨"P", by decide⟩, [.var ⟨⟨"x", Eq.refl true⟩, some "d", Eq.refl true⟩]⟩, true⟩

/-- The clause `inf P(x)`. -/
def endless : Clause Number :=
  ⟨[placeLiteral], some (.real (Numeral.toFloat ⟨false, 1, 999⟩)), "", by simp⟩

/-- **A numeral above the floating-point values is read, but the text of the result is not.** -/
theorem not_reread_endless :
    onePlace.Regular ∧ onePlace.readClause "1e999 P(x)" "" = .ok endless ∧
      endless.WrittenExactly ∧ endless.text = "inf P(x)" ∧
      onePlace.readClause endless.text "" = .error ⟨.noWeight, none, "inf P(x)"⟩ := by
  have hsplit : splitWeight? (Text.trimRight "1e999 P(x)".toList) =
      some (⟨false, 1, 999⟩, "P(x)".toList) := by cbv
  have hbody : ∀ w, onePlace.clauseOfBody "P(x)".toList w "" =
      .ok ⟨[placeLiteral], w, "", by simp⟩ := by
    intro w
    cbv
  have hread : onePlace.readClause "1e999 P(x)" "" = .ok endless := by
    rw [readClause]
    simp only [hsplit]
    exact hbody _
  have hinfinite : Binary.ofFloat? (Numeral.toFloat ⟨false, 1, 999⟩) = none := by decide +kernel
  have hwritten : endless.WrittenExactly := by
    intro x hx hfinite
    obtain rfl := Number.real.inj (Option.some.inj hx)
    rw [hinfinite] at hfinite
    cases hfinite
  have htext : endless.text = "inf P(x)" := by decide +kernel
  refine ⟨⟨by decide, by decide⟩, hread, hwritten, htext, ?_⟩
  rw [readClause_text_of_weight rfl, Numeral.read?_realChars_eq_none hinfinite, htext]

end Vocabulary

end MarkovLogic
