import MarkovLogic.Proofs.Reading.Literals
import MarkovLogic.Proofs.Reading.Numerals

/-!
# Reading undoes writing

The texts of conforming atoms, literals and clauses read back to them (`Vocabulary.read_text`),
whatever the names are. A clause text is cut in the right place because of one parenthesis: the
first word of a list of literals has one (`Clause.opens_charsOfLiterals`), so a hard clause that
starts with digits has no weight in front (`splitWeight?_eq_none`), and the numeral of a soft clause
ends at the first blank (`splitWeight?_append`).
-/

namespace MarkovLogic

/-! ## The ends of texts -/

namespace Text

theorem trimRight_append_singleton {c : Char} (h : isBlank c = false) (cs : List Char) :
    trimRight (cs ++ [c]) = cs ++ [c] := by
  rw [trimRight, List.reverse_append, List.reverse_singleton, List.singleton_append,
    List.dropWhile_cons_of_neg (by simp [h]), List.reverse_cons, List.reverse_reverse]

/-- The first word of the text goes on up to an opening parenthesis, and the text ends in a closing
one. -/
def Opens (cs : List Char) : Prop :=
  ∃ front behind, cs = front ++ '(' :: (behind ++ [')']) ∧ ∀ c ∈ front, isBlank c = false

namespace Opens

variable {cs : List Char}

theorem append (h : Opens cs) {ds : List Char} (hds : Opens ds) (between : List Char) :
    Opens (cs ++ (between ++ ds)) := by
  obtain ⟨front, behind, rfl, hfront⟩ := h
  obtain ⟨front', behind', rfl, -⟩ := hds
  exact ⟨front, behind ++ ')' :: (between ++ (front' ++ '(' :: behind')), by simp, hfront⟩

theorem trimRight_append (h : Opens cs) (ds : List Char) : trimRight (ds ++ cs) = ds ++ cs := by
  obtain ⟨front, behind, rfl, -⟩ := h
  rw [← List.cons_append, ← List.append_assoc, ← List.append_assoc]
  exact trimRight_append_singleton (by decide) _

theorem getLast? (h : Opens cs) : cs.getLast? = some ')' := by
  obtain ⟨front, behind, rfl, -⟩ := h
  rw [← List.cons_append, ← List.append_assoc]
  exact List.getLast?_concat

theorem isBlank_head (h : Opens cs) : ∀ c ∈ cs.head?, isBlank c = false := by
  obtain ⟨front, behind, rfl, hfront⟩ := h
  cases front with
  | nil =>
    intro c hc
    obtain rfl := Option.some.inj hc
    decide
  | cons d front =>
    intro c hc
    obtain rfl := Option.some.inj hc
    exact hfront _ List.mem_cons_self

/-- There is no blank at the start, also with more text behind. -/
theorem dropWhile_append (h : Opens cs) (ds : List Char) :
    (cs ++ ds).dropWhile isBlank = cs ++ ds := by
  obtain ⟨c, cs, rfl⟩ : ∃ c cs', cs = c :: cs' := by
    obtain ⟨front, behind, rfl, -⟩ := h
    cases front <;> simp
  exact List.dropWhile_cons_of_neg (by simp [h.isBlank_head c rfl])

/-- The first word has a parenthesis. -/
theorem mem_takeWhile_append (h : Opens cs) (ds : List Char) :
    '(' ∈ (cs ++ ds).takeWhile fun c => !isBlank c := by
  obtain ⟨front, behind, rfl, hfront⟩ := h
  rw [List.append_assoc, List.takeWhile_append_of_pos (by simpa using hfront), List.cons_append,
    List.takeWhile_cons_of_pos (by decide)]
  exact List.mem_append_right _ List.mem_cons_self

end Opens

end Text

theorem Literal.opens_chars (l : Literal) : Text.Opens l.chars := by
  have hname : ∀ c ∈ l.atom.predicate.chars, Text.isBlank c = false := by
    intro c hc
    exact Text.isBlank_of_isWord (l.atom.predicate.isWord_of_mem_chars hc)
  unfold chars Atom.chars
  split
  · exact ⟨l.atom.predicate.chars, Term.charsList l.atom.terms, by simp, hname⟩
  · refine ⟨'!' :: l.atom.predicate.chars, Term.charsList l.atom.terms, by simp, ?_⟩
    intro c hc
    rcases List.mem_cons.1 hc with rfl | hc
    · decide
    · exact hname c hc

/-- The first word of a list of literals has a parenthesis, and the list ends in one. -/
theorem Clause.opens_charsOfLiterals {α : Type} (c : Clause α) :
    Text.Opens (charsOfLiterals c.literals) := by
  obtain ⟨l, rest, hliterals⟩ := List.exists_cons_of_ne_nil c.nonempty
  rw [hliterals]
  clear hliterals
  induction rest generalizing l with
  | nil => exact l.opens_chars
  | cons m rest ih => exact l.opens_chars.append (ih m) [' ', 'v', ' ']

/-! ## The weight in front -/

/-- A list of literals has no weight in front, even if its first name is a number. -/
theorem splitWeight?_eq_none {cs : List Char} (h : Text.Opens cs) (ds : List Char) :
    splitWeight? (cs ++ ds) = none := by
  unfold splitWeight?
  simp only [h.dropWhile_append, Numeral.read?_eq_none_of_mem (h.mem_takeWhile_append ds)]
  split
  · rfl
  · rfl

/-- A word in front of a list of literals is cut off with the blank behind it if it is a numeral. -/
theorem splitWeight?_append {word cs : List Char} (hword : word ≠ [])
    (hblank : ∀ c ∈ word, Text.isBlank c = false) (h : Text.Opens cs) :
    splitWeight? (word ++ ' ' :: cs) = (Numeral.read? word).map fun n => (n, cs) := by
  have hfront : ∀ c ∈ ([] : List Char), Text.isBlank c = true := by simp
  have hgap : ∀ c ∈ [' '], Text.isBlank c = true := List.forall_mem_singleton.2 (by decide)
  have hstart : ∀ c ∈ (word ++ ([' '] ++ cs)).head?, Text.isBlank c = false := by
    obtain ⟨d, word, rfl⟩ := List.exists_cons_of_ne_nil hword
    intro c hc
    obtain rfl := Option.some.inj hc
    exact hblank _ List.mem_cons_self
  exact splitWeight?_of_parts hfront hblank hgap (by simp) hstart h.isBlank_head

/-! ## Texts -/

namespace Clause

theorem all_same_of_forall₂ {ls ms : List Literal}
    (h : List.Forall₂ (fun l m => l.same m = true) ls ms) :
    (ls.zip ms).all (fun (l, m) => l.same m) = true := by
  induction h with
  | nil => rfl
  | cons h _ ih =>
    rw [List.zip_cons_cons, List.all_cons, ih, Bool.and_true]
    exact h

/-- Clauses with equal literals, equal weights and the same label are equal. -/
theorem same_of_forall₂ {c d : Clause Number}
    (h : List.Forall₂ (fun l m => l.same m = true) c.literals d.literals)
    (hweight : (c.weight == d.weight) = true) (hlabel : c.label = d.label) : c.same d = true := by
  simp [same, h.length_eq, all_same_of_forall₂ h, hweight, hlabel]

end Clause

namespace Vocabulary

variable {v : Vocabulary}

theorem lexes_of_scans {cs : List Char} {ls : List Lexeme} (h : Token.Scans cs ls) :
    ∃ ts, Token.Lexes 0 cs ts ∧ ts.map Token.lexeme = ls := by
  obtain ⟨ts, hts, hl⟩ := h 0
  exact ⟨ts, Token.scan_eq_ok_iff.1 hts, hl⟩

/-- The text of a conforming atom reads back. -/
theorem readAtom_text {a : Atom} (hc : a.Conforms v) :
    ∃ a', v.readAtom a.text = .ok a' ∧ a'.same a = true := by
  have hscans := a.scans_chars Token.scans_nil
  rw [List.append_nil, List.append_nil] at hscans
  obtain ⟨ts, hts, hl⟩ := lexes_of_scans hscans
  obtain ⟨φ, hφ, hw⟩ := LiteralPhrase.derivesAtom_of_lexemes true hl
  have hliteral : Literal.Conforms v ⟨a, true⟩ := hc
  obtain ⟨l, hl, hsame⟩ := literal_of_writes hliteral hw
  rw [Literal.same, Bool.and_eq_true] at hsame
  refine ⟨l.atom, ?_, hsame.1⟩
  rw [readAtom, mapError_eq_ok_iff, atomOfChars_eq_ok_iff, Atom.text, String.toList_ofList]
  exact ⟨ts, φ, l, hts, hφ, hl, rfl⟩

/-- The text of a conforming literal reads back. -/
theorem readLiteral_text {l : Literal} (hc : l.Conforms v) :
    ∃ l', v.readLiteral l.text = .ok l' ∧ l'.same l = true := by
  have hscans := l.scans_chars Token.scans_nil
  rw [List.append_nil, List.append_nil] at hscans
  obtain ⟨ts, hts, hl⟩ := lexes_of_scans hscans
  obtain ⟨φ, hφ, hw⟩ := LiteralPhrase.derives_of_lexemes hl
  obtain ⟨l', hl', hsame⟩ := literal_of_writes hc hw
  refine ⟨l', ?_, hsame⟩
  rw [readLiteral, mapError_eq_ok_iff, literalOfChars_eq_ok_iff, Literal.text,
    String.toList_ofList]
  exact ⟨ts, φ, hts, hφ, hl'⟩

theorem literalsOfChars_charsOfLiterals {l : Literal} {rest : List Literal}
    (hc : ∀ m ∈ l :: rest, m.Conforms v) :
    ∃ literals, v.literalsOfChars (Clause.charsOfLiterals (l :: rest)) = .ok literals ∧
      List.Forall₂ (fun l m => l.same m = true) literals.1 (l :: rest) := by
  obtain ⟨ts, hts, hl⟩ := lexes_of_scans (Clause.scans_charsOfLiterals l rest)
  obtain ⟨rows, hrows, hw⟩ := LiteralPhrase.derivesAll_of_lexemes hl
  obtain ⟨literals, hliterals, hsames⟩ := literals_of_writes hc hw
  have hne : literals ≠ [] := by
    rintro rfl
    cases hsames
  exact ⟨⟨literals, hne⟩, literalsOfChars_eq_ok_iff.2 ⟨ts, rows, hts, hrows, hliterals⟩, hsames⟩

/-- The literals of a conforming clause read back with any weight and label put beside them. -/
theorem clauseOfBody_charsOfLiterals {c : Clause Number} (hc : c.Conforms v)
    (weight : Option Number) (hweight : (weight == c.weight) = true) :
    ∃ c', v.clauseOfBody (Clause.charsOfLiterals c.literals) weight c.label = .ok c' ∧
      c'.same c = true := by
  obtain ⟨l, rest, hliterals⟩ := List.exists_cons_of_ne_nil c.nonempty
  unfold Clause.Conforms at hc
  rw [hliterals] at hc ⊢
  obtain ⟨⟨literals, hne⟩, hread, hsames⟩ := literalsOfChars_charsOfLiterals hc
  refine ⟨⟨literals, weight, c.label, hne⟩, ?_, ?_⟩
  · rw [clauseOfBody, hread]
    rfl
  · exact Clause.same_of_forall₂ (by rw [hliterals]; exact hsames) hweight rfl

theorem readClause_text_of_hard {c : Clause Number} (hc : c.Conforms v) (h : c.weight = none) :
    ∃ c', v.readClause c.text c.label = .ok c' ∧ c'.same c = true := by
  have hopens := c.opens_charsOfLiterals
  obtain ⟨c', hread, hsame⟩ := clauseOfBody_charsOfLiterals hc none (by rw [h]; rfl)
  refine ⟨c', ?_, hsame⟩
  have hchars : c.chars = Clause.charsOfLiterals c.literals ++ ['.'] := by
    unfold Clause.chars
    rw [h]
  rw [readClause, Clause.text, String.toList_ofList, hchars,
    Text.trimRight_append_singleton (by decide)]
  simp only [splitWeight?_eq_none hopens, List.getLast?_concat, if_true, List.dropLast_concat]
  exact hread

/-- Reading the text of a soft clause cuts off the text of its weight, if that is a numeral. -/
theorem readClause_text_of_weight {c : Clause Number} {x : Float} (h : c.weight = some (.real x))
    (label : String) : v.readClause c.text label =
      match Numeral.read? (Number.realChars x) with
      | some n => v.clauseOfBody (Clause.charsOfLiterals c.literals) (some (.real n.toFloat)) label
      | none => .error ⟨.noWeight, none, c.text⟩ := by
  have hopens := c.opens_charsOfLiterals
  obtain ⟨hne, hblank⟩ := Numeral.isBlank_of_mem_realChars x
  have hchars : c.chars = Number.realChars x ++ ' ' :: Clause.charsOfLiterals c.literals := by
    unfold Clause.chars
    rw [h]
    rfl
  have htrim : Text.trimRight c.chars = c.chars := by
    rw [hchars, ← List.singleton_append, ← List.append_assoc]
    exact hopens.trimRight_append _
  have hlast : (Clause.charsOfLiterals c.literals).getLast? = some ')' := hopens.getLast?
  have hlast' : c.chars.getLast? = some ')' := by
    rw [hchars, List.getLast?_append, List.getLast?_cons, hlast]
    rfl
  rw [readClause, Clause.text, String.toList_ofList, htrim]
  simp only [hlast']
  rw [hchars, splitWeight?_append hne hblank hopens]
  cases Numeral.read? (Number.realChars x) with
  | none => rfl
  | some n =>
    simp only [Option.map_some, hlast]
    rfl

theorem readClause_text_of_soft {c : Clause Number} (hc : c.Conforms v) {x : Float}
    (h : c.weight = some (.real x)) (hfinite : (Binary.ofFloat? x).isSome = true)
    (hback : ∀ n, Numeral.read? (Number.realChars x) = some n → (n.toFloat == x) = true) :
    ∃ c', v.readClause c.text c.label = .ok c' ∧ c'.same c = true := by
  obtain ⟨n, hn⟩ := Numeral.exists_read?_realChars hfinite
  obtain ⟨c', hread, hsame⟩ := clauseOfBody_charsOfLiterals hc (some (.real n.toFloat))
    (by rw [h]; exact hback n hn)
  refine ⟨c', ?_, hsame⟩
  rw [readClause_text_of_weight h, hn]
  exact hread

/-- **Reading undoes writing.** The text of every conforming atom, literal and clause reads back to
it. About weights only this is assumed: a soft clause has a finite one, and the numeral of its text
has its value. -/
theorem read_text (v : Vocabulary) :
    (∀ a : Atom, a.Conforms v → ∃ a', v.readAtom a.text = .ok a' ∧ a'.same a = true) ∧
    (∀ l : Literal, l.Conforms v → ∃ l', v.readLiteral l.text = .ok l' ∧ l'.same l = true) ∧
    (∀ c : Clause Number, c.Conforms v →
      (c.weight = none ∨ ∃ x, c.weight = some (.real x) ∧ (Binary.ofFloat? x).isSome = true ∧
        ∀ n, Numeral.read? (Number.realChars x) = some n → (n.toFloat == x) = true) →
      ∃ c', v.readClause c.text c.label = .ok c' ∧ c'.same c = true) := by
  refine ⟨fun a => readAtom_text, fun l => readLiteral_text, ?_⟩
  intro c hc hweight
  rcases hweight with hhard | ⟨x, hsoft, hfinite, hback⟩
  · exact readClause_text_of_hard hc hhard
  · exact readClause_text_of_soft hc hsoft hfinite hback

/-! ## Confusing names -/

/-- A predicate and a function called like the separator, and a predicate that is a number. -/
def confusing : Vocabulary where
  predicates := .ofList [(⟨"v", 2⟩, [some "thing", none]), (⟨"10", 1⟩, [none])]
  functions := .ofList [(⟨"v", 1⟩, (some "thing", [none]))]

/-- A number as a name. -/
def ten : Identifier :=
  ⟨"10", by decide⟩

/-- The number as a constant. -/
def tenConstant : Term :=
  .const ⟨ten, some "thing", by decide⟩

/-- The atom `v(v(10),v)`. -/
def confusingAtom : Atom :=
  ⟨separator, [.app separator [tenConstant] (some "thing"), .var ⟨separator, none, by decide⟩]⟩

/-- The clause `10(10) v !v(v(10),v).` -/
def confusingClause : Clause Number :=
  ⟨[⟨⟨ten, [tenConstant]⟩, true⟩, ⟨confusingAtom, false⟩], none, "confusing", by simp⟩

/-- The clause `0.5 10(10) v !v(v(10),v)`, in which the numeral of the weight stands before a name
that is a numeral. -/
def confusingRule : Clause Number :=
  { confusingClause with weight := some (.real (Numeral.toFloat ⟨false, 5, -1⟩)) }

theorem confusingAtom_conforms : confusingAtom.Conforms confusing :=
  ⟨[some "thing", none], by decide, ⟨[none], by decide, .inr rfl, trivial, trivial⟩, rfl, trivial⟩

theorem confusingClause_conforms : confusingClause.Conforms confusing := by
  intro l hl
  rcases List.mem_cons.1 hl with rfl | hl
  · exact ⟨[none], by decide, trivial, trivial⟩
  · obtain rfl := List.mem_singleton.1 hl
    exact confusingAtom_conforms

theorem read_text_confusing :
    confusingClause.text = "10(10) v !v(v(10),v)." ∧ confusingAtom.Conforms confusing ∧
      confusingClause.Conforms confusing ∧ confusingClause.weight = none ∧
      (∃ a', confusing.readAtom confusingAtom.text = .ok a' ∧ a'.same confusingAtom = true) ∧
      (∃ l', confusing.readLiteral (Literal.text ⟨confusingAtom, false⟩) = .ok l' ∧
        l'.same ⟨confusingAtom, false⟩ = true) ∧
      (∃ c', confusing.readClause confusingClause.text confusingClause.label = .ok c' ∧
        c'.same confusingClause = true) ∧
      confusingRule.text = "0.5 10(10) v !v(v(10),v)" ∧ confusingRule.Conforms confusing ∧
      (∃ x, confusingRule.weight = some (.real x) ∧ (Binary.ofFloat? x).isSome = true ∧
        ∀ n, Numeral.read? (Number.realChars x) = some n → (n.toFloat == x) = true) ∧
      ∃ c', confusing.readClause confusingRule.text confusingRule.label = .ok c' ∧
        c'.same confusingRule = true := by
  have hatom := confusingAtom_conforms
  have hclause := confusingClause_conforms
  have hrule : confusingRule.Conforms confusing := hclause
  have hnumeral : Numeral.read? (Number.realChars (Numeral.toFloat ⟨false, 5, -1⟩)) =
      some ⟨false, 5, -1⟩ := by decide +kernel
  have hsoft : ∃ x, confusingRule.weight = some (.real x) ∧ (Binary.ofFloat? x).isSome = true ∧
      ∀ n, Numeral.read? (Number.realChars x) = some n → (n.toFloat == x) = true := by
    refine ⟨_, rfl, by decide +kernel, fun n hn => ?_⟩
    obtain rfl := Option.some.inj (hnumeral.symm.trans hn)
    decide +kernel
  exact ⟨by decide, hatom, hclause, rfl, (read_text confusing).1 _ hatom,
    (read_text confusing).2.1 ⟨confusingAtom, false⟩ hatom,
    (read_text confusing).2.2 _ hclause (.inl rfl), by decide +kernel, hrule, hsoft,
    (read_text confusing).2.2 _ hrule (.inr hsoft)⟩

end Vocabulary

end MarkovLogic
