import MarkovLogic.Proofs.Reading.Acceptance
import MarkovLogic.Proofs.Reading.RoundTrip

/-!
# The texts of clauses

Without the blanks at its end, the text of a clause is

    Clause   = Weight Literals | Literals '.'
    Literals = Literal {'v' Literal}

where a text with a weight in front (`Weighted`) is never of the second form. The weight is cut off
before the tokens are, so it is the numeral and not a name that decides (`Weighted.unique`), and
what is left is split into literals in one way (`LiteralPhrase.derivesAll_unique`). Reading a clause
follows this grammar (`Vocabulary.readClause_exactly`).
-/

namespace MarkovLogic

namespace Vocabulary

open LiteralPhrase

/-- What the phrases of the rows denote, literal by literal. -/
def DenotesAll (v : Vocabulary) : List (List Token × LiteralPhrase) → List Literal → Prop :=
  List.Forall₂ fun row l => v.Denotes row.2 l

/-- The characters are derived from the grammar of literals with the separator between them, and
the derivation denotes the literals. -/
def WritesAll (v : Vocabulary) (cs : List Char) (ls : List Literal) : Prop :=
  ∃ ts rows, Token.Lexes 0 cs ts ∧ DerivesAll ts rows ∧ v.DenotesAll rows ls

variable {v : Vocabulary}

/-! ## Rows of literals -/

/-- **A row of literals is read exactly if it is written**, in order. -/
theorem literalsOfChars_eq_ok_iff_writesAll (hv : v.Regular) {cs : List Char}
    {ls : { literals : List Literal // literals ≠ [] }} :
    v.literalsOfChars cs = .ok ls ↔ v.WritesAll cs ls.1 := by
  rw [literalsOfChars_eq_ok_iff]
  simp only [LiteralsOf, literal_eq_ok_iff hv]
  rfl

theorem clauseOfBody_eq_ok_iff (hv : v.Regular) {body : List Char} {weight : Option Number}
    {label : String} {c : Clause Number} : v.clauseOfBody body weight label = .ok c ↔
      v.WritesAll body c.literals ∧ c.weight = weight ∧ c.label = label := by
  constructor
  · intro h
    obtain ⟨ls, hls, h⟩ := bind_eq_ok_iff.1 h
    rw [mapError_eq_ok_iff] at hls
    obtain rfl := Except.ok.inj h
    exact ⟨(literalsOfChars_eq_ok_iff_writesAll hv).1 hls, rfl, rfl⟩
  · rintro ⟨hwrites, rfl, rfl⟩
    obtain ⟨ls, weight, label, hne⟩ := c
    have hls : v.literalsOfChars body = .ok ⟨ls, hne⟩ :=
      (literalsOfChars_eq_ok_iff_writesAll hv).2 hwrites
    exact bind_eq_ok_iff.2 ⟨_, mapError_eq_ok_iff.2 hls, rfl⟩

/-! ## Whole clauses -/

/-- `Clause = Weight Literals | Literals '.'`, read in this order: the clauses that the characters
write with the given label. -/
inductive WritesClause (v : Vocabulary) (label : String) (cs : List Char) (c : Clause Number) :
    Prop where
  | soft {n : Numeral} {rest : List Char} (hweighted : Weighted cs n rest)
    (hlast : rest.getLast? ≠ some '.') (hliterals : v.WritesAll rest c.literals)
    (hweight : c.weight = some (.real n.toFloat)) (hlabel : c.label = label)
  | hard {body : List Char} (hweighted : ∀ n rest, ¬ Weighted cs n rest)
    (hlast : cs = body ++ ['.']) (hliterals : v.WritesAll body c.literals)
    (hweight : c.weight = none) (hlabel : c.label = label)

theorem readClause_eq_ok_iff (hv : v.Regular) {text label : String} {c : Clause Number} :
    v.readClause text label = .ok c ↔ v.WritesClause label (Text.trimRight text.toList) c := by
  rw [readClause]
  cases hsplit : splitWeight? (Text.trimRight text.toList) with
  | some row =>
    obtain ⟨n, rest⟩ := row
    have hweighted := splitWeight?_eq_some_iff.1 hsplit
    simp only
    constructor
    · intro h
      split at h
      · cases h
      · next hlast =>
        obtain ⟨hliterals, hweight, hlabel⟩ := (clauseOfBody_eq_ok_iff hv).1 h
        exact .soft hweighted hlast hliterals hweight hlabel
    · intro h
      cases h with
      | hard hnot _ _ _ _ => exact absurd hweighted (hnot n rest)
      | soft hweighted' hlast hliterals hweight hlabel =>
        obtain ⟨rfl, rfl⟩ := hweighted.unique hweighted'
        rw [if_neg hlast]
        exact (clauseOfBody_eq_ok_iff hv).2 ⟨hliterals, hweight, hlabel⟩
  | none =>
    have hnot : ∀ n rest, ¬ Weighted (Text.trimRight text.toList) n rest := by
      intro n rest hweighted
      rw [splitWeight?_eq_some_iff.2 hweighted] at hsplit
      cases hsplit
    simp only
    constructor
    · intro h
      split at h
      · next hlast =>
        obtain ⟨body, hbody⟩ := List.getLast?_eq_some_iff.1 hlast
        rw [hbody, List.dropLast_concat] at h
        obtain ⟨hliterals, hweight, hlabel⟩ := (clauseOfBody_eq_ok_iff hv).1 h
        exact .hard hnot hbody hliterals hweight hlabel
      · cases h
    · intro h
      cases h with
      | soft hweighted _ _ _ _ => exact absurd hweighted (hnot _ _)
      | hard _ hlast hliterals hweight hlabel =>
        rw [hlast, if_pos List.getLast?_concat, List.dropLast_concat]
        exact (clauseOfBody_eq_ok_iff hv).2 ⟨hliterals, hweight, hlabel⟩

/-! ## Errors -/

theorem isPrefix_trimRight (cs : List Char) : Text.trimRight cs <+: cs := by
  have h := List.reverse_prefix.2 (List.dropWhile_suffix (l := cs.reverse) Text.isBlank)
  rwa [List.reverse_reverse] at h

theorem text_of_clauseOfBody_error {body : List Char} {weight : Option Number} {label : String}
    {e : ReadError} (h : v.clauseOfBody body weight label = .error e) : e.text.toList = body := by
  rcases bind_eq_error_iff.1 h with h | ⟨ls, -, h⟩
  · cases hread : v.literalsOfChars body with
    | ok ls =>
      rw [hread] at h
      cases h
    | error m =>
      rw [hread] at h
      obtain rfl := Except.error.inj h
      exact String.toList_ofList
  · cases h

/-- An error shows the text or the part of it that holds the literals. -/
theorem infix_of_readClause_error {text label : String} {e : ReadError}
    (h : v.readClause text label = .error e) : e.text.toList <:+: text.toList := by
  have htrim := (isPrefix_trimRight text.toList).isInfix
  rw [readClause] at h
  split at h
  · next n rest hsplit =>
    split at h
    · obtain rfl := Except.error.inj h
      exact List.infix_rfl
    · rw [text_of_clauseOfBody_error h]
      exact (splitWeight?_eq_some_iff.1 hsplit).suffix.isInfix.trans htrim
  · split at h
    · rw [text_of_clauseOfBody_error h]
      exact (List.dropLast_prefix _).isInfix.trans htrim
    · obtain rfl := Except.error.inj h
      exact List.infix_rfl

/-- The reader of clauses follows the grammar on the text. -/
structure ReadsClause (v : Vocabulary) (text label : String) : Prop where
  /-- Exactly the clauses that the text writes with the label are read. -/
  returns : ∀ c, v.readClause text label = .ok c ↔
    v.WritesClause label (Text.trimRight text.toList) c
  /-- A text that writes none is an error, which shows the text or a part of it. -/
  refuses : (∀ c, ¬ v.WritesClause label (Text.trimRight text.toList) c) →
    ∃ e, v.readClause text label = .error e ∧ e.text.toList <:+: text.toList
  /-- There is at most one weight to cut off. -/
  weighted_once : ∀ n rest m rest', Weighted (Text.trimRight text.toList) n rest →
    Weighted (Text.trimRight text.toList) m rest' → n = m ∧ rest = rest'
  /-- What is left has at most one split into literals. -/
  split_once : ∀ cs ts rows us rows', Token.Lexes 0 cs ts → DerivesAll ts rows →
    Token.Lexes 0 cs us → DerivesAll us rows' → ts = us ∧ rows = rows'

/-- **Exactly the grammar of clauses is accepted.** If every declaration has a domain for each
argument, then a text is read as a clause exactly if it writes the clause, with its weight or its
final point, its literals in order and the given label, and every other text is an error. -/
theorem readClause_exactly (hv : v.Regular) (text label : String) : v.ReadsClause text label where
  returns _ := readClause_eq_ok_iff hv
  refuses hnone := by
    cases hread : v.readClause text label with
    | ok c => exact absurd ((readClause_eq_ok_iff hv).1 hread) (hnone c)
    | error e => exact ⟨e, rfl, infix_of_readClause_error hread⟩
  weighted_once _ _ _ _ h h' := h.unique h'
  split_once _ _ _ _ _ hts hrows hus hrows' := by
    obtain rfl := lexes_unique hts hus
    exact ⟨rfl, derivesAll_unique hrows hrows'⟩

/-! ## Confusing clauses -/

theorem regular_confusing : confusing.Regular :=
  ⟨by decide, by decide⟩

/-- The literals `v(v(10),v)` and `!10(v)`. -/
def confusingLiterals : List Literal :=
  [⟨⟨separator, [.app separator [.const ⟨ten, none, Eq.refl false⟩] (some "thing"),
      .var ⟨separator, none, Eq.refl true⟩]⟩, true⟩,
    ⟨⟨ten, [.var ⟨separator, none, Eq.refl true⟩]⟩, false⟩]

/-- The clause `10.0 v(v(10),v) v !10(v)`. -/
def confusingRow : Clause Number :=
  ⟨confusingLiterals, some (.real (Numeral.toFloat ⟨false, 10, 0⟩)), "row", by decide⟩

/-- The separator as the name of everything and a numeral with a point in front, and the same text
with a point at its end as well. -/
theorem readClause_exactly_confusing :
    confusing.Regular ∧
      confusing.readClause " 10. v(v(10), v)v !10(v) " "row" = .ok confusingRow ∧
      confusing.WritesClause "row" (Text.trimRight " 10. v(v(10), v)v !10(v) ".toList)
        confusingRow ∧
      ∀ c, ¬ confusing.WritesClause "row" (Text.trimRight "10. v(v(10), v)v !10(v).".toList) c := by
  have hsplit : splitWeight? (Text.trimRight " 10. v(v(10), v)v !10(v) ".toList) =
      some (⟨false, 10, 0⟩, "v(v(10), v)v !10(v)".toList) := by cbv
  have hbody : ∀ w, confusing.clauseOfBody "v(v(10), v)v !10(v)".toList w "row" =
      .ok ⟨confusingLiterals, w, "row", by decide⟩ := by
    intro w
    cbv
  have hread : confusing.readClause " 10. v(v(10), v)v !10(v) " "row" = .ok confusingRow := by
    rw [readClause]
    simp only [hsplit]
    exact hbody _
  have hboth : confusing.readClause "10. v(v(10), v)v !10(v)." "row" =
      .error ⟨.weightedAndHard, none, "10. v(v(10), v)v !10(v)."⟩ := by
    have hsplit : splitWeight? (Text.trimRight "10. v(v(10), v)v !10(v).".toList) =
        some (⟨false, 10, 0⟩, "v(v(10), v)v !10(v).".toList) := by cbv
    have hlast : "v(v(10), v)v !10(v).".toList.getLast? = some '.' := by cbv
    rw [readClause]
    simp only [hsplit]
    exact if_pos hlast
  refine ⟨regular_confusing, hread,
    ((readClause_exactly regular_confusing _ _).returns _).1 hread, ?_⟩
  intro c hc
  have hok := ((readClause_exactly regular_confusing _ _).returns c).2 hc
  rw [hboth] at hok
  cases hok

end Vocabulary

end MarkovLogic
