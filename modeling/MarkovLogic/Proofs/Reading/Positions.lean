import MarkovLogic.Proofs.Reading.Derivations

/-!
# Where tokens stand

A character is legible if it is blank, part of a word or one of the four marks. A text with an
illegible character is refused at the first one, and every other text is taken apart
(`Token.TakesApart`): its tokens stand in it one behind the other, each word as a whole, and
whatever stands in no token is blank. So tokenising a text loses nothing of it
(`Vocabulary.tokens_tokenise`).
-/

namespace MarkovLogic

namespace Text

/-- The character may stand in the text of an atom or a literal. -/
def Legible (c : Char) : Prop :=
  isBlank c = true ∨ isWord c = true ∨ c ∈ ['(', ')', ',', '!']

/-- The first illegible character of the text stands at the index. -/
def FirstIllegible (cs : List Char) (i : Nat) : Prop :=
  ∃ front c back, cs = front ++ c :: back ∧ front.length = i ∧
    (∀ d ∈ front, Legible d) ∧ ¬ Legible c

theorem legible_mark (m : Mark) : Legible m.char := by
  cases m <;> exact .inr (.inr (by decide))

theorem not_legible_of_none {c : Char} (hb : ¬ isBlank c = true) (hw : ¬ isWord c = true)
    (hm : Mark.ofChar? c = none) : ¬ Legible c := by
  rintro (h | h | h)
  · exact hb h
  · exact hw h
  · simp only [List.mem_cons, List.not_mem_nil, or_false] at h
    rcases h with rfl | rfl | rfl | rfl <;> cases hm

theorem FirstIllegible.append {run cs : List Char} {i : Nat} (h : FirstIllegible cs i)
    (hrun : ∀ c ∈ run, Legible c) : FirstIllegible (run ++ cs) (run.length + i) := by
  obtain ⟨front, c, back, rfl, rfl, hfront, hc⟩ := h
  refine ⟨run ++ front, c, back, by simp, by simp, fun d hd => ?_, hc⟩
  rcases List.mem_append.1 hd with hd | hd
  · exact hrun d hd
  · exact hfront d hd

theorem FirstIllegible.exists_mem {cs : List Char} {i : Nat} (h : FirstIllegible cs i) :
    ∃ c ∈ cs, ¬ Legible c := by
  obtain ⟨front, c, back, rfl, -, -, hc⟩ := h
  exact ⟨c, by simp, hc⟩

theorem isWord_of_isBlank {c : Char} (h : isBlank c = true) : isWord c = false := by
  cases hw : isWord c with
  | false => rfl
  | true =>
    rw [isBlank_of_isWord hw] at h
    cases h

theorem isWord_getLast? {front : List Char} {c : Char} (h : isWord c = false) :
    ∀ d ∈ (front ++ [c]).getLast?, isWord d = false := by
  intro d hd
  rw [List.getLast?_concat] at hd
  obtain rfl := Option.some.inj hd
  exact h

end Text

namespace Token

open Text (Legible FirstIllegible StopsWord)

/-! ## Refused characters -/

theorem legible_of_lexes {p : Nat} {cs : List Char} {ts : List Token} (h : Lexes p cs ts) :
    ∀ c ∈ cs, Legible c := by
  induction h with
  | nil p => simp
  | blank hc _ ih => exact List.forall_mem_cons.2 ⟨.inl hc, ih⟩
  | mark m _ ih => exact List.forall_mem_cons.2 ⟨Text.legible_mark m, ih⟩
  | word i _ _ ih =>
    intro c hc
    rcases List.mem_append.1 hc with hc | hc
    · exact .inr (.inl (i.isWord_of_mem_chars hc))
    · exact ih c hc

/-- **Scanning fails at the first illegible character**, counted from where it started. -/
theorem firstIllegible_of_scan {p : Nat} {cs : List Char} :
    ∀ {i : Nat}, scan p cs = .error i → ∃ k, i = p + k ∧ FirstIllegible cs k := by
  induction p, cs using scan.induct with
  | case1 p =>
    intro i h
    rw [scan] at h
    cases h
  | case2 p c cs hc ih =>
    intro i h
    rw [scan_blank hc] at h
    obtain ⟨k, rfl, hk⟩ := ih h
    have hrun : ∀ d ∈ [c], Legible d := by simp [Legible, hc]
    exact ⟨1 + k, by omega, hk.append hrun⟩
  | case3 p c cs hb hc tail =>
    rename_i ih
    intro i h
    rw [scan, if_neg hb, dif_pos hc] at h
    rcases bind_eq_error_iff.1 h with h | ⟨rest, -, h⟩
    · obtain ⟨k, rfl, hk⟩ := ih h
      -- the word that is scanned is legible, and what is left starts behind it
      have hrun : ∀ d ∈ c :: cs.takeWhile Text.isWord, Legible d := by
        intro d hd
        rcases List.mem_cons.1 hd with rfl | hd
        · exact .inr (.inl hc)
        · exact .inr (.inl (List.all_eq_true.1 List.all_takeWhile d hd))
      have hfirst := hk.append hrun
      rw [List.cons_append, List.takeWhile_append_dropWhile] at hfirst
      refine ⟨_, ?_, hfirst⟩
      simp only [List.length_cons, tail]
      omega
    · cases h
  | case4 p c cs hb hw m hm ih =>
    intro i h
    obtain rfl := Mark.ofChar?_eq_some_iff.1 hm
    rw [scan_mark] at h
    rcases bind_eq_error_iff.1 h with h | ⟨rest, -, h⟩
    · obtain ⟨k, rfl, hk⟩ := ih h
      have hrun : ∀ d ∈ [m.char], Legible d := by simpa using Text.legible_mark m
      exact ⟨1 + k, by omega, hk.append hrun⟩
    · cases h
  | case5 p c cs hb hw hm =>
    intro i h
    rw [scan, if_neg hb, dif_neg hw, hm] at h
    obtain rfl := Except.error.inj h
    exact ⟨0, rfl, [], c, cs, rfl, rfl, by simp, Text.not_legible_of_none hb hw hm⟩

/-! ## Tokens in a text -/

/-- The token stands in the text at its position: a longest run of word characters, or a mark. -/
inductive StandsIn (cs : List Char) : Token → Prop where
  | word {front back : List Char} (w : Identifier) (hsplit : cs = front ++ (w.chars ++ back))
    (hword : ∀ c ∈ w.chars, Text.isWord c = true)
    (hfront : ∀ c ∈ front.getLast?, Text.isWord c = false)
    (hback : ∀ c ∈ back.head?, Text.isWord c = false) : StandsIn cs ⟨.word w, front.length⟩
  | mark {front back : List Char} (m : Mark) (hsplit : cs = front ++ m.char :: back) :
    StandsIn cs ⟨.mark m, front.length⟩

/-- The tokens take the text apart from an index on. -/
structure TakesApart (cs : List Char) (start : Nat) (ts : List Token) : Prop where
  stands : ∀ t ∈ ts, t.StandsIn cs
  nonempty : ∀ t ∈ ts, t.position < t.stop
  ahead : ∀ t ∈ ts, start ≤ t.position
  /-- Every token ends before the next one starts. -/
  ascending : ts.Pairwise fun t u => t.stop ≤ u.position
  /-- A character that stands in no token is blank. -/
  between : ∀ i c, start ≤ i → cs[i]? = some c → (∀ t ∈ ts, ¬ (t.position ≤ i ∧ i < t.stop)) →
    Text.isBlank c = true

variable {cs : List Char} {t : Token} {ts : List Token} {start : Nat}

theorem StandsIn.position_lt_stop (h : t.StandsIn cs) : t.position < t.stop := by
  cases h with
  | mark m _ => simp [stop, Lexeme.chars]
  | word w _ _ _ _ =>
    obtain ⟨c, run, hw, -⟩ := w.exists_cons
    simp [stop, Lexeme.chars, hw]

/-- A blank in front of what is taken apart adds nothing. -/
theorem TakesApart.blank {c : Char} (h : TakesApart cs (start + 1) ts) (hget : cs[start]? = some c)
    (hc : Text.isBlank c = true) : TakesApart cs start ts where
  stands := h.stands
  nonempty := h.nonempty
  ahead t ht := Nat.le_of_succ_le (h.ahead t ht)
  ascending := h.ascending
  between i d hi hd hout := by
    rcases Nat.eq_or_lt_of_le hi with rfl | hi
    · obtain rfl := Option.some.inj (hget.symm.trans hd)
      exact hc
    · exact h.between i d hi hd hout

/-- A token in front of what is taken apart is one more token. -/
theorem TakesApart.cons (h : TakesApart cs t.stop ts) (ht : t.StandsIn cs) :
    TakesApart cs t.position (t :: ts) where
  stands := List.forall_mem_cons.2 ⟨ht, h.stands⟩
  nonempty := List.forall_mem_cons.2 ⟨ht.position_lt_stop, h.nonempty⟩
  ahead := List.forall_mem_cons.2
    ⟨Nat.le_refl _, fun u hu => Nat.le_trans (Nat.le_of_lt ht.position_lt_stop) (h.ahead u hu)⟩
  ascending := List.pairwise_cons.2 ⟨h.ahead, h.ascending⟩
  between i c hi hc hout := by
    obtain ⟨hnot, hout⟩ := List.forall_mem_cons.1 hout
    exact h.between i c (by omega) hc hout

/-- **What lexes is taken apart.** The characters `front` stand before what lexes, and no word runs
from them into it. -/
theorem takesApart_of_lexes {p : Nat} {cs : List Char} {ts : List Token} (h : Lexes p cs ts) :
    ∀ front : List Char, front.length = p →
      (StopsWord cs ∨ ∀ c ∈ front.getLast?, Text.isWord c = false) →
        TakesApart (front ++ cs) p ts := by
  induction h with
  | nil p =>
    rintro front rfl -
    refine ⟨by simp, by simp, by simp, .nil, fun i c hi hc _ => ?_⟩
    obtain ⟨hlt, -⟩ := List.getElem?_eq_some_iff.1 hc
    simp at hlt
    omega
  | @blank p c cs ts hc h ih =>
    rintro front rfl -
    have hrest := ih (front ++ [c]) (by simp)
      (.inr (Text.isWord_getLast? (Text.isWord_of_isBlank hc)))
    rw [List.append_assoc, List.singleton_append] at hrest
    exact hrest.blank (by simp) hc
  | @mark p cs ts m h ih =>
    rintro front rfl -
    have hrest := ih (front ++ [m.char]) (by simp) (.inr (Text.isWord_getLast? m.isWord_char))
    rw [List.append_assoc, List.singleton_append] at hrest
    exact TakesApart.cons (t := ⟨.mark m, front.length⟩) hrest (.mark m rfl)
  | @word p cs ts i hcs h ih =>
    rintro front rfl hfront
    have hrest := ih (front ++ i.chars) (by simp) (.inl hcs)
    rw [List.append_assoc] at hrest
    have hlast : ∀ c ∈ front.getLast?, Text.isWord c = false := by
      refine hfront.resolve_left fun hstops => ?_
      obtain ⟨c, run, hi, hc, -⟩ := i.exists_cons
      rw [hstops c (by simp [hi])] at hc
      cases hc
    have hstands : StandsIn (front ++ (i.chars ++ cs)) ⟨.word i, front.length⟩ :=
      .word i rfl (fun _ => i.isWord_of_mem_chars) hlast hcs
    exact TakesApart.cons (t := ⟨.word i, front.length⟩) hrest hstands

end Token

namespace Vocabulary

open Text (Legible FirstIllegible)

theorem takesApart_of_tokens {cs : List Char} {ts : List Token} (h : tokens cs = .ok ts) :
    Token.TakesApart cs 0 ts :=
  Token.takesApart_of_lexes (tokens_eq_ok_iff.1 h) [] rfl (.inr (by simp))

theorem firstIllegible_of_tokens {cs : List Char} {m : Misread} (h : tokens cs = .error m) :
    ∃ i, m = ⟨.unexpectedCharacter, some i⟩ ∧ FirstIllegible cs i := by
  rw [tokens, Token.takeAll_start] at h
  cases hscan : Token.scan 0 cs with
  | ok ts =>
    rw [hscan] at h
    cases h
  | error i =>
    rw [hscan] at h
    obtain ⟨k, rfl, hk⟩ := Token.firstIllegible_of_scan hscan
    obtain rfl := Except.error.inj h
    exact ⟨k, by rw [Nat.zero_add], hk⟩

/-- What becomes of a text that is to be tokenised. -/
structure Tokenises (cs : List Char) : Prop where
  /-- A text is refused exactly for an illegible character, -/
  refused_iff : (∃ m, tokens cs = .error m) ↔ ∃ c ∈ cs, ¬ Legible c
  /-- at the first one; -/
  refused_at : ∀ m, tokens cs = .error m →
    ∃ i, m = ⟨.unexpectedCharacter, some i⟩ ∧ FirstIllegible cs i
  /-- every other text is taken apart. -/
  returns : (∀ c ∈ cs, Legible c) → ∃ ts, tokens cs = .ok ts ∧ Token.TakesApart cs 0 ts

/-- **Tokenising loses nothing.** A text with an illegible character is refused at the first one,
and any other text is made of its tokens and of blanks before, between and behind them. -/
theorem tokens_tokenise (text : String) : Tokenises text.toList := by
  constructor
  case refused_at => exact fun m hm => firstIllegible_of_tokens hm
  case refused_iff =>
    constructor
    · rintro ⟨m, hm⟩
      obtain ⟨i, -, hi⟩ := firstIllegible_of_tokens hm
      exact hi.exists_mem
    · rintro ⟨c, hc, hillegible⟩
      cases htokens : tokens text.toList with
      | error m => exact ⟨m, rfl⟩
      | ok ts => exact absurd (Token.legible_of_lexes (tokens_eq_ok_iff.1 htokens) c hc) hillegible
  case returns =>
    intro hlegible
    cases htokens : tokens text.toList with
    | ok ts => exact ⟨ts, rfl, takesApart_of_tokens htokens⟩
    | error m =>
      obtain ⟨i, -, hi⟩ := firstIllegible_of_tokens htokens
      obtain ⟨c, hc, hillegible⟩ := hi.exists_mem
      exact absurd (hlegible c hc) hillegible

/-- An illegible character behind a blank is refused where it stands, not where the blank does. -/
example : tokens " P(x) ; y".toList = .error ⟨.unexpectedCharacter, some 6⟩ := by
  cbv

end Vocabulary

end MarkovLogic
