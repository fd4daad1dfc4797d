import MarkovLogic.Reading.Token
import MarkovLogic.Proofs.Runs
import Mathlib.Data.List.TakeWhile

/-!
# Texts and their tokens

`Token.Scans cs ls` says that the characters `cs` are read as tokens with the lexemes `ls`, wherever
they stand. A mark in front adds its lexeme (`scans_mark`), and so does an identifier unless a word
character follows that would make it longer (`scans_word`). No character is both blank and part of a
word (`isBlank_of_isWord`).

`Token.scan` goes through the text character by character. Taking one token after the other finds
the same tokens and fails at the same index (`takeAll_eq_scan`), because no lexeme starts with a
blank.
-/

namespace MarkovLogic

namespace Text

/-! ## Blanks and words -/

/-- Ranges of characters beyond ASCII that hold all blanks there. -/
def blankRanges : List (Nat × Nat) :=
  [(0x85, 0x85), (0xa0, 0xa0), (0x1680, 0x1680), (0x2000, 0x205f), (0x3000, 0x3000)]

theorem inRanges_blankRanges {c : Char} (h : isBlank c = true) (hc : ¬ c.toNat < 128) :
    inRanges blankRanges c = true := by
  simp only [isBlank, Bool.or_eq_true, Bool.and_eq_true, decide_eq_true_eq, beq_iff_eq] at h
  simp only [inRanges, blankRanges, List.any_cons, List.any_nil, Bool.or_eq_true,
    Bool.and_eq_true, decide_eq_true_eq]
  omega

/-- The two ranges have no number in common. -/
def apart (r s : Nat × Nat) : Bool :=
  r.2 < s.1 || s.2 < r.1

theorem wordRanges_apart : wordRanges.all (fun r => blankRanges.all (apart r)) = true := by
  decide +kernel

theorem isBlank_of_isWord_ascii :
    ∀ n < 128, isWord (Char.ofNat n) = true → isBlank (Char.ofNat n) = false := by
  decide +kernel

/-- No character is both blank and part of a word. -/
theorem isBlank_of_isWord {c : Char} (h : isWord c = true) : isBlank c = false := by
  by_cases hc : c.toNat < 128
  · have hascii := isBlank_of_isWord_ascii c.toNat hc
    rw [Char.ofNat_toNat] at hascii
    exact hascii h
  · rw [isWord, if_neg hc] at h
    cases hb : isBlank c with
    | false => rfl
    | true =>
      obtain ⟨r, hr, hin⟩ := List.any_eq_true.1 h
      obtain ⟨s, hs, hin'⟩ := List.any_eq_true.1 (inRanges_blankRanges hb hc)
      have hapart := List.all_eq_true.1 (List.all_eq_true.1 wordRanges_apart r hr) s hs
      simp only [apart, Bool.or_eq_true, Bool.and_eq_true, decide_eq_true_eq] at hapart hin hin'
      omega

/-- The text is empty or starts with a character that is not part of a word. -/
def StopsWord (cs : List Char) : Prop :=
  ∀ c ∈ cs.head?, isWord c = false

theorem stopsWord_cons {c : Char} (h : isWord c = false) (cs : List Char) :
    StopsWord (c :: cs) := by
  intro d hd
  obtain rfl := Option.some.inj hd
  exact h

theorem takeWhile_append_of_stop {p : Char → Bool} {w cs : List Char} (hw : ∀ c ∈ w, p c = true)
    (hcs : ∀ c ∈ cs.head?, p c = false) : (w ++ cs).takeWhile p = w := by
  rw [List.takeWhile_append_of_pos hw]
  cases cs with
  | nil => simp
  | cons c cs => rw [List.takeWhile_cons_of_neg (by simp [hcs c rfl]), List.append_nil]

theorem dropWhile_append_of_stop {p : Char → Bool} {w cs : List Char} (hw : ∀ c ∈ w, p c = true)
    (hcs : ∀ c ∈ cs.head?, p c = false) : (w ++ cs).dropWhile p = cs := by
  rw [List.dropWhile_append_of_pos hw]
  cases cs with
  | nil => rfl
  | cons c cs => rw [List.dropWhile_cons_of_neg (by simp [hcs c rfl])]

/-- What is left when characters of a class are dropped starts with none of them. -/
theorem stop_dropWhile (p : Char → Bool) (cs : List Char) :
    ∀ c ∈ (cs.dropWhile p).head?, p c = false := by
  intro c hc
  have h := List.head?_dropWhile_not p cs
  rw [hc] at h
  simpa using h

theorem stopsWord_dropWhile (cs : List Char) : StopsWord (cs.dropWhile isWord) :=
  stop_dropWhile isWord cs

/-- Every text starts with a longest run of characters of a class. -/
theorem exists_run (p : Char → Bool) (cs : List Char) : ∃ run rest, cs = run ++ rest ∧
    (∀ c ∈ run, p c = true) ∧ ∀ c ∈ rest.head?, p c = false :=
  ⟨cs.takeWhile p, cs.dropWhile p, List.takeWhile_append_dropWhile.symm,
    List.all_eq_true.1 List.all_takeWhile, stop_dropWhile p cs⟩

end Text

namespace Identifier

/-- An identifier is a word character and word characters behind it. -/
theorem exists_cons (i : Identifier) :
    ∃ c cs, i.chars = c :: cs ∧ Text.isWord c = true ∧ ∀ d ∈ cs, Text.isWord d = true := by
  have h := i.isWordRun
  unfold Text.isWordRun at h
  unfold chars
  cases hc : i.text.toList with
  | nil =>
    rw [hc] at h
    cases h
  | cons c cs =>
    rw [hc, Bool.and_eq_true, List.all_cons, Bool.and_eq_true, List.all_eq_true] at h
    exact ⟨c, cs, rfl, h.2⟩

theorem isWord_of_mem_chars (i : Identifier) {c : Char} (h : c ∈ i.chars) :
    Text.isWord c = true := by
  obtain ⟨d, ds, hi, hd, hds⟩ := i.exists_cons
  rw [hi] at h
  rcases List.mem_cons.1 h with rfl | h
  · exact hd
  · exact hds c h

theorem ofChars_eq {i : Identifier} {cs : List Char} (hi : i.chars = cs)
    (h : Text.isWordRun cs = true) : ofChars cs h = i := by
  subst hi
  cases i
  simp [ofChars, chars]

end Identifier

/-- A text that starts with a word character starts with an identifier, as long as the word. -/
theorem exists_word {c : Char} (hc : Text.isWord c = true) (cs : List Char) :
    ∃ i : Identifier, c :: cs = i.chars ++ cs.dropWhile Text.isWord ∧
      i.chars.length = (cs.takeWhile Text.isWord).length + 1 := by
  have hrun : Text.isWordRun (c :: cs.takeWhile Text.isWord) = true := Text.isWordRun_takeWhile hc
  have hchars := Identifier.chars_ofChars (c :: cs.takeWhile Text.isWord) hrun
  refine ⟨.ofChars (c :: cs.takeWhile Text.isWord) hrun, ?_, ?_⟩
  · rw [hchars, List.cons_append, List.takeWhile_append_dropWhile]
  · rw [hchars, List.length_cons]

/-! ## Marks -/

theorem Mark.ofChar?_eq_some_iff {c : Char} {m : Mark} : Mark.ofChar? c = some m ↔ c = m.char := by
  constructor
  · intro h
    unfold Mark.ofChar? at h
    split at h
    · obtain rfl := Option.some.inj h
      rfl
    · obtain rfl := Option.some.inj h
      rfl
    · obtain rfl := Option.some.inj h
      rfl
    · obtain rfl := Option.some.inj h
      rfl
    · cases h
  · rintro rfl
    cases m <;> rfl

theorem Mark.isBlank_char (m : Mark) : Text.isBlank m.char = false := by
  cases m <;> decide

theorem Mark.isWord_char (m : Mark) : Text.isWord m.char = false := by
  cases m <;> decide

namespace Token

/-! ## Scanning -/

/-- The tokens of the characters, the first of which stands at `position`. Fails with the position
of the first character that belongs to no token and is not blank. -/
def scan (position : Nat) : List Char → Except Nat (List Token)
  | [] => .ok []
  | c :: cs =>
    if Text.isBlank c then scan (position + 1) cs
    else if h : Text.isWord c = true then do
      let tail := cs.takeWhile Text.isWord
      let rest ← scan (position + 1 + tail.length) (cs.dropWhile Text.isWord)
      return ⟨.word (.ofChars (c :: tail) (Text.isWordRun_takeWhile h)), position⟩ :: rest
    else
      match Mark.ofChar? c with
      | some m => do return ⟨.mark m, position⟩ :: (← scan (position + 1) cs)
      | none => .error position
termination_by cs => cs.length
decreasing_by
  all_goals simp only [List.length_cons]
  · omega
  · have := (List.dropWhile_sublist Text.isWord (l := cs)).length_le
    omega
  · omega

theorem scan_blank {p : Nat} {c : Char} (hc : Text.isBlank c = true) (cs : List Char) :
    scan p (c :: cs) = scan (p + 1) cs := by
  rw [scan, if_pos hc]

theorem scan_mark (p : Nat) (m : Mark) (cs : List Char) : scan p (m.char :: cs) = (do
    return ⟨.mark m, p⟩ :: (← scan (p + 1) cs)) := by
  rw [scan, if_neg (by simp [m.isBlank_char]), dif_neg (by simp [m.isWord_char]),
    Mark.ofChar?_eq_some_iff.2 rfl]

theorem scan_word (p : Nat) (i : Identifier) {cs : List Char} (hcs : Text.StopsWord cs) :
    scan p (i.chars ++ cs) = (do
      return ⟨.word i, p⟩ :: (← scan (p + i.chars.length) cs)) := by
  obtain ⟨c, w, hi, hc, hw⟩ := i.exists_cons
  have hlength : p + 1 + w.length = p + (c :: w).length := by
    rw [List.length_cons]
    omega
  rw [hi, List.cons_append, scan, if_neg (by simp [Text.isBlank_of_isWord hc]), dif_pos hc]
  simp only [Text.takeWhile_append_of_stop hw hcs, Text.dropWhile_append_of_stop hw hcs,
    Identifier.ofChars_eq hi, hlength]

/-- The characters are read as tokens with the given lexemes, wherever they stand. -/
def Scans (cs : List Char) (ls : List Lexeme) : Prop :=
  ∀ position, ∃ ts, scan position cs = .ok ts ∧ ts.map Token.lexeme = ls

theorem scans_nil : Scans [] [] := by
  intro position
  refine ⟨[], ?_, rfl⟩
  unfold scan
  rfl

theorem scans_blank {c : Char} (hc : Text.isBlank c = true) {cs : List Char} {ls : List Lexeme}
    (h : Scans cs ls) : Scans (c :: cs) ls := by
  intro position
  rw [scan_blank hc]
  exact h (position + 1)

theorem scans_mark (m : Mark) {cs : List Char} {ls : List Lexeme} (h : Scans cs ls) :
    Scans (m.char :: cs) (.mark m :: ls) := by
  intro position
  obtain ⟨ts, hts, rfl⟩ := h (position + 1)
  refine ⟨⟨.mark m, position⟩ :: ts, ?_, rfl⟩
  rw [scan_mark, hts]
  rfl

/-- An identifier is read as one token if the word does not go on behind it. -/
theorem scans_word (i : Identifier) {cs : List Char} (hcs : Text.StopsWord cs) {ls : List Lexeme}
    (h : Scans cs ls) : Scans (i.chars ++ cs) (.word i :: ls) := by
  intro position
  obtain ⟨ts, hts, rfl⟩ := h (position + i.chars.length)
  refine ⟨⟨.word i, position⟩ :: ts, ?_, rfl⟩
  rw [scan_word position i hcs, hts]
  rfl

/-! ## Taking one token after the other -/

theorem first?_mark (m : Mark) (cs : List Char) :
    Lexeme.first? (m.char :: cs) = some (.mark m) := by
  rw [Lexeme.first?, dif_neg (by simp [m.isWord_char]), Mark.ofChar?_eq_some_iff.2 rfl]
  rfl

theorem first?_word (i : Identifier) {cs : List Char} (hcs : Text.StopsWord cs) :
    Lexeme.first? (i.chars ++ cs) = some (.word i) := by
  obtain ⟨c, w, hi, hc, hw⟩ := i.exists_cons
  rw [hi, List.cons_append, Lexeme.first?, dif_pos hc]
  simp only [Text.takeWhile_append_of_stop hw hcs, Identifier.ofChars_eq hi]

/-- No lexeme starts with a character that is neither part of a word nor a mark. -/
theorem first?_eq_none {c : Char} (hw : ¬ Text.isWord c = true) (hm : Mark.ofChar? c = none)
    (cs : List Char) : Lexeme.first? (c :: cs) = none := by
  rw [Lexeme.first?, dif_neg hw, hm]
  rfl

theorem first?_blank {c : Char} (hc : Text.isBlank c = true) (cs : List Char) :
    Lexeme.first? (c :: cs) = none := by
  refine first?_eq_none (fun hw => ?_) ?_ cs
  · rw [Text.isBlank_of_isWord hw] at hc
    cases hc
  · cases hm : Mark.ofChar? c with
    | none => rfl
    | some m =>
      rw [Mark.ofChar?_eq_some_iff.1 hm, m.isBlank_char] at hc
      cases hc

section TakeAll

variable {text : List Char} {start : Nat} {c : Char} {cs : List Char} {l : Lexeme}

theorem takeAll_eq (text : List Char) (start : Nat) (taken : List Token) :
    takeAll text start taken =
      if start < text.length then
        if Text.trim (text.drop start) = [] then .ok taken
        else
          match next? text start with
          | none => .error (text.length - ((text.drop start).dropWhile Text.isBlank).length)
          | some t => takeAll text t.stop (taken ++ [t])
      else .ok taken := by
  rw [takeAll]
  split
  · split
    · rfl
    · split
      · next hnext => rw [hnext]
      · next t hnext => rw [hnext]
  · rfl

theorem takeAll_nil (h : text.drop start = []) (taken : List Token) :
    takeAll text start taken = .ok taken := by
  rw [takeAll_eq, if_neg (Nat.not_lt.2 (List.drop_eq_nil_iff.1 h))]

theorem lt_length_of_drop (h : text.drop start = c :: cs) : start < text.length := by
  have hlength := congrArg List.length h
  rw [List.length_drop, List.length_cons] at hlength
  omega

theorem behind?_blank (h : text.drop start = c :: cs) (hc : Text.isBlank c = true) (n : Nat) :
    behind? text start (n + 1) = behind? text (start + 1) n := by
  induction n with
  | zero =>
    rw [behind?, behind?, behind?, h, first?_blank hc]
    cases Lexeme.first? (text.drop (start + (0 + 1))) <;> rfl
  | succ n ih =>
    have hindex : start + (n + 1 + 1) = start + 1 + (n + 1) := by omega
    rw [behind?, ih, behind?, hindex]

/-- A blank is passed over. -/
theorem takeAll_blank (h : text.drop start = c :: cs) (hc : Text.isBlank c = true)
    (taken : List Token) : takeAll text start taken = takeAll text (start + 1) taken := by
  have hdrop : text.drop (start + 1) = cs := by
    rw [← List.drop_drop, h]
    rfl
  have htrim : Text.trim (c :: cs) = Text.trim cs := by
    rw [Text.trim, List.dropWhile_cons_of_pos hc, Text.trim]
  have hnext : next? text start = next? text (start + 1) := by
    rw [next?, h, List.takeWhile_cons_of_pos hc, List.length_cons, behind?_blank h hc, next?, hdrop]
  rw [takeAll_eq, if_pos (lt_length_of_drop h), h, htrim, hnext, List.dropWhile_cons_of_pos hc]
  cases cs with
  | nil => rw [takeAll_nil hdrop, if_pos (by rfl)]
  | cons d ds => rw [takeAll_eq text (start + 1), if_pos (lt_length_of_drop hdrop), hdrop]

theorem next?_of_not_blank (h : text.drop start = c :: cs) (hc : Text.isBlank c = false) :
    next? text start = (Lexeme.first? (c :: cs)).map (⟨·, start⟩) := by
  rw [next?, h, List.takeWhile_cons_of_neg (by simp [hc]), List.length_nil, behind?, h]

theorem trim_ne_nil (hc : Text.isBlank c = false) (cs : List Char) : Text.trim (c :: cs) ≠ [] := by
  rw [Text.trim, List.dropWhile_cons_of_neg (by simp [hc]), Text.trimRight]
  intro h
  have hall := List.dropWhile_eq_nil_iff.1 (List.reverse_eq_nil_iff.1 h) c (by simp)
  rw [hc] at hall
  cases hall

/-- A lexeme is taken as a whole. -/
theorem takeAll_lexeme {rest : List Char} (h : text.drop start = l.chars ++ rest)
    (hfirst : Lexeme.first? (l.chars ++ rest) = some l) (taken : List Token) :
    takeAll text start taken =
      takeAll text (start + l.chars.length) (taken ++ [⟨l, start⟩]) := by
  obtain ⟨c, cs, hl⟩ := List.exists_cons_of_ne_nil l.chars_ne_nil
  have hc : Text.isBlank c = false := by
    cases hb : Text.isBlank c with
    | false => rfl
    | true =>
      rw [hl, List.cons_append, first?_blank hb] at hfirst
      cases hfirst
  have hdrop : text.drop start = c :: (cs ++ rest) := by rw [h, hl, List.cons_append]
  rw [hl, List.cons_append] at hfirst
  rw [takeAll_eq, if_pos (lt_length_of_drop hdrop), hdrop, if_neg (trim_ne_nil hc _),
    next?_of_not_blank hdrop hc, hfirst]
  rfl

/-- The index in an error is that of the character where no token stands. -/
theorem takeAll_illegible (h : text.drop start = c :: cs) (hc : Text.isBlank c = false)
    (hfirst : Lexeme.first? (c :: cs) = none) (taken : List Token) :
    takeAll text start taken = .error start := by
  have hlength := congrArg List.length h
  have hlt := lt_length_of_drop h
  rw [List.length_drop] at hlength
  rw [takeAll_eq, if_pos hlt, h, if_neg (trim_ne_nil hc cs), next?_of_not_blank h hc, hfirst,
    List.dropWhile_cons_of_neg (by simp [hc]), ← hlength]
  exact congrArg Except.error (Nat.sub_sub_self (Nat.le_of_lt hlt))

theorem map_append_cons (x : Except Nat (List Token)) (t : Token) (taken : List Token) :
    (do return t :: (← x) : Except Nat (List Token)).map (taken ++ ·) =
      x.map (taken ++ [t] ++ ·) := by
  cases x with
  | error p => rfl
  | ok ts => exact congrArg Except.ok (by simp)

/-- **Taking one token after the other finds what scanning finds**, behind the tokens that are taken
already. -/
theorem takeAll_eq_scan (start : Nat) (cs : List Char) : ∀ taken, text.drop start = cs →
    takeAll text start taken = (scan start cs).map (taken ++ ·) := by
  induction start, cs using scan.induct with
  | case1 start =>
    intro taken h
    rw [takeAll_nil h, scan]
    exact congrArg Except.ok (List.append_nil taken).symm
  | case2 start c cs hc ih =>
    intro taken h
    rw [takeAll_blank h hc, scan_blank hc]
    exact ih taken (by rw [← List.drop_drop, h]; rfl)
  | case3 start c cs hb hc tail =>
    rename_i ih
    intro taken h
    obtain ⟨i, hsplit, hlength⟩ := exists_word hc cs
    have hposition : start + 1 + tail.length = start + i.chars.length := by
      simp only [hlength, tail]
      omega
    rw [hsplit] at h ⊢
    have hdrop : text.drop (start + i.chars.length) = cs.dropWhile Text.isWord := by
      rw [← List.drop_drop, h, List.drop_left]
    rw [takeAll_lexeme (l := .word i) h (first?_word i (Text.stopsWord_dropWhile cs)),
      scan_word start i (Text.stopsWord_dropWhile cs), map_append_cons]
    rw [hposition] at ih
    exact ih _ hdrop
  | case4 start c cs hb hw m hm ih =>
    intro taken h
    obtain rfl := Mark.ofChar?_eq_some_iff.1 hm
    have hdrop : text.drop (start + 1) = cs := by rw [← List.drop_drop, h]; rfl
    rw [takeAll_lexeme (l := .mark m) h (first?_mark m cs), scan_mark, map_append_cons]
    exact ih _ hdrop
  | case5 start c cs hb hw hm =>
    intro taken h
    rw [takeAll_illegible h (Bool.eq_false_iff.2 hb) (first?_eq_none hw hm cs), scan, if_neg hb,
      dif_neg hw, hm]
    rfl

/-- The tokens of a text are those that scanning finds. -/
theorem takeAll_start (cs : List Char) : takeAll cs 0 [] = scan 0 cs := by
  rw [takeAll_eq_scan 0 cs [] rfl]
  cases scan 0 cs <;> rfl

end TakeAll

end Token

end MarkovLogic
