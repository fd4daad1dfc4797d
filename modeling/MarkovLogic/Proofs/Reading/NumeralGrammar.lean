import MarkovLogic.Reading.Reader
import MarkovLogic.Proofs.Reading.Tokens

/-!
# The grammar of numerals

    Numeral  = Sign Mantissa [Exponent]
    Sign     = ['+' | '-']
    Mantissa = digit {digit} ['.' {digit}] | '.' digit {digit}
    Exponent = ('e' | 'E') Sign digit {digit}

A digit is a decimal digit of any script. `Numeral.Spells` relates a text of this form to the number
that it writes, and `Numeral.read?` finds the number of exactly these texts
(`Numeral.read?_eq_some_iff`): no character of one part can start the next, so taking off as much as
possible of every part never takes too much.
-/

namespace MarkovLogic

namespace Numeral

/-! ## Derivations -/

/-- `{digit}`, with the values of the digits. -/
def SpellsDigits : List Char → List Nat → Prop :=
  List.Forall₂ fun c d => Text.digitValue? c = some d

/-- `Sign = ['+' | '-']`, and whether it is a minus. -/
inductive SpellsSign : List Char → Bool → Prop where
  | absent : SpellsSign [] false
  | plus : SpellsSign ['+'] false
  | minus : SpellsSign ['-'] true

/-- `['.' {digit}]`, with the values of the digits. -/
inductive SpellsFraction : List Char → List Nat → Prop where
  | absent : SpellsFraction [] []
  | present {cs : List Char} {ds : List Nat} (h : SpellsDigits cs ds) :
    SpellsFraction ('.' :: cs) ds

/-- `Mantissa = digit {digit} ['.' {digit}] | '.' digit {digit}`, with the values of the digits
before and after the point. -/
inductive SpellsMantissa : List Char → List Nat → List Nat → Prop where
  | whole {cs fs : List Char} {ds es : List Nat} (h : SpellsDigits cs ds) (hne : ds ≠ [])
    (hf : SpellsFraction fs es) : SpellsMantissa (cs ++ fs) ds es
  | point {cs : List Char} {es : List Nat} (h : SpellsDigits cs es) (hne : es ≠ []) :
    SpellsMantissa ('.' :: cs) [] es

/-- `[Exponent]`, with `Exponent = ('e' | 'E') Sign digit {digit}`; an absent one is zero. -/
inductive SpellsExponent : List Char → Int → Prop where
  | absent : SpellsExponent [] 0
  | present {letter : Char} {sign cs : List Char} {negative : Bool} {ds : List Nat}
    (hl : letter = 'e' ∨ letter = 'E') (hs : SpellsSign sign negative) (h : SpellsDigits cs ds)
    (hne : ds ≠ []) :
    SpellsExponent (letter :: (sign ++ cs)) (if negative then -(ofDigits ds) else ofDigits ds)

/-- `Numeral = Sign Mantissa [Exponent]`, with the number: each digit after the point lowers the
exponent by one. -/
inductive Spells : List Char → Numeral → Prop where
  | parts {sign mantissa exponent : List Char} {negative : Bool} {ds es : List Nat} {e : Int}
    (hs : SpellsSign sign negative) (hm : SpellsMantissa mantissa ds es)
    (he : SpellsExponent exponent e) :
    Spells (sign ++ (mantissa ++ exponent)) ⟨negative, ofDigits (ds ++ es), e - es.length⟩

/-! ## What may follow a part -/

/-- The text does not start with a digit. -/
def StopsDigits (cs : List Char) : Prop :=
  ∀ c ∈ cs.head?, Text.digitValue? c = none

/-- The text starts with a digit or a point. -/
def StartsNumber (cs : List Char) : Prop :=
  ∃ c ∈ cs.head?, c = '.' ∨ (Text.digitValue? c).isSome = true

theorem stopsDigits_exponent {cs : List Char} {e : Int} (h : SpellsExponent cs e) :
    StopsDigits cs := by
  intro c hc
  cases h with
  | absent => cases hc
  | present hl _ _ _ =>
    obtain rfl := Option.some.inj hc
    rcases hl with rfl | rfl <;> decide

theorem stopsDigits_fraction {fs cs : List Char} {es : List Nat} {e : Int}
    (hf : SpellsFraction fs es) (he : SpellsExponent cs e) : StopsDigits (fs ++ cs) := by
  cases hf with
  | absent => exact stopsDigits_exponent he
  | present h =>
    intro c hc
    obtain rfl := Option.some.inj hc
    decide

theorem startsNumber_digits {cs : List Char} {ds : List Nat} (h : SpellsDigits cs ds)
    (hne : ds ≠ []) (rest : List Char) : StartsNumber (cs ++ rest) := by
  cases h with
  | nil => exact absurd rfl hne
  | @cons c d _ _ hd _ => exact ⟨c, rfl, .inr (by rw [hd]; rfl)⟩

theorem startsNumber_mantissa {cs : List Char} {ds es : List Nat} (h : SpellsMantissa cs ds es)
    (rest : List Char) : StartsNumber (cs ++ rest) := by
  cases h with
  | whole h hne hf =>
    rw [List.append_assoc]
    exact startsNumber_digits h hne _
  | point _ _ => exact ⟨'.', rfl, .inl rfl⟩

/-! ## Taking off a part -/

theorem takeDigits_sound {cs rest : List Char} {ds : List Nat} (h : takeDigits cs = (ds, rest)) :
    ∃ run, cs = run ++ rest ∧ SpellsDigits run ds := by
  induction cs generalizing ds with
  | nil =>
    obtain ⟨rfl, rfl⟩ := Prod.mk.inj h
    exact ⟨[], rfl, .nil⟩
  | cons c cs ih =>
    rw [takeDigits] at h
    cases hd : Text.digitValue? c with
    | none =>
      rw [hd] at h
      obtain ⟨rfl, rfl⟩ := Prod.mk.inj h
      exact ⟨[], rfl, .nil⟩
    | some d =>
      rw [hd] at h
      obtain ⟨rfl, rfl⟩ := Prod.mk.inj h
      obtain ⟨run, hcs, hrun⟩ := ih rfl
      exact ⟨c :: run, congrArg (c :: ·) hcs, .cons hd hrun⟩

/-- Digits are taken off up to the first character that is none. -/
theorem takeDigits_append {run rest : List Char} {ds : List Nat} (h : SpellsDigits run ds)
    (hr : StopsDigits rest) : takeDigits (run ++ rest) = (ds, rest) := by
  induction h with
  | nil =>
    cases rest with
    | nil => rfl
    | cons c rest => rw [List.nil_append, takeDigits, hr c rfl]
  | cons hd _ ih => rw [List.cons_append, takeDigits, hd, ih]

theorem takeSign_sound {cs rest : List Char} {negative : Bool}
    (h : takeSign cs = (negative, rest)) :
    ∃ sign, cs = sign ++ rest ∧ SpellsSign sign negative := by
  unfold takeSign at h
  split at h
  · obtain ⟨rfl, rfl⟩ := Prod.mk.inj h
    exact ⟨['-'], rfl, .minus⟩
  · obtain ⟨rfl, rfl⟩ := Prod.mk.inj h
    exact ⟨['+'], rfl, .plus⟩
  · obtain ⟨rfl, rfl⟩ := Prod.mk.inj h
    exact ⟨[], rfl, .absent⟩

theorem takeSign_append {sign rest : List Char} {negative : Bool} (h : SpellsSign sign negative)
    (hr : StartsNumber rest) : takeSign (sign ++ rest) = (negative, rest) := by
  cases h with
  | absent =>
    obtain ⟨c, hc, hstart⟩ := hr
    rw [List.nil_append]
    unfold takeSign
    -- neither a point nor a digit is a sign
    split
    · obtain rfl := Option.some.inj hc
      exact absurd hstart (by decide)
    · obtain rfl := Option.some.inj hc
      exact absurd hstart (by decide)
    · rfl
  | plus => rfl
  | minus => rfl

theorem takeFraction_sound {cs rest : List Char} {es : List Nat}
    (h : takeFraction cs = (es, rest)) : ∃ fs, cs = fs ++ rest ∧ SpellsFraction fs es := by
  unfold takeFraction at h
  split at h
  · obtain ⟨run, rfl, hrun⟩ := takeDigits_sound h
    exact ⟨'.' :: run, rfl, .present hrun⟩
  · obtain ⟨rfl, rfl⟩ := Prod.mk.inj h
    exact ⟨[], rfl, .absent⟩

theorem takeFraction_append {fs cs : List Char} {es : List Nat} {e : Int}
    (hf : SpellsFraction fs es) (he : SpellsExponent cs e) :
    takeFraction (fs ++ cs) = (es, cs) := by
  cases hf with
  | present h => exact takeDigits_append h (stopsDigits_exponent he)
  | absent =>
    cases he with
    | absent => rfl
    | present hl _ _ _ => rcases hl with rfl | rfl <;> rfl

/-- The whole text is an exponent. -/
theorem readExponent?_eq_some_iff {cs : List Char} {e : Int} :
    readExponent? cs = some e ↔ SpellsExponent cs e := by
  constructor
  · intro h
    unfold readExponent? at h
    split at h
    · obtain rfl := Option.some.inj h
      exact .absent
    · next letter cs =>
      split at h
      · next hletter =>
        rcases hsign : takeSign cs with ⟨negative, digits⟩
        rcases hdigits : takeDigits digits with ⟨ds, rest⟩
        simp only [hsign, hdigits] at h
        split at h
        · next d ds heq =>
          obtain ⟨rfl, rfl⟩ := Prod.mk.inj heq
          obtain rfl := Option.some.inj h
          obtain ⟨sign, rfl, hs⟩ := takeSign_sound hsign
          obtain ⟨run, rfl, hrun⟩ := takeDigits_sound hdigits
          rw [List.append_nil]
          exact .present (by simpa using hletter) hs hrun (List.cons_ne_nil _ _)
        · cases h
      · cases h
  · intro h
    cases h with
    | absent => rfl
    | @present letter sign cs negative ds hl hs h hne =>
      have hletter : (letter == 'e' || letter == 'E') = true := by simpa using hl
      have hstart := startsNumber_digits h hne []
      have hend : StopsDigits [] := by simp [StopsDigits]
      have hdigits := takeDigits_append h hend
      rw [List.append_nil] at hstart hdigits
      rw [readExponent?, if_pos hletter]
      simp only [takeSign_append hs hstart, hdigits]
      cases ds with
      | nil => exact absurd rfl hne
      | cons d ds => rfl

/-! ## Whole numerals -/

theorem spells_of_read? {cs : List Char} {n : Numeral} (h : read? cs = some n) : Spells cs n := by
  unfold read? at h
  rcases hsign : takeSign cs with ⟨negative, behind⟩
  rcases hwhole : takeDigits behind with ⟨ds, behind'⟩
  rcases hfraction : takeFraction behind' with ⟨es, exponent⟩
  simp only [hsign, hwhole, hfraction] at h
  split at h
  · cases h
  · next hne =>
    obtain ⟨e, he, rfl⟩ := Option.map_eq_some_iff.1 h
    have hexponent := readExponent?_eq_some_iff.1 he
    obtain ⟨sign, rfl, hs⟩ := takeSign_sound hsign
    obtain ⟨run, rfl, hrun⟩ := takeDigits_sound hwhole
    obtain ⟨fs, rfl, hf⟩ := takeFraction_sound hfraction
    rw [← List.append_assoc run]
    refine .parts hs ?_ hexponent
    cases ds with
    | cons d ds => exact .whole hrun (List.cons_ne_nil _ _) hf
    | nil =>
      -- without digits before the point there are some after it
      cases hrun
      cases hf with
      | absent => exact absurd rfl hne
      | present h => exact .point h (by simpa using hne)

theorem read?_of_spells {cs : List Char} {n : Numeral} (h : Spells cs n) : read? cs = some n := by
  cases h with
  | @parts sign mantissa exponent negative ds es e hs hm he =>
    have hsign := takeSign_append hs (startsNumber_mantissa hm exponent)
    have hexponent := readExponent?_eq_some_iff.2 he
    unfold read?
    simp only [hsign]
    cases hm with
    | @whole cs fs _ _ h hne hf =>
      rw [List.append_assoc]
      simp only [takeDigits_append h (stopsDigits_fraction hf he), takeFraction_append hf he,
        hexponent, Option.map_some]
      simp [hne]
    | @point cs _ h hne =>
      have hpoint : takeDigits ('.' :: (cs ++ exponent)) = ([], '.' :: (cs ++ exponent)) := rfl
      have hfraction := takeFraction_append (.present h) he
      rw [List.cons_append] at hfraction ⊢
      simp only [hpoint, hfraction, hexponent, Option.map_some]
      simp [hne]

/-- **Exactly the numerals are read**, each as the number that it writes. -/
theorem read?_eq_some_iff {cs : List Char} {n : Numeral} : read? cs = some n ↔ Spells cs n :=
  ⟨spells_of_read?, read?_of_spells⟩

/-! ## The characters of numerals -/

/-- Digits, signs, the point and the letters of an exponent. -/
def IsNumeric (c : Char) : Prop :=
  (Text.digitValue? c).isSome = true ∨ c ∈ ['+', '-', '.', 'e', 'E']

instance : DecidablePred IsNumeric :=
  fun c => inferInstanceAs (Decidable ((Text.digitValue? c).isSome = true ∨ c ∈ _))

theorem SpellsDigits.isNumeric {cs : List Char} {ds : List Nat} (h : SpellsDigits cs ds) :
    ∀ c ∈ cs, IsNumeric c := by
  induction h with
  | nil => simp
  | cons hd _ ih => exact List.forall_mem_cons.2 ⟨.inl (by rw [hd]; rfl), ih⟩

theorem SpellsSign.isNumeric {cs : List Char} {negative : Bool} (h : SpellsSign cs negative) :
    ∀ c ∈ cs, IsNumeric c := by
  cases h with
  | absent => simp
  | plus => exact List.forall_mem_singleton.2 (.inr (by decide))
  | minus => exact List.forall_mem_singleton.2 (.inr (by decide))

theorem SpellsMantissa.isNumeric {cs : List Char} {ds es : List Nat} (h : SpellsMantissa cs ds es) :
    ∀ c ∈ cs, IsNumeric c := by
  have hpoint : IsNumeric '.' := .inr (by decide)
  cases h with
  | point h _ => exact List.forall_mem_cons.2 ⟨hpoint, h.isNumeric⟩
  | whole h _ hf =>
    refine List.forall_mem_append.2 ⟨h.isNumeric, ?_⟩
    cases hf with
    | absent => simp
    | present h => exact List.forall_mem_cons.2 ⟨hpoint, h.isNumeric⟩

theorem SpellsExponent.isNumeric {cs : List Char} {e : Int} (h : SpellsExponent cs e) :
    ∀ c ∈ cs, IsNumeric c := by
  cases h with
  | absent => simp
  | present hl hs h _ =>
    refine List.forall_mem_cons.2 ⟨.inr ?_, List.forall_mem_append.2 ⟨hs.isNumeric, h.isNumeric⟩⟩
    rcases hl with rfl | rfl <;> decide

theorem Spells.isNumeric {cs : List Char} {n : Numeral} (h : Spells cs n) :
    ∀ c ∈ cs, IsNumeric c := by
  cases h with
  | parts hs hm he =>
    exact List.forall_mem_append.2
      ⟨hs.isNumeric, List.forall_mem_append.2 ⟨hm.isNumeric, he.isNumeric⟩⟩

/-- A text with a parenthesis is no numeral. -/
theorem read?_eq_none_of_mem {cs : List Char} (h : '(' ∈ cs) : read? cs = none := by
  cases hread : read? cs with
  | none => rfl
  | some n => exact absurd ((read?_eq_some_iff.1 hread).isNumeric _ h) (by decide)

theorem Spells.ne_nil {cs : List Char} {n : Numeral} (h : Spells cs n) : cs ≠ [] := by
  rintro rfl
  have hread := read?_eq_some_iff.2 h
  cases hread

/-- No script has its digits among the blanks. -/
theorem digitZeros_apart :
    Text.digitZeros.all (fun z => Text.blankRanges.all (Text.apart (z, z + 9))) = true := by
  decide +kernel

theorem isBlank_of_digitValue? {c : Char} {d : Nat} (h : Text.digitValue? c = some d) :
    Text.isBlank c = false := by
  unfold Text.digitValue? at h
  split at h
  · next hc =>
    split at h
    · next hdigit =>
      apply Text.isBlank_of_isWord
      simp [Text.isWord, Char.isAlphanum, hc, hdigit]
    · cases h
  · next hc =>
    obtain ⟨z, hz, -⟩ := Option.map_eq_some_iff.1 h
    have hin := List.find?_some hz
    have hmem := List.mem_of_find?_eq_some hz
    cases hb : Text.isBlank c with
    | false => rfl
    | true =>
      obtain ⟨s, hs, hin'⟩ := List.any_eq_true.1 (Text.inRanges_blankRanges hb hc)
      have hapart := List.all_eq_true.1 (List.all_eq_true.1 digitZeros_apart z hmem) s hs
      simp only [Text.apart, Bool.or_eq_true, Bool.and_eq_true, decide_eq_true_eq]
        at hapart hin hin'
      omega

theorem isBlank_of_isNumeric {c : Char} (h : IsNumeric c) : Text.isBlank c = false := by
  rcases h with h | h
  · obtain ⟨d, hd⟩ := Option.isSome_iff_exists.1 h
    exact isBlank_of_digitValue? hd
  · have hall : ['+', '-', '.', 'e', 'E'].all (fun c => !Text.isBlank c) = true := by decide
    simpa using List.all_eq_true.1 hall c h

end Numeral

/-! ## The weight in front of a clause -/

/-- `Weight = {blank} Numeral blank {blank}`, and what follows it up to the end of the text. -/
inductive Weighted : List Char → Numeral → List Char → Prop where
  | parts {front word gap rest : List Char} {n : Numeral}
    (hfront : ∀ c ∈ front, Text.isBlank c = true) (hword : Numeral.Spells word n)
    (hgap : ∀ c ∈ gap, Text.isBlank c = true) (hne : gap ≠ [])
    (hrest : ∀ c ∈ rest.head?, Text.isBlank c = false) :
    Weighted (front ++ (word ++ (gap ++ rest))) n rest

section WeightSplit

variable {front word gap rest : List Char} (hfront : ∀ c ∈ front, Text.isBlank c = true)
  (hword : ∀ c ∈ word, Text.isBlank c = false) (hgap : ∀ c ∈ gap, Text.isBlank c = true)

include hfront hword

theorem splitWeight?_of_word (hstart : ∀ c ∈ word.head?, Text.isBlank c = false) :
    splitWeight? (front ++ word) = none := by
  have hword : ∀ c ∈ word, (!Text.isBlank c) = true := by simpa using hword
  have hend : ∀ c ∈ ([] : List Char).head?, (!Text.isBlank c) = false := by simp
  have hdrop := Text.dropWhile_append_of_stop hword hend
  rw [List.append_nil] at hdrop
  unfold splitWeight?
  simp only [Text.dropWhile_append_of_stop hfront hstart, hdrop]

include hgap

/-- The first word decides, if a blank follows it. -/
theorem splitWeight?_of_parts (hne : gap ≠ [])
    (hstart : ∀ c ∈ (word ++ (gap ++ rest)).head?, Text.isBlank c = false)
    (hrest : ∀ c ∈ rest.head?, Text.isBlank c = false) :
    splitWeight? (front ++ (word ++ (gap ++ rest))) =
      (Numeral.read? word).map fun n => (n, rest) := by
  have hword : ∀ c ∈ word, (!Text.isBlank c) = true := by simpa using hword
  obtain ⟨b, gap, rfl⟩ := List.exists_cons_of_ne_nil hne
  have hend : ∀ c ∈ (b :: gap ++ rest).head?, (!Text.isBlank c) = false := by
    intro c hc
    obtain rfl := Option.some.inj hc
    simp [hgap _ List.mem_cons_self]
  have hdrop := Text.dropWhile_append_of_stop hgap hrest
  rw [List.cons_append] at hstart hend hdrop ⊢
  unfold splitWeight?
  simp only [Text.dropWhile_append_of_stop hfront hstart,
    Text.takeWhile_append_of_stop hword hend, Text.dropWhile_append_of_stop hword hend, hdrop]

end WeightSplit

/-- **A weight is cut off exactly where one stands in front**, with all blanks behind it. -/
theorem splitWeight?_eq_some_iff {cs rest : List Char} {n : Numeral} :
    splitWeight? cs = some (n, rest) ↔ Weighted cs n rest := by
  constructor
  · intro h
    obtain ⟨front, cs, rfl, hfront, hstart⟩ := Text.exists_run Text.isBlank cs
    obtain ⟨word, cs, rfl, hword, hend⟩ := Text.exists_run (fun c => !Text.isBlank c) cs
    obtain ⟨gap, rest', rfl, hgap, hrest⟩ := Text.exists_run Text.isBlank cs
    have hword : ∀ c ∈ word, Text.isBlank c = false := by simpa using hword
    by_cases hne : gap = []
    · -- what follows the word starts with a blank, and there is none
      subst hne
      obtain rfl : rest' = [] := by
        cases rest' with
        | nil => rfl
        | cons c rest' =>
          have hblank := hend c rfl
          rw [hrest c rfl] at hblank
          cases hblank
      rw [List.nil_append, List.append_nil] at h hstart
      rw [splitWeight?_of_word hfront hword hstart] at h
      cases h
    · rw [splitWeight?_of_parts hfront hword hgap hne hstart hrest] at h
      obtain ⟨m, hread, h⟩ := Option.map_eq_some_iff.1 h
      obtain ⟨rfl, rfl⟩ := Prod.mk.inj h
      exact .parts hfront (Numeral.read?_eq_some_iff.1 hread) hgap hne hrest
  · intro h
    cases h with
    | @parts front word gap rest n hfront hword hgap hne hrest =>
      have hblank : ∀ c ∈ word, Text.isBlank c = false :=
        fun c hc => Numeral.isBlank_of_isNumeric (hword.isNumeric c hc)
      have hstart : ∀ c ∈ (word ++ (gap ++ rest)).head?, Text.isBlank c = false := by
        obtain ⟨d, word, rfl⟩ := List.exists_cons_of_ne_nil hword.ne_nil
        intro c hc
        obtain rfl := Option.some.inj hc
        exact hblank _ List.mem_cons_self
      rw [splitWeight?_of_parts hfront hblank hgap hne hstart hrest,
        Numeral.read?_eq_some_iff.2 hword]
      rfl

theorem Weighted.suffix {cs rest : List Char} {n : Numeral} (h : Weighted cs n rest) :
    rest <:+ cs := by
  cases h with
  | @parts front word gap rest n _ _ _ _ _ => exact ⟨front ++ (word ++ gap), by simp⟩

/-- A text has at most one weight in front. -/
theorem Weighted.unique {cs rest rest' : List Char} {n m : Numeral} (h : Weighted cs n rest)
    (h' : Weighted cs m rest') : n = m ∧ rest = rest' := by
  have heq := (splitWeight?_eq_some_iff.2 h).symm.trans (splitWeight?_eq_some_iff.2 h')
  exact Prod.mk.inj (Option.some.inj heq)

end MarkovLogic
