import MarkovLogic.Number
import MarkovLogic.Proofs.Reading.NumeralGrammar

/-!
# Written numbers are numerals

The full text of a finite value is a row of digits with an optional point and an optional exponent
(`Numeral.IsPlain`) behind an optional minus sign, hence a numeral
(`Numeral.exists_spells_realChars`), and none of its characters is blank. The values that are not
finite are written as words, and these are no numerals (`Numeral.read?_realChars_eq_none`).
-/

namespace MarkovLogic

namespace Numeral

/-! ## Digits -/

/-- All characters are the ASCII digits. -/
def IsDigits (cs : List Char) : Prop :=
  ∀ c ∈ cs, c.isDigit = true

theorem digitValue?_of_isDigit {c : Char} (h : c.isDigit = true) :
    Text.digitValue? c = some (c.toNat - 48) := by
  have : 48 ≤ c.toNat ∧ c.toNat ≤ 57 := Char.isDigit_iff_toNat.1 h
  rw [Text.digitValue?, if_pos (by omega), if_pos h]

theorem spellsDigits_of_isDigits {cs : List Char} (h : IsDigits cs) :
    SpellsDigits cs (cs.map fun c => c.toNat - 48) :=
  List.forall₂_map_right_iff.2 (List.forall₂_same.2 fun c hc => digitValue?_of_isDigit (h c hc))

theorem isDigits_append {cs ds : List Char} (hc : IsDigits cs) (hd : IsDigits ds) :
    IsDigits (cs ++ ds) := by
  intro c h
  rcases List.mem_append.1 h with h | h
  · exact hc c h
  · exact hd c h

theorem isDigits_replicate_zero (n : Nat) : IsDigits (List.replicate n '0') := by
  intro c h
  rw [List.eq_of_mem_replicate h]
  decide

theorem isDigits_toDigits (n : Nat) : IsDigits (Nat.toDigits 10 n) :=
  fun _ h => Nat.isDigit_of_mem_toDigits (by decide) (by decide) h

/-! ## Plain numerals -/

/-- Digits, then perhaps a point and digits, then perhaps an exponent. -/
def IsPlain (cs : List Char) : Prop :=
  ∃ whole point exponent, cs = whole ++ (point ++ exponent) ∧ IsDigits whole ∧ whole ≠ [] ∧
    (point = [] ∨ ∃ ds, point = '.' :: ds ∧ IsDigits ds) ∧
    (exponent = [] ∨ ∃ s ds, exponent = 'e' :: s :: ds ∧ (s = '-' ∨ s = '+') ∧ IsDigits ds ∧
      ds ≠ [])

theorem exists_spellsFraction {point : List Char}
    (h : point = [] ∨ ∃ ds, point = '.' :: ds ∧ IsDigits ds) : ∃ es, SpellsFraction point es := by
  rcases h with rfl | ⟨ds, rfl, hds⟩
  · exact ⟨[], .absent⟩
  · exact ⟨_, .present (spellsDigits_of_isDigits hds)⟩

theorem exists_spellsExponent {exponent : List Char} (h : exponent = [] ∨ ∃ s ds,
    exponent = 'e' :: s :: ds ∧ (s = '-' ∨ s = '+') ∧ IsDigits ds ∧ ds ≠ []) :
    ∃ e, SpellsExponent exponent e := by
  rcases h with rfl | ⟨s, ds, rfl, hs, hds, hne⟩
  · exact ⟨0, .absent⟩
  · have hdigits := spellsDigits_of_isDigits hds
    have hne' : (ds.map fun c => c.toNat - 48) ≠ [] := by simpa using hne
    rcases hs with rfl | rfl
    · exact ⟨_, .present (.inl rfl) .minus hdigits hne'⟩
    · exact ⟨_, .present (.inl rfl) .plus hdigits hne'⟩

/-- Behind an optional minus sign a plain numeral is a numeral. -/
theorem exists_spells_of_isPlain {cs : List Char} (h : IsPlain cs) (negative : Bool) :
    ∃ n, Spells ((if negative then ['-'] else []) ++ cs) n := by
  obtain ⟨whole, point, exponent, rfl, hw, hne, hp, he⟩ := h
  obtain ⟨es, hfraction⟩ := exists_spellsFraction hp
  obtain ⟨e, hexponent⟩ := exists_spellsExponent he
  have hsign : SpellsSign (if negative then ['-'] else []) negative := by
    cases negative with
    | true => exact .minus
    | false => exact .absent
  have hne' : (whole.map fun c => c.toNat - 48) ≠ [] := by simpa using hne
  rw [← List.append_assoc whole]
  exact ⟨_, .parts hsign (.whole (spellsDigits_of_isDigits hw) hne' hfraction) hexponent⟩

/-! ## Layouts -/

theorem isPlain_of_isDigits {whole : List Char} (hw : IsDigits whole) (hne : whole ≠ []) :
    IsPlain whole :=
  ⟨whole, [], [], by simp, hw, hne, .inl rfl, .inl rfl⟩

theorem isPlain_of_point {whole ds : List Char} (hw : IsDigits whole) (hne : whole ≠ [])
    (hds : IsDigits ds) : IsPlain (whole ++ '.' :: ds) :=
  ⟨whole, '.' :: ds, [], by simp, hw, hne, .inr ⟨ds, rfl, hds⟩, .inl rfl⟩

theorem isDigits_take {cs : List Char} (h : IsDigits cs) (n : Nat) : IsDigits (cs.take n) :=
  fun c hc => h c (List.mem_of_mem_take hc)

theorem isDigits_drop {cs : List Char} (h : IsDigits cs) (n : Nat) : IsDigits (cs.drop n) :=
  fun c hc => h c (List.mem_of_mem_drop hc)

theorem exponentPart_eq (e : Int) : ∃ s ds, Layout.exponentPart e = 'e' :: s :: ds ∧
    (s = '-' ∨ s = '+') ∧ IsDigits ds ∧ ds ≠ [] := by
  refine ⟨if e < 0 then '-' else '+',
    List.replicate (2 - (Nat.toDigits 10 e.natAbs).length) '0' ++ Nat.toDigits 10 e.natAbs,
    rfl, ?_, ?_, ?_⟩
  · split
    · exact .inl rfl
    · exact .inr rfl
  · exact isDigits_append (isDigits_replicate_zero _) (isDigits_toDigits _)
  · intro hnil
    exact Nat.toDigits_ne_nil (List.append_eq_nil_iff.1 hnil).2

/-- Every layout writes a plain numeral. -/
theorem isPlain_write (layout : Layout) (d : Decimal) : IsPlain (layout.write d) := by
  have hd : IsDigits d.digits := isDigits_toDigits _
  have hne : d.digits ≠ [] := Nat.toDigits_ne_nil
  unfold Layout.write
  simp only
  split
  · split
    · exact isPlain_of_point (isDigits_replicate_zero 1) (by decide)
        (isDigits_append (isDigits_replicate_zero _) hd)
    · split
      · have hwhole := isDigits_append hd
          (isDigits_replicate_zero (d.leading.toNat + 1 - d.digits.length))
        split
        · exact isPlain_of_point hwhole (by simp [hne]) (isDigits_replicate_zero 1)
        · rw [List.append_nil]
          exact isPlain_of_isDigits hwhole (by simp [hne])
      · exact isPlain_of_point (isDigits_take hd _) (by simp [hne]) (isDigits_drop hd _)
  · refine ⟨d.digits.take 1, if d.digits.length ≤ 1 then [] else '.' :: d.digits.drop 1,
      Layout.exponentPart d.leading, List.append_assoc _ _ _, isDigits_take hd 1, by simp [hne],
      ?_, .inr (exponentPart_eq _)⟩
    split
    · exact .inl rfl
    · exact .inr ⟨_, rfl, isDigits_drop hd 1⟩

/-! ## Full texts -/

theorem realChars_eq {x : Float} (h : (Binary.ofFloat? x).isSome = true) :
    ∃ cs, IsPlain cs ∧ Number.realChars x = (if signBit x then ['-'] else []) ++ cs := by
  obtain ⟨b, hb⟩ := Option.isSome_iff_exists.1 h
  refine ⟨_, isPlain_write Number.fullLayout b.shortest, ?_⟩
  unfold Number.realChars Layout.writeFloat
  rw [hb]

theorem exists_spells_realChars {x : Float} (h : (Binary.ofFloat? x).isSome = true) :
    ∃ n, Spells (Number.realChars x) n := by
  obtain ⟨cs, hcs, he⟩ := realChars_eq h
  rw [he]
  exact exists_spells_of_isPlain hcs _

/-- **The full text of a finite value is a numeral.** -/
theorem exists_read?_realChars {x : Float} (h : (Binary.ofFloat? x).isSome = true) :
    ∃ n, read? (Number.realChars x) = some n := by
  obtain ⟨n, hn⟩ := exists_spells_realChars h
  exact ⟨n, read?_eq_some_iff.2 hn⟩

/-- The full texts of values that are not finite. -/
def realWords : List (List Char) :=
  [['n', 'a', 'n'], ['i', 'n', 'f'], ['-', 'i', 'n', 'f']]

theorem realChars_mem_words {x : Float} (h : Binary.ofFloat? x = none) :
    Number.realChars x ∈ realWords := by
  unfold Number.realChars Layout.writeFloat realWords
  rw [h]
  simp only
  split
  · simp
  · cases signBit x <;> simp

/-- **The full text of a value that is not finite is no numeral.** -/
theorem read?_realChars_eq_none {x : Float} (h : Binary.ofFloat? x = none) :
    read? (Number.realChars x) = none := by
  have hwords : ∀ cs ∈ realWords, read? cs = none := by decide
  exact hwords _ (realChars_mem_words h)

/-- The full text of a value has no blanks and is not empty. -/
theorem isBlank_of_mem_realChars (x : Float) :
    Number.realChars x ≠ [] ∧ ∀ c ∈ Number.realChars x, Text.isBlank c = false := by
  cases hx : Binary.ofFloat? x with
  | none =>
    have hwords : ∀ cs ∈ realWords, cs ≠ [] ∧ (cs.all fun c => !Text.isBlank c) = true := by
      decide
    obtain ⟨hne, hall⟩ := hwords _ (realChars_mem_words hx)
    exact ⟨hne, fun c hc => by simpa using List.all_eq_true.1 hall c hc⟩
  | some b =>
    obtain ⟨n, hn⟩ := exists_spells_realChars (x := x) (by rw [hx]; rfl)
    exact ⟨hn.ne_nil, fun c hc => isBlank_of_isNumeric (hn.isNumeric c hc)⟩

end Numeral

end MarkovLogic
