import MarkovLogic.Proofs.AtomSpace.Layout
import MarkovLogic.Proofs.AtomSpace.Places
import MarkovLogic.Proofs.Distinct

/-!
# Numbers stay within their space

A number that a space gives to an atom lies between 1 and the size of the space, also where a
predicate is listed again or a domain repeats symbols (`range_of_encode`): the last block of a
predicate ends within the space (`allocate_bounds`), and a place lies below the number of tuples
(`tuplePlace_lt`).
-/

namespace MarkovLogic

namespace AtomSpace

theorem radix_le_length (pool : List String) : radix pool ≤ pool.length :=
  (eraseDups_sublist pool).length_le

/-- A place behind another one stays below the tuples that start there. -/
theorem tuplePlace_lt {symbols : Table (Option String) (List String)} :
    ∀ {places : List (Option String)} {tuple : List String} {p n : Nat},
      tuple.length = places.length → tuplePlace symbols p places tuple = .ok n →
      n < (p + 1) * volume (pools symbols places) := by
  intro places
  induction places with
  | nil =>
    intro tuple p n hl h
    obtain rfl := List.length_eq_zero_iff.1 hl
    rw [tuplePlace] at h
    · obtain rfl := Except.ok.inj h
      simp [pools, volume]
    · simp
  | cons d places ih =>
    intro tuple p n hl h
    cases tuple with
    | nil => cases hl
    | cons s rest =>
      rw [tuplePlace] at h
      cases hpos : position? ((symbols.get? d).getD []) s with
      | none => simp [hpos] at h
      | some i =>
        simp only [hpos] at h
        have hrest := ih (by simpa using hl) h
        have hi : i < ((symbols.get? d).getD []).length :=
          (List.getElem?_eq_some_iff.1 (getElem?_of_position? hpos)).1
        have hradix := Nat.mul_le_mul_left p (radix_le_length ((symbols.get? d).getD []))
        have hstep : p * radix ((symbols.get? d).getD []) + i + 1 ≤
            (p + 1) * ((symbols.get? d).getD []).length := by
          rw [Nat.add_mul]
          omega
        calc n
          _ < (p * radix ((symbols.get? d).getD []) + i + 1) * volume (pools symbols places) :=
            hrest
          _ ≤ (p + 1) * ((symbols.get? d).getD []).length * volume (pools symbols places) :=
            Nat.mul_le_mul_right _ hstep
          _ = (p + 1) * volume (pools symbols (d :: places)) := Nat.mul_assoc ..

/-- A recorded start is an old one, or its block lies in the part that is given out. -/
theorem allocate_bounds (size : Signature → Nat) {s : Signature} {start : Nat}
    (ps : List Signature) : ∀ (starts : Table Signature Nat) next,
      (allocate size starts next ps).1.get? s = some start → starts.get? s = some start ∨
        (next ≤ start ∧ start + size s ≤ next + (ps.map size).sum) := by
  induction ps with
  | nil => intro starts next h; exact .inl h
  | cons p ps ih =>
    intro starts next h
    rw [allocate] at h
    rw [List.map_cons, List.sum_cons]
    rcases ih _ _ h with hold | ⟨hlow, hhigh⟩
    · rw [Table.get?_insert] at hold
      by_cases hs : s = p
      · rw [if_pos hs, Option.some.injEq] at hold
        subst hs hold
        exact .inr ⟨Nat.le_refl _, by omega⟩
      · rw [if_neg hs] at hold
        exact .inl hold
    · exact .inr ⟨by omega, by omega⟩

theorem encode_eq_ok_cases {space : AtomSpace} {s : Signature} {tuple : List String} {id : Nat}
    (h : space.encode s tuple = .ok id) : ∃ start place, space.starts.get? s = some start ∧
      tuple.length = ((space.schema.get? s).getD []).length ∧
      tuplePlace space.symbols 0 ((space.schema.get? s).getD []) tuple = .ok place ∧
      id = start + place := by
  unfold encode at h
  cases hstart : space.starts.get? s with
  | none => simp [hstart] at h
  | some start =>
    simp only [hstart] at h
    by_cases hl : tuple.length = ((space.schema.get? s).getD []).length
    · rw [if_neg (not_not_intro hl)] at h
      obtain ⟨place, hplace, h⟩ := bind_eq_ok_iff.1 h
      exact ⟨start, place, rfl, hl, hplace, (Except.ok.inj h).symm⟩
    · rw [if_pos hl] at h
      cases h

/-- **Every number that encoding gives lies within the space.** -/
theorem range_of_encode {schema : PredicateSchema} {domains : Domains}
    {query hidden : List Signature} {space : AtomSpace}
    (hb : build schema domains query hidden = .ok space) {s : Signature} {tuple : List String}
    {id : Nat} (h : space.encode s tuple = .ok id) : 1 ≤ id ∧ id ≤ space.size := by
  obtain ⟨start, place, hstart, hl, hplace, rfl⟩ := encode_eq_ok_cases h
  have hlt := tuplePlace_lt hl hplace
  obtain ⟨-, symbols, -, rfl⟩ := build_cases hb
  rcases allocate_bounds _ _ _ _ hstart with hold | ⟨hlow, hhigh⟩
  · cases hold
  · change place < (0 + 1) * blockSize schema symbols s at hlt
    change 1 ≤ start + place ∧
      start + place ≤ ((query ++ hidden).map (blockSize schema symbols)).sum
    omega

end AtomSpace

end MarkovLogic
