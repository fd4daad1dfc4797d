import MarkovLogic.AtomSpace.Codec
import MarkovLogic.Proofs.Distinct
import MarkovLogic.Proofs.Tuples

/-!
# Places of tuples

Over lists without repeated symbols `AtomSpace.tuplePlace` computes the index of a tuple in
`tuples` (`tuplePlace_of_getElem?`) and refuses every other tuple (`tuplePlace_of_notMem`), and
`AtomSpace.tupleAt` takes an index apart again (`tupleAt_of_getElem?`). The bisection finds the
border between the entries up to a number and the entries above it (`bisect_eq`).
-/

namespace MarkovLogic

/-! ## Bisection -/

/-- **The bisection finds the border** `r` between the entries not above `x` and those above it. -/
theorem bisect_eq {entries : Array Nat} {x : Int} {r : Nat}
    (hlow : ∀ j, j < r → ((entries[j]?.getD 0 : Nat) : Int) ≤ x)
    (hhigh : ∀ j, r ≤ j → j < entries.size → x < (entries[j]?.getD 0 : Nat)) (low high : Nat) :
    low ≤ r → r ≤ high → high ≤ entries.size → bisect entries x low high = r := by
  induction low, high using bisect.induct entries x with
  | case1 low high hlt middle hx ih =>
    intro h1 h2 h3
    have hr : r ≤ middle := by
      refine Nat.le_of_not_lt fun hm => ?_
      have := hlow middle hm
      omega
    rw [bisect, if_pos hlt, if_pos hx]
    exact ih h1 hr (by omega)
  | case2 low high hlt middle hx ih =>
    intro h1 h2 h3
    have hr : middle < r := by
      refine Nat.lt_of_not_le fun hm => hx (hhigh middle hm (by omega))
    rw [bisect, if_pos hlt, if_neg hx]
    exact ih hr h2 h3
  | case3 low high hlt =>
    intro h1 h2 _
    rw [bisect, if_neg hlt]
    omega

namespace AtomSpace

/-! ## Positions in one list -/

theorem radix_of_nodup {pool : List String} (h : pool.Nodup) : radix pool = pool.length := by
  rw [radix, eraseDups_of_nodup h]

theorem mem_zipIdx_reverse {pool : List String} {e : String × Nat} :
    e ∈ pool.zipIdx.reverse ↔ pool[e.2]? = some e.1 := by
  rw [List.mem_reverse]
  exact List.mk_mem_zipIdx_iff_getElem?

theorem getElem?_of_position? {pool : List String} {s : String} {i : Nat}
    (h : position? pool s = some i) : pool[i]? = some s := by
  obtain ⟨⟨t, j⟩, he, rfl⟩ := Option.map_eq_some_iff.1 h
  have ht : t = s := by simpa using List.find?_some he
  exact ht ▸ mem_zipIdx_reverse.1 (List.mem_of_find?_eq_some he)

theorem position?_eq_none_iff {pool : List String} {s : String} :
    position? pool s = none ↔ s ∉ pool := by
  unfold position?
  rw [Option.map_eq_none_iff, List.find?_eq_none]
  constructor
  · intro h hs
    obtain ⟨i, hi⟩ := List.getElem?_of_mem hs
    exact h (s, i) (mem_zipIdx_reverse.2 hi) (by simp)
  · rintro h ⟨t, i⟩ he
    have ht : t ∈ pool := List.mem_of_getElem? (mem_zipIdx_reverse.1 he)
    rw [decide_eq_true_eq]
    rintro rfl
    exact h ht

/-- In a list without repeats the position of a symbol is the index that holds it. -/
theorem position?_eq_some_iff {pool : List String} (h : pool.Nodup) {s : String} {i : Nat} :
    position? pool s = some i ↔ pool[i]? = some s := by
  refine ⟨getElem?_of_position?, fun hi => ?_⟩
  cases hp : position? pool s with
  | none => exact absurd (List.mem_of_getElem? hi) (position?_eq_none_iff.1 hp)
  | some j =>
    have hj := getElem?_of_position? hp
    have hlt : i < pool.length := (List.getElem?_eq_some_iff.1 hi).1
    rw [(List.getElem?_inj hlt h).1 (hi.trans hj.symm)]

/-! ## Places of whole tuples -/

section Place

variable {symbols : Table (Option String) (List String)}

/-- The place of a listed tuple is its index. -/
theorem tuplePlace_of_getElem? :
    ∀ {places : List (Option String)} {tuple : List String} {p k : Nat},
      (∀ pool ∈ pools symbols places, pool.Nodup) →
      (tuples (pools symbols places))[k]? = some tuple →
      tuplePlace symbols p places tuple = .ok (p * volume (pools symbols places) + k) := by
  intro places
  induction places with
  | nil =>
    intro tuple p k _ ht
    have hk : k = 0 := by
      have := lt_volume_of_getElem? ht
      simp only [pools, List.map_nil, volume] at this
      omega
    subst hk
    have htuple : tuple = [] := by simpa [pools, tuples] using ht.symm
    subst htuple
    rw [tuplePlace]
    · simp [pools, volume]
    · simp
  | cons d places ih =>
    intro tuple p k hn ht
    have hp : pools symbols (d :: places) = (symbols.get? d).getD [] :: pools symbols places := rfl
    rw [hp] at hn ht ⊢
    rw [getElem?_tuples_cons] at ht
    obtain ⟨s, hs, ht⟩ := Option.bind_eq_some_iff.1 ht
    obtain ⟨rest, hrest, rfl⟩ := Option.map_eq_some_iff.1 ht
    have hpool := hn _ List.mem_cons_self
    rw [tuplePlace, (position?_eq_some_iff hpool).2 hs]
    simp only
    rw [ih (fun q hq => hn q (List.mem_cons_of_mem _ hq)) hrest, radix_of_nodup hpool, volume,
      Nat.add_mul, Nat.mul_assoc, Nat.add_assoc, Nat.div_add_mod']

/-- A tuple of the right length that is not listed has a symbol outside its domain, and the first
such symbol is refused. -/
theorem tuplePlace_of_notMem :
    ∀ {places : List (Option String)} {tuple : List String} {p : Nat},
      tuple.length = places.length → tuple ∉ tuples (pools symbols places) →
      ∃ s d, (s, d) ∈ tuple.zip places ∧ s ∉ (symbols.get? d).getD [] ∧
        tuplePlace symbols p places tuple = .error (.notInDomain s d) := by
  intro places
  induction places with
  | nil =>
    intro tuple p hl ht
    rw [List.length_nil, List.length_eq_zero_iff] at hl
    subst hl
    simp [pools, tuples] at ht
  | cons d places ih =>
    intro tuple p hl ht
    cases tuple with
    | nil => cases hl
    | cons s rest =>
      rw [tuplePlace]
      cases hpos : position? ((symbols.get? d).getD []) s with
      | none => exact ⟨s, d, List.mem_cons_self, position?_eq_none_iff.1 hpos, rfl⟩
      | some i =>
        have hs : s ∈ (symbols.get? d).getD [] := List.mem_of_getElem? (getElem?_of_position? hpos)
        have hrest : rest ∉ tuples (pools symbols places) := by
          intro hm
          exact ht ((mem_tuples_iff _ _).2 (.cons hs ((mem_tuples_iff _ _).1 hm)))
        obtain ⟨t, e, hte, hnot, herr⟩ := ih (by simpa using hl) hrest
        exact ⟨t, e, List.mem_cons_of_mem _ hte, hnot, herr⟩

end Place

/-! ## Tuples of places -/

/-- **Taking an index apart gives the tuple at this index**, last element first. -/
theorem tupleAt_of_getElem? :
    ∀ {reversed : List (List String)} {k : Nat} {tuple : List String},
      (tuples reversed.reverse)[k]? = some tuple →
      tupleAt (k : Int) reversed = .ok tuple.reverse := by
  intro reversed
  induction reversed with
  | nil =>
    intro k tuple ht
    have htuple : tuple = [] := by
      have := List.mem_of_getElem? ht
      simpa [tuples] using this
    subst htuple
    rfl
  | cons pool reversed ih =>
    intro k tuple ht
    rw [List.reverse_cons, getElem?_tuples_concat] at ht
    obtain ⟨init, hinit, ht⟩ := Option.bind_eq_some_iff.1 ht
    obtain ⟨s, hs, rfl⟩ := Option.map_eq_some_iff.1 ht
    have hpos : pool.length ≠ 0 := by
      intro h0
      rw [List.eq_nil_of_length_eq_zero h0] at hs
      cases hs
    have hmod : ((k : Int) % (pool.length : Int)).toNat = k % pool.length := by
      rw [← Int.natCast_emod, Int.toNat_natCast]
    rw [tupleAt, if_neg hpos, hmod, hs, ← Int.natCast_ediv, ih hinit, List.reverse_concat]
    rfl

end AtomSpace

end MarkovLogic
