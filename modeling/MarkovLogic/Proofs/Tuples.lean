import MarkovLogic.Grounding.Simplified
import MarkovLogic.AtomSpace.Basic
import Mathlib.Data.List.Forall2

/-!
# Tuples of a product

`tuples pools` lists the tuples with one element of each list, the last element changing fastest.
Its members are exactly these tuples (`mem_tuples_iff`), there are `volume pools` of them, and over
lists that ascend strictly they ascend strictly in the lexicographic order (`tuples_ascending`). The
tuple at a given index has its first element and its rest (`getElem?_tuples_cons`), or its last
element and what precedes it (`getElem?_tuples_concat`), at the quotient and the remainder of that
index.
-/

namespace MarkovLogic

/-! ## Blocks of equal length -/

theorem length_flatMap_map {α β γ : Type} (f : α → β → γ) (ys : List β) (xs : List α) :
    (xs.flatMap fun x => ys.map (f x)).length = xs.length * ys.length := by
  induction xs with
  | nil => simp
  | cons x xs ih =>
    rw [List.flatMap_cons, List.length_append, ih, List.length_map, List.length_cons,
      Nat.succ_mul, Nat.add_comm]

/-- The element of a list of blocks: the quotient of its index selects the block and the remainder
the place in it. -/
theorem getElem?_flatMap_map {α β γ : Type} (f : α → β → γ) (ys : List β) (xs : List α) :
    ∀ k, (xs.flatMap fun x => ys.map (f x))[k]? =
      (xs[k / ys.length]?).bind fun x => (ys[k % ys.length]?).map (f x) := by
  induction xs with
  | nil => intro k; simp
  | cons x xs ih =>
    intro k
    rw [List.flatMap_cons]
    by_cases hk : k < ys.length
    · rw [List.getElem?_append_left (by simpa using hk), Nat.div_eq_of_lt hk, Nat.mod_eq_of_lt hk]
      simp
    · rw [List.getElem?_append_right (by simpa using hk), List.length_map, ih]
      rcases Nat.eq_zero_or_pos ys.length with h0 | hpos
      · rw [List.eq_nil_of_length_eq_zero h0]
        simp
      · have hd : k / ys.length = (k - ys.length) / ys.length + 1 := by
          rw [Nat.div_eq_sub_div hpos (by omega)]
        have hm : k % ys.length = (k - ys.length) % ys.length := Nat.mod_eq_sub_mod (by omega)
        rw [hd, hm, List.getElem?_cons_succ]

/-! ## Members and number -/

theorem mem_tuples_iff (pools : List (List String)) :
    ∀ tuple, tuple ∈ tuples pools ↔ List.Forall₂ (fun s pool => s ∈ pool) tuple pools := by
  induction pools with
  | nil => intro tuple; simp [tuples]
  | cons pool pools ih =>
    intro tuple
    rw [tuples, List.mem_flatMap]
    constructor
    · rintro ⟨s, hs, ht⟩
      obtain ⟨rest, hrest, rfl⟩ := List.mem_map.1 ht
      exact .cons hs ((ih rest).1 hrest)
    · intro h
      cases h with
      | cons hs hrest => exact ⟨_, hs, List.mem_map_of_mem ((ih _).2 hrest)⟩

theorem length_of_mem_tuples {pools : List (List String)} {tuple : List String}
    (h : tuple ∈ tuples pools) : tuple.length = pools.length :=
  ((mem_tuples_iff pools tuple).1 h).length_eq

theorem length_tuples (pools : List (List String)) :
    (tuples pools).length = AtomSpace.volume pools := by
  induction pools with
  | nil => rfl
  | cons pool pools ih => rw [tuples, length_flatMap_map, ih, AtomSpace.volume]

/-- Every index below the volume has a tuple. -/
theorem exists_getElem?_tuples {pools : List (List String)} {k : Nat}
    (h : k < AtomSpace.volume pools) : ∃ tuple, (tuples pools)[k]? = some tuple := by
  rw [← length_tuples] at h
  exact ⟨_, List.getElem?_eq_getElem h⟩

theorem lt_volume_of_getElem? {pools : List (List String)} {k : Nat} {tuple : List String}
    (h : (tuples pools)[k]? = some tuple) : k < AtomSpace.volume pools := by
  rw [← length_tuples]
  exact (List.getElem?_eq_some_iff.1 h).1

/-! ## The tuple at an index -/

theorem getElem?_tuples_cons (pool : List String) (pools : List (List String)) (k : Nat) :
    (tuples (pool :: pools))[k]? = (pool[k / AtomSpace.volume pools]?).bind fun s =>
      ((tuples pools)[k % AtomSpace.volume pools]?).map (s :: ·) := by
  rw [tuples, getElem?_flatMap_map, length_tuples]

theorem tuples_concat (pool : List String) (pools : List (List String)) :
    tuples (pools ++ [pool]) = (tuples pools).flatMap fun t => pool.map fun s => t ++ [s] := by
  induction pools with
  | nil => simp [tuples, List.map_eq_flatMap]
  | cons first pools ih =>
    rw [List.cons_append, tuples, tuples, ih, List.flatMap_assoc]
    congr 1
    funext s
    rw [List.map_flatMap, List.flatMap_map]
    simp [Function.comp_def]

theorem getElem?_tuples_concat (pool : List String) (pools : List (List String)) (k : Nat) :
    (tuples (pools ++ [pool]))[k]? = ((tuples pools)[k / pool.length]?).bind fun t =>
      (pool[k % pool.length]?).map fun s => t ++ [s] := by
  rw [tuples_concat, getElem?_flatMap_map]

/-! ## Order -/

/-- **Tuples ascend** lexicographically when the symbols of each list do. -/
theorem tuples_ascending {pools : List (List String)}
    (h : ∀ pool ∈ pools, pool.Pairwise (· < ·)) : (tuples pools).Pairwise (· < ·) := by
  induction pools with
  | nil => simp [tuples]
  | cons pool pools ih =>
    have ih := ih fun q hq => h q (List.mem_cons_of_mem _ hq)
    rw [tuples, List.pairwise_flatMap]
    constructor
    · intro s _
      rw [List.pairwise_map]
      exact ih.imp fun hlt => List.cons_lt_cons_iff.2 (.inr ⟨rfl, hlt⟩)
    · refine (h pool List.mem_cons_self).imp fun {s t} hst => ?_
      intro a ha b hb
      obtain ⟨a', _, rfl⟩ := List.mem_map.1 ha
      obtain ⟨b', _, rfl⟩ := List.mem_map.1 hb
      exact List.cons_lt_cons_iff.2 (.inl hst)

/-- No tuple is listed twice when no list repeats a symbol. -/
theorem nodup_tuples {pools : List (List String)} (h : ∀ pool ∈ pools, pool.Nodup) :
    (tuples pools).Nodup := by
  induction pools with
  | nil => simp [tuples]
  | cons pool pools ih =>
    have ih := ih fun q hq => h q (List.mem_cons_of_mem _ hq)
    rw [tuples, List.nodup_iff_pairwise_ne, List.pairwise_flatMap]
    constructor
    · intro s _
      rw [List.pairwise_map]
      exact ih.imp fun hne he => hne (List.cons.inj he).2
    · refine (h pool List.mem_cons_self).imp fun {s t} hst => ?_
      intro a ha b hb
      obtain ⟨a', _, rfl⟩ := List.mem_map.1 ha
      obtain ⟨b', _, rfl⟩ := List.mem_map.1 hb
      intro he
      exact hst (List.cons.inj he).1

end MarkovLogic
