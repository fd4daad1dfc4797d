import MarkovLogic.Table
import Mathlib.Algebra.BigOperators.Group.List.Basic
import Mathlib.Data.List.Nodup
import Mathlib.Tactic.Abel

/-!
# Lookups in tables

A look-up and the list of entries determine each other (`get?_eq_some_iff`), the keys are the keys
that a look-up finds (`mem_keys_iff`), and a list of pairs with distinct keys becomes the table with
exactly these entries (`toList_ofList`).
-/

namespace MarkovLogic

namespace Table

variable {κ α : Type}

@[simp]
theorem toList_empty : (empty : Table κ α).toList = [] := rfl

theorem toList_injective {t t' : Table κ α} (h : t.toList = t'.toList) : t = t' := by
  cases t
  cases t'
  cases h
  rfl

variable [DecidableEq κ]

/-! ## One look-up -/

@[simp]
theorem get?_empty (k : κ) : (empty : Table κ α).get? k = none := rfl

/-- **The entries and the look-up agree**: keys are distinct, so the entry that is found first is
the only one with its key. -/
theorem get?_eq_some_iff (t : Table κ α) {k : κ} {a : α} :
    t.get? k = some a ↔ (k, a) ∈ t.toList := by
  unfold get?
  constructor
  · intro h
    obtain ⟨⟨k', a'⟩, he, rfl⟩ := Option.map_eq_some_iff.1 h
    have hk : k' = k := by simpa using List.find?_some he
    exact hk ▸ List.mem_of_find?_eq_some he
  · intro h
    have hn := t.nodup
    generalize t.toList = entries at h hn
    induction entries with
    | nil => cases h
    | cons e rest ih =>
      simp only [List.map_cons, List.nodup_cons] at hn
      rcases List.mem_cons.1 h with rfl | hr
      · simp
      · have hne : e.1 ≠ k := fun he => hn.1 (he ▸ List.mem_map_of_mem (f := Prod.fst) hr)
        rw [List.find?_cons_of_neg (by simpa using hne)]
        exact ih hr hn.2

theorem get?_eq_none_iff (t : Table κ α) {k : κ} : t.get? k = none ↔ k ∉ t.keys := by
  unfold get? keys
  rw [Option.map_eq_none_iff, List.find?_eq_none]
  constructor
  · intro h hk
    obtain ⟨e, he, rfl⟩ := List.mem_map.1 hk
    exact h e he (by simp)
  · intro h e he hk
    exact h (List.mem_map.2 ⟨e, he, by simpa using hk⟩)

theorem mem_keys_iff (t : Table κ α) {k : κ} : k ∈ t.keys ↔ ∃ a, t.get? k = some a := by
  rw [← Option.ne_none_iff_exists', Ne, get?_eq_none_iff, Decidable.not_not]

theorem contains_iff (t : Table κ α) {k : κ} : t.contains k = true ↔ k ∈ t.keys := by
  unfold contains keys
  rw [List.any_eq_true, List.mem_map]
  simp only [decide_eq_true_eq]

/-- Tables that agree on every look-up have the same entries in some order. -/
theorem perm_of_get? {t t' : Table κ α} (h : ∀ k, t'.get? k = t.get? k) :
    t'.toList.Perm t.toList := by
  refine (List.perm_ext_iff_of_nodup (List.Nodup.of_map _ t'.nodup)
    (List.Nodup.of_map _ t.nodup)).2 ?_
  rintro ⟨k, a⟩
  rw [← get?_eq_some_iff, ← get?_eq_some_iff, h]

/-! ## Recording -/

theorem keys_insert (t : Table κ α) (k : κ) (a : α) :
    (t.insert k a).keys = if k ∈ t.keys then t.keys else t.keys ++ [k] :=
  map_fst_insertEntry k a t.toList

theorem keys_insert_of_mem {t : Table κ α} {k : κ} (h : k ∈ t.keys) (a : α) :
    (t.insert k a).keys = t.keys := by
  rw [keys_insert, if_pos h]

theorem keys_insert_of_notMem {t : Table κ α} {k : κ} (h : k ∉ t.keys) (a : α) :
    (t.insert k a).keys = t.keys ++ [k] := by
  rw [keys_insert, if_neg h]

/-- A key that is recorded for the first time comes last. -/
theorem keys_insert_cases (t : Table κ α) (k : κ) (a : α) :
    (k ∈ t.keys ∧ (t.insert k a).keys = t.keys) ∨
      (k ∉ t.keys ∧ (t.insert k a).keys = t.keys ++ [k]) := by
  by_cases h : k ∈ t.keys
  · exact .inl ⟨h, keys_insert_of_mem h a⟩
  · exact .inr ⟨h, keys_insert_of_notMem h a⟩

theorem mem_keys_insert (t : Table κ α) {k k' : κ} {a : α} :
    k' ∈ (t.insert k a).keys ↔ k' ∈ t.keys ∨ k' = k := by
  rw [keys_insert]
  split
  · next hm =>
    constructor
    · exact .inl
    · rintro (h | rfl)
      · exact h
      · exact hm
  · rw [List.mem_append, List.mem_singleton]

theorem insertEntry_of_notMem {k : κ} (a : α) {entries : List (κ × α)}
    (h : k ∉ entries.map Prod.fst) : insertEntry k a entries = entries ++ [(k, a)] := by
  induction entries with
  | nil => rfl
  | cons e rest ih =>
    simp only [List.map_cons, List.mem_cons, not_or] at h
    simp only [insertEntry, if_neg (Ne.symm h.1), List.cons_append, ih h.2]

theorem toList_foldl_insert (pairs : List (κ × α)) :
    ∀ t : Table κ α, (t.keys ++ pairs.map Prod.fst).Nodup →
      (pairs.foldl (fun t e => t.insert e.1 e.2) t).toList = t.toList ++ pairs := by
  induction pairs with
  | nil => intro t _; simp
  | cons e rest ih =>
    intro t h
    have hk : e.1 ∉ t.keys := by
      intro hm
      exact (List.nodup_append.1 h).2.2 e.1 hm e.1 (by simp) rfl
    have hl : (t.insert e.1 e.2).toList = t.toList ++ [(e.1, e.2)] := insertEntry_of_notMem e.2 hk
    rw [List.foldl_cons, ih, hl]
    · simp
    · rw [keys_insert, if_neg hk]
      simpa using h

/-- Pairs with distinct keys become the table with exactly these entries. -/
theorem toList_ofList {pairs : List (κ × α)} (h : (pairs.map Prod.fst).Nodup) :
    (ofList pairs).toList = pairs := by
  have he := toList_foldl_insert pairs empty (by simpa [keys] using h)
  simpa [ofList] using he

theorem ofList_toList (t : Table κ α) : ofList t.toList = t :=
  toList_injective (toList_ofList t.nodup)

/-- Pairs with distinct keys that are recorded in a table are found before what was there. -/
theorem get?_foldl_insert {pairs : List (κ × α)} (h : (pairs.map Prod.fst).Nodup) (k : κ) :
    ∀ t : Table κ α, (pairs.foldl (fun t e => t.insert e.1 e.2) t).get? k =
      ((pairs.find? fun e => e.1 = k).map Prod.snd).or (t.get? k) := by
  induction pairs with
  | nil => intro t; rfl
  | cons e rest ih =>
    obtain ⟨he, hrest⟩ := List.nodup_cons.1 h
    intro t
    rw [List.foldl_cons, ih hrest, get?_insert]
    by_cases hk : e.1 = k
    · have hnone : rest.find? (fun e => e.1 = k) = none := by
        rw [List.find?_eq_none]
        intro e' he' hk'
        exact he (List.mem_map.2 ⟨e', he', by rw [hk, of_decide_eq_true hk']⟩)
      rw [hnone, if_pos hk.symm, List.find?_cons_of_pos (by simpa using hk)]
      rfl
    · rw [if_neg (Ne.symm hk), List.find?_cons_of_neg (by simpa using hk)]

/-! ## Erasing -/

theorem mem_keys_erase (t : Table κ α) {k k' : κ} :
    k' ∈ (t.erase k).keys ↔ k' ∈ t.keys ∧ k' ≠ k := by
  rw [mem_keys_iff, mem_keys_iff, get?_erase]
  split
  · next h => simp [h]
  · next h => simp [h]

/-! ## Computed values -/

theorem get?_mapWithKey {β : Type} (f : κ → α → β) (t : Table κ α) (k : κ) :
    (t.mapWithKey f).get? k = (t.get? k).map (f k) := by
  unfold get? mapWithKey
  rw [List.find?_map, Function.comp_def]
  cases h : t.toList.find? fun e => decide (e.1 = k) with
  | none => rfl
  | some e =>
    have hk : e.1 = k := by simpa using List.find?_some h
    rw [← hk]
    rfl

theorem mapWithKey_insert {β : Type} (f : κ → α → β) (t : Table κ α) (k : κ) (a : α) :
    (t.insert k a).mapWithKey f = (t.mapWithKey f).insert k (f k a) := by
  have h : ∀ entries : List (κ × α), (insertEntry k a entries).map (fun e => (e.1, f e.1 e.2)) =
      insertEntry k (f k a) (entries.map fun e => (e.1, f e.1 e.2)) := by
    intro entries
    induction entries with
    | nil => rfl
    | cons e rest ih =>
      obtain ⟨k', a'⟩ := e
      by_cases hk : k' = k
      · simp [insertEntry, hk]
      · simp [insertEntry, hk, ih]
  unfold insert mapWithKey
  simp only [Table.mk.injEq]
  exact h t.toList

/-! ## Sums over the entries -/

theorem sum_insertEntry {M : Type} [AddCommGroup M] (f : κ → α → M) (k : κ) (a : α)
    (entries : List (κ × α)) :
    ((insertEntry k a entries).map fun e => f e.1 e.2).sum =
      (entries.map fun e => f e.1 e.2).sum -
        ((entries.find? fun e => e.1 = k).map Prod.snd).elim 0 (f k) + f k a := by
  induction entries with
  | nil => simp [insertEntry]
  | cons e rest ih =>
    obtain ⟨k', a'⟩ := e
    by_cases h : k' = k
    · subst h
      simp [insertEntry]
      abel
    · simp only [insertEntry, if_neg h, List.map_cons, List.sum_cons, ih]
      rw [List.find?_cons_of_neg (by simpa using h)]
      abel

/-- Recording a value changes a sum over the entries by the new summand of its key less the old
one. -/
theorem sum_insert {M : Type} [AddCommGroup M] (f : κ → α → M) (t : Table κ α) (k : κ) (a : α) :
    ((t.insert k a).toList.map fun e => f e.1 e.2).sum =
      (t.toList.map fun e => f e.1 e.2).sum - (t.get? k).elim 0 (f k) + f k a :=
  sum_insertEntry f k a t.toList

/-- Erasing a key takes its summand out of a sum over the entries. -/
theorem sum_erase {M : Type} [AddCommGroup M] (f : κ → α → M) (t : Table κ α) (k : κ) :
    ((t.erase k).toList.map fun e => f e.1 e.2).sum =
      (t.toList.map fun e => f e.1 e.2).sum - (t.get? k).elim 0 (f k) := by
  cases h : t.get? k with
  | none =>
    have hperm : (t.erase k).toList.Perm t.toList := perm_of_get? fun k' => by
      rw [get?_erase]
      split
      · next hk => rw [hk, h]
      · rfl
    rw [(hperm.map _).sum_eq, Option.elim_none, sub_zero]
  | some a =>
    -- recording the value again makes up for the loss
    have hperm : ((t.erase k).insert k a).toList.Perm t.toList := perm_of_get? fun k' => by
      rw [get?_insert, get?_erase]
      split
      · next hk => rw [hk, h]
      · rfl
    have hsum := (hperm.map fun e => f e.1 e.2).sum_eq
    rw [sum_insert, get?_erase, if_pos rfl, Option.elim_none, sub_zero] at hsum
    exact eq_sub_of_add_eq hsum

end Table

end MarkovLogic
