/-!
# Tables in recording order

A table maps keys to values and keeps its keys in the order in which they were first recorded.
Recording a key again changes its value and moves nothing (`toList_insert`), and a look-up sees what
was recorded last (`get?_insert`). A key that is erased is not found any more (`get?_erase`).
-/

namespace MarkovLogic

/-- Entries with the key's value replaced in place, or added at the end. -/
def insertEntry {κ α : Type} [DecidableEq κ] (k : κ) (a : α) : List (κ × α) → List (κ × α)
  | [] => [(k, a)]
  | (k', a') :: rest => if k' = k then (k', a) :: rest else (k', a') :: insertEntry k a rest

section Entries

variable {κ α : Type} [DecidableEq κ]

theorem map_fst_insertEntry (k : κ) (a : α) (entries : List (κ × α)) :
    (insertEntry k a entries).map Prod.fst =
      if k ∈ entries.map Prod.fst then entries.map Prod.fst else entries.map Prod.fst ++ [k] := by
  induction entries with
  | nil => simp [insertEntry]
  | cons e rest ih =>
    obtain ⟨k', a'⟩ := e
    by_cases h : k' = k
    · simp [insertEntry, h]
    · by_cases hm : k ∈ rest.map Prod.fst
      · rw [if_pos hm] at ih
        rw [if_pos (by simpa using Or.inr (by simpa using hm))]
        simp [insertEntry, h, ih]
      · rw [if_neg hm] at ih
        rw [if_neg (by simpa [Ne.symm h] using hm)]
        simp [insertEntry, h, ih]

theorem nodup_insertEntry (k : κ) (a : α) {entries : List (κ × α)}
    (h : (entries.map Prod.fst).Nodup) : ((insertEntry k a entries).map Prod.fst).Nodup := by
  rw [map_fst_insertEntry]
  split
  · exact h
  · next hk => exact List.nodup_append.2 ⟨h, by simp, by
      intro x hx y hy e
      rw [List.mem_singleton] at hy
      exact hk (hy ▸ e ▸ hx)⟩

end Entries

/-- Entries in recording order with distinct keys. -/
structure Table (κ α : Type) where
  toList : List (κ × α)
  nodup : (toList.map Prod.fst).Nodup

namespace Table

variable {κ α β : Type}

/-- The table without entries. -/
def empty : Table κ α := ⟨[], List.nodup_nil⟩

/-- The keys in recording order. -/
def keys (t : Table κ α) : List κ :=
  t.toList.map Prod.fst

/-- The values in recording order. -/
def values (t : Table κ α) : List α :=
  t.toList.map Prod.snd

/-- The number of entries. -/
def size (t : Table κ α) : Nat :=
  t.toList.length

/-- The table with a value computed from each key and value. -/
def mapWithKey (f : κ → α → β) (t : Table κ α) : Table κ β :=
  ⟨t.toList.map fun (k, a) => (k, f k a), by
    have h : (t.toList.map fun (k, a) => (k, f k a)).map Prod.fst = t.toList.map Prod.fst := by
      simp
    rw [h]
    exact t.nodup⟩

variable [DecidableEq κ]

/-- The value recorded for the key. -/
def get? (t : Table κ α) (k : κ) : Option α :=
  (t.toList.find? fun e => e.1 = k).map Prod.snd

/-- The key is recorded. -/
def contains (t : Table κ α) (k : κ) : Bool :=
  t.toList.any fun e => e.1 = k

/-- Records a value; a key recorded before keeps its place. -/
def insert (t : Table κ α) (k : κ) (a : α) : Table κ α :=
  ⟨insertEntry k a t.toList, nodup_insertEntry k a t.nodup⟩

/-- The table without the key. -/
def erase (t : Table κ α) (k : κ) : Table κ α :=
  ⟨t.toList.filter fun e => e.1 ≠ k, t.nodup.sublist (List.filter_sublist.map _)⟩

/-- Records the pairs in order, so that the last value of a key counts. -/
def ofList (pairs : List (κ × α)) : Table κ α :=
  pairs.foldl (fun t e => t.insert e.1 e.2) empty

@[simp]
theorem toList_insert (t : Table κ α) (k : κ) (a : α) :
    (t.insert k a).toList = insertEntry k a t.toList := rfl

theorem find?_insertEntry (k k' : κ) (a : α) (entries : List (κ × α)) :
    ((insertEntry k a entries).find? fun e => e.1 = k').map Prod.snd =
      if k' = k then some a else (entries.find? fun e => e.1 = k').map Prod.snd := by
  induction entries with
  | nil => by_cases h : k' = k <;> simp [insertEntry, h, Ne.symm]
  | cons e rest ih =>
    obtain ⟨k₀, a₀⟩ := e
    by_cases h : k₀ = k <;> by_cases h' : k' = k <;> simp [insertEntry, h, h'] at ih ⊢ <;> grind

@[simp]
theorem get?_insert (t : Table κ α) (k k' : κ) (a : α) :
    (t.insert k a).get? k' = if k' = k then some a else t.get? k' :=
  find?_insertEntry k k' a t.toList

@[simp]
theorem get?_erase (t : Table κ α) (k k' : κ) :
    (t.erase k).get? k' = if k' = k then none else t.get? k' := by
  unfold get? erase
  rw [List.find?_filter]
  split
  · next h =>
    subst h
    rw [Option.map_eq_none_iff, List.find?_eq_none]
    simp
  · next h =>
    have hkeep : ∀ e : κ × α, (decide (e.1 ≠ k) = true ∧ decide (e.1 = k') = true) ↔ e.1 = k' := by
      intro e
      simp only [decide_eq_true_eq, and_iff_right_iff_imp]
      exact fun he hk => h (he.symm.trans hk)
    simp only [hkeep]

end Table

end MarkovLogic
