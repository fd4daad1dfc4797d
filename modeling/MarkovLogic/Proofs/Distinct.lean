import MarkovLogic.Term.Equality
import MarkovLogic.Proofs.Runs
import Mathlib.Data.List.Induction
import Mathlib.Data.List.Nodup

/-!
# Distinct elements and their order

`List.eraseDups` keeps the first occurrence of every element. No element is left twice, and an
element at the end of a list is kept exactly when it has not occurred before
(`eraseDups_concat_of_mem`, `eraseDups_concat_of_notMem`).
So a loop that notes the key of each element unless it is noted already ends with the keys in the
order of their first occurrence (`keys_of_foldlM`). Sorted by their numbers, elements with distinct
numbers ascend strictly (`ascending_mergeSort`).

`distinct` keeps the first of equal elements: what is kept was there (`distinct_subset`), no two
kept elements are equal (`pairwise_distinct`), and none is dropped but for an equal one that is kept
(`exists_mem_distinct`).
-/

namespace MarkovLogic

section

variable {α : Type} [BEq α]

theorem eraseDups_sublist (xs : List α) : xs.eraseDups.Sublist xs := by
  cases xs with
  | nil => exact .slnil
  | cons x rest =>
    rw [List.eraseDups_cons]
    apply List.Sublist.cons_cons
    exact (eraseDups_sublist (rest.filter fun y => !y == x)).trans List.filter_sublist
termination_by xs.length
decreasing_by
  have hfilter := List.length_filter_le (fun y => !y == x) rest
  rw [List.length_cons]
  omega

theorem nodup_eraseDups [LawfulBEq α] (xs : List α) : xs.eraseDups.Nodup := by
  cases xs with
  | nil => simp
  | cons x rest =>
    rw [List.eraseDups_cons, List.nodup_cons]
    constructor
    · rw [List.mem_eraseDups]
      simp
    · exact nodup_eraseDups (rest.filter fun y => !y == x)
termination_by xs.length
decreasing_by
  have hfilter := List.length_filter_le (fun y => !y == x) rest
  rw [List.length_cons]
  omega

end

/-- Of distinct elements none is dropped. -/
theorem eraseDups_of_nodup {α : Type} [BEq α] [LawfulBEq α] {xs : List α} (h : xs.Nodup) :
    xs.eraseDups = xs := by
  induction xs with
  | nil => rfl
  | cons x rest ih =>
    obtain ⟨hx, hrest⟩ := List.nodup_cons.1 h
    have hfilter : rest.filter (fun y => !y == x) = rest := by
      rw [List.filter_eq_self]
      intro y hy
      simp only [Bool.not_eq_true', beq_eq_false_iff_ne]
      rintro rfl
      exact hx hy
    rw [List.eraseDups_cons, hfilter, ih hrest]

theorem ascending_eraseDups {xs : List Nat} (h : xs.Pairwise (· ≤ ·)) :
    xs.eraseDups.Pairwise (· < ·) := by
  have hn : xs.eraseDups.Pairwise (· ≠ ·) := nodup_eraseDups xs
  exact (h.sublist (eraseDups_sublist xs)).imp₂ (fun _ _ hle hne => Nat.lt_of_le_of_ne hle hne) hn

/-- Sorting by a number puts elements in the order of their numbers. -/
theorem pairwise_le_mergeSort {β : Type} (number : β → Int) (xs : List β) :
    (xs.mergeSort fun a b => number a ≤ number b).Pairwise fun a b => number a ≤ number b := by
  have hle : (xs.mergeSort fun a b => number a ≤ number b).Pairwise
      fun a b => decide (number a ≤ number b) = true := by
    apply List.pairwise_mergeSort
    · intro a b c hab hbc
      simp only [decide_eq_true_eq] at hab hbc ⊢
      omega
    · intro a b
      simp only [Bool.or_eq_true, decide_eq_true_eq]
      omega
  exact hle.imp of_decide_eq_true

/-- Sorting by a number puts elements with distinct numbers in strictly ascending order. -/
theorem ascending_mergeSort {β : Type} (number : β → Int) {xs : List β}
    (h : (xs.map number).Nodup) :
    ((xs.mergeSort fun a b => number a ≤ number b).map number).Pairwise (· < ·) := by
  have hne : ((xs.mergeSort fun a b => number a ≤ number b).map number).Nodup :=
    ((List.mergeSort_perm xs _).map number).nodup_iff.2 h
  rw [List.Nodup, List.pairwise_map] at hne
  rw [List.pairwise_map]
  exact (pairwise_le_mergeSort number xs).imp₂
    (fun a b hle hne => Int.lt_iff_le_and_ne.2 ⟨hle, hne⟩) hne

section

variable {α : Type} [BEq α] [LawfulBEq α] {xs : List α} {x : α}

theorem eraseDups_concat_of_mem (h : x ∈ xs) : (xs ++ [x]).eraseDups = xs.eraseDups := by
  simp [List.eraseDups_append, List.removeAll, h]

theorem eraseDups_concat_of_notMem (h : x ∉ xs) :
    (xs ++ [x]).eraseDups = xs.eraseDups ++ [x] := by
  simp [List.eraseDups_append, List.removeAll, List.eraseDups_cons, h]

/-- **A loop that notes new keys at the end has noted them in the order of their first
occurrence.** -/
theorem keys_of_foldlM {ε β σ : Type} {f : σ → β → Except ε σ} (keys : σ → List α) {key : β → α}
    {s : σ} (hs : keys s = []) {l : List β}
    (hstep : ∀ pre b post u v, l = pre ++ b :: post → pre.foldlM f s = .ok u → f u b = .ok v →
      (key b ∈ keys u ∧ keys v = keys u) ∨ (key b ∉ keys u ∧ keys v = keys u ++ [key b])) :
    ∀ {t : σ}, l.foldlM f s = .ok t → keys t = (l.map key).eraseDups := by
  induction l using List.reverseRecOn with
  | nil =>
    intro t h
    obtain rfl := (foldlM_nil_eq_ok_iff f).1 h
    exact hs
  | append_singleton l b ih =>
    intro t h
    obtain ⟨u, hu, h⟩ := (foldlM_append_eq_ok_iff f).1 h
    obtain ⟨v, hv, h⟩ := (foldlM_cons_eq_ok_iff f).1 h
    obtain rfl := (foldlM_nil_eq_ok_iff f).1 h
    have hkeys : keys u = (l.map key).eraseDups := by
      refine ih (fun pre b' post u v hsplit => hstep pre b' (post ++ [b]) u v ?_) hu
      rw [hsplit, List.append_assoc, List.cons_append]
    have hmem : key b ∈ keys u ↔ key b ∈ l.map key := by
      rw [hkeys, List.mem_eraseDups]
    rw [List.map_append, List.map_singleton]
    rcases hstep l b [] u v rfl hu hv with ⟨hb, hv⟩ | ⟨hb, hv⟩
    · rw [hv, hkeys, eraseDups_concat_of_mem (hmem.1 hb)]
    · rw [hv, hkeys, eraseDups_concat_of_notMem (fun hm => hb (hmem.2 hm))]

end

/-! ## Collected sets -/

section

variable {β : Type} {same : β → β → Bool} {xs : List β} {x : β}

theorem distinct_concat (same : β → β → Bool) (xs : List β) (x : β) :
    distinct same (xs ++ [x]) =
      if (distinct same xs).any (same · x) then distinct same xs else distinct same xs ++ [x] := by
  rw [distinct, List.foldl_append]
  rfl

/-- Collecting drops elements and adds none. -/
theorem distinct_subset (same : β → β → Bool) (xs : List β) : distinct same xs ⊆ xs := by
  induction xs using List.reverseRecOn with
  | nil => exact List.Subset.refl _
  | append_singleton xs x ih =>
    rw [distinct_concat]
    split
    · exact List.subset_append_of_subset_left _ ih
    · exact List.append_subset.2
        ⟨List.subset_append_of_subset_left _ ih, List.subset_append_right _ _⟩

/-- An element is dropped only for an equal one. -/
theorem exists_mem_distinct (hrefl : ∀ x, same x x = true) (h : x ∈ xs) :
    ∃ y ∈ distinct same xs, same y x = true := by
  induction xs using List.reverseRecOn with
  | nil => cases h
  | append_singleton xs z ih =>
    rw [distinct_concat]
    rcases List.mem_append.1 h with h | h
    · obtain ⟨y, hy, hsame⟩ := ih h
      split
      · exact ⟨y, hy, hsame⟩
      · exact ⟨y, List.mem_append_left _ hy, hsame⟩
    · obtain rfl := List.mem_singleton.1 h
      split
      · next hany => exact List.any_eq_true.1 hany
      · exact ⟨x, List.mem_append_right _ (List.mem_singleton_self x), hrefl x⟩

/-- **No two collected elements are equal.** -/
theorem pairwise_distinct (same : β → β → Bool) (xs : List β) :
    (distinct same xs).Pairwise fun x y => same x y = false := by
  induction xs using List.reverseRecOn with
  | nil => exact .nil
  | append_singleton xs x ih =>
    rw [distinct_concat]
    split
    · exact ih
    · next hany =>
      refine List.pairwise_append.2 ⟨ih, List.pairwise_singleton _ _, fun y hy z hz => ?_⟩
      obtain rfl := List.mem_singleton.1 hz
      exact Bool.eq_false_iff.2 fun hsame => hany (List.any_eq_true.2 ⟨y, hy, hsame⟩)

end

theorem nodup_distinct {β : Type} [DecidableEq β] (xs : List β) :
    (distinct (fun x y => x = y) xs).Nodup :=
  (pairwise_distinct _ xs).imp of_decide_eq_false

theorem mem_distinct {β : Type} [DecidableEq β] {xs : List β} {x : β} :
    x ∈ distinct (fun x y => x = y) xs ↔ x ∈ xs := by
  constructor
  · exact fun h => distinct_subset _ xs h
  · intro h
    have hkept : ∃ y ∈ distinct (fun x y => x = y) xs, decide (y = x) = true := by
      refine exists_mem_distinct ?_ h
      exact fun x => decide_eq_true rfl
    obtain ⟨y, hy, hsame⟩ := hkept
    exact of_decide_eq_true hsame ▸ hy

end MarkovLogic
