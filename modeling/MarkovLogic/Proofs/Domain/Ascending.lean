import MarkovLogic.Domain.Builder
import MarkovLogic.Proofs.Table

/-!
# Ascending symbols

Sorting keeps the symbols of a domain and puts them in strictly ascending order when none is
repeated (`sortSymbols_ascending`). The domains of a domain map repeat no symbol
(`DomainMap.ofDomains_duplicateFree`).
-/

namespace MarkovLogic

/-! ## Sorting -/

theorem mem_sortSymbols {symbols : List String} {s : String} :
    s ∈ sortSymbols symbols ↔ s ∈ symbols :=
  List.mem_mergeSort

theorem nodup_sortSymbols {symbols : List String} :
    (sortSymbols symbols).Nodup ↔ symbols.Nodup :=
  (List.mergeSort_perm symbols _).nodup_iff

theorem sortSymbols_sorted (symbols : List String) :
    (sortSymbols symbols).Pairwise (· ≤ ·) := by
  have h : (sortSymbols symbols).Pairwise fun s t => (!decide (t < s)) = true := by
    apply List.pairwise_mergeSort
    · intro s t u hst htu
      simp only [Bool.not_eq_true', decide_eq_false_iff_not, String.not_lt] at hst htu ⊢
      exact String.le_trans hst htu
    · intro s t
      simp only [Bool.or_eq_true, Bool.not_eq_true', decide_eq_false_iff_not, String.not_lt]
      exact String.le_total s t
  refine h.imp fun hst => ?_
  rwa [Bool.not_eq_true', decide_eq_false_iff_not, String.not_lt] at hst

theorem lt_of_le_of_ne {s t : String} (h : s ≤ t) (hne : s ≠ t) : s < t :=
  Decidable.byContradiction fun hlt => hne (String.le_antisymm h (String.not_lt.1 hlt))

/-- **Sorting puts distinct symbols in strictly ascending order.** -/
theorem sortSymbols_ascending {symbols : List String} (h : symbols.Nodup) :
    (sortSymbols symbols).Pairwise (· < ·) := by
  have hn : (sortSymbols symbols).Pairwise (· ≠ ·) := nodup_sortSymbols.2 h
  exact (sortSymbols_sorted symbols).imp₂ (fun _ _ hle hne => lt_of_le_of_ne hle hne) hn

theorem nodup_of_ascending {symbols : List String} (h : symbols.Pairwise (· < ·)) :
    symbols.Nodup := by
  refine h.imp ?_
  rintro s _ hlt rfl
  exact String.lt_irrefl s hlt

/-! ## Dropping repeats -/

theorem mem_dropRepeats {s : String} (symbols : List String) :
    s ∈ dropRepeats symbols ↔ s ∈ symbols := by
  induction symbols with
  | nil => rfl
  | cons t rest ih =>
    rw [dropRepeats, List.mem_cons, ← ih]
    cases h : dropRepeats rest with
    | nil => simp
    | cons u rest' =>
      simp only
      split
      · next he => simp [he]
      · exact List.mem_cons

/-- Without its repeats a sorted list ascends strictly. -/
theorem dropRepeats_ascending {symbols : List String} (h : symbols.Pairwise (· ≤ ·)) :
    (dropRepeats symbols).Pairwise (· < ·) := by
  induction symbols with
  | nil => exact List.Pairwise.nil
  | cons s rest ih =>
    obtain ⟨hs, hrest⟩ := List.pairwise_cons.1 h
    have ih := ih hrest
    have hmem : ∀ u ∈ dropRepeats rest, s ≤ u := fun u hu => hs u ((mem_dropRepeats rest).1 hu)
    rw [dropRepeats]
    cases hd : dropRepeats rest with
    | nil => exact List.pairwise_singleton _ _
    | cons t rest' =>
      rw [hd] at ih hmem
      simp only
      split
      · exact ih
      · next hne =>
        refine List.pairwise_cons.2 ⟨fun u hu => ?_, ih⟩
        have hst : s < t := lt_of_le_of_ne (hmem t List.mem_cons_self) hne
        rcases List.mem_cons.1 hu with rfl | hu
        · exact hst
        · exact String.lt_trans hst ((List.pairwise_cons.1 ih).1 u hu)

/-! ## Domains without repeated symbols -/

namespace Domains

/-- No domain lists a symbol twice. -/
def DuplicateFree (d : Domains) : Prop :=
  ∀ name symbols, d.get? name = some symbols → symbols.Nodup

theorem DuplicateFree.nodup_symbols {d : Domains} (h : d.DuplicateFree) (name : Scalar) :
    (d.symbols name).Nodup := by
  unfold symbols symbols?
  cases hg : d.get? (d.recordedName name) with
  | none => exact List.nodup_nil
  | some list => exact h _ _ hg

end Domains

/-- **A domain map repeats no symbol.** -/
theorem DomainMap.ofDomains_duplicateFree (d : Domains) : (ofDomains d).domains.DuplicateFree := by
  intro name symbols h
  obtain ⟨⟨name', list⟩, _, he⟩ := List.mem_map.1 ((Table.get?_eq_some_iff _).1 h)
  simp only [Prod.mk.injEq] at he
  rw [← he.2]
  exact nodup_of_ascending (dropRepeats_ascending (sortSymbols_sorted list))

end MarkovLogic
