import MarkovLogic.AtomSpace.Codec
import MarkovLogic.Proofs.Domain.Ascending
import MarkovLogic.Proofs.Runs

/-!
# The layout of an atom space

A space over distinct predicates is laid out (`AtomSpace.Laid`): the block of each predicate starts
where the block of the predicate before it ends, the first one at 1, and the symbol lists of its
arguments are the sorted symbols of its schema's domains. `AtomSpace.build` lays out every space it
returns (`laid_of_build`), and the blocks cover the numbers from 1 to the size of the space
(`Laid.exists_block`).
-/

namespace MarkovLogic

namespace AtomSpace

/-! ## Collected symbols -/

section Collect

variable {domains : Domains}

/-- A table of symbol lists that agrees with the domains. -/
def Collected (domains : Domains) (symbols : Table (Option String) (List String)) : Prop :=
  ∀ d pool, symbols.get? d = some pool →
    ∃ list, domains.symbols? (.ofOption d) = some list ∧ pool = sortSymbols list

theorem addDomain_cases {signature : Signature} {symbols t : Table (Option String) (List String)}
    {d : Option String} (h : addDomain domains signature symbols d = .ok t) :
    (d ∈ symbols.keys ∧ t = symbols) ∨
      ∃ list, domains.symbols? (.ofOption d) = some list ∧
        t = symbols.insert d (sortSymbols list) := by
  unfold addDomain at h
  split at h
  · next hc => exact .inl ⟨symbols.contains_iff.1 hc, (Except.ok.inj h).symm⟩
  · split at h
    · cases h
    · next list hl => exact .inr ⟨list, hl, (Except.ok.inj h).symm⟩

theorem addDomain_collected {signature : Signature}
    {symbols t : Table (Option String) (List String)} {d : Option String}
    (hs : Collected domains symbols) (h : addDomain domains signature symbols d = .ok t) :
    Collected domains t := by
  rcases addDomain_cases h with ⟨_, rfl⟩ | ⟨list, hl, rfl⟩
  · exact hs
  · intro d' pool hp
    rw [Table.get?_insert] at hp
    split at hp
    · next he => exact ⟨list, he ▸ hl, (Option.some.inj hp).symm⟩
    · exact hs d' pool hp

theorem mem_keys_addDomain {signature : Signature} {symbols t : Table (Option String) (List String)}
    {d : Option String} (h : addDomain domains signature symbols d = .ok t) : d ∈ t.keys := by
  rcases addDomain_cases h with ⟨hk, rfl⟩ | ⟨list, _, rfl⟩
  · exact hk
  · rw [Table.mem_keys_iff]
    exact ⟨_, by rw [Table.get?_insert, if_pos rfl]⟩

theorem mem_keys_addDomain_of_mem {signature : Signature}
    {symbols t : Table (Option String) (List String)} {d e : Option String} (he : e ∈ symbols.keys)
    (h : addDomain domains signature symbols d = .ok t) : e ∈ t.keys := by
  rcases addDomain_cases h with ⟨_, rfl⟩ | ⟨list, _, rfl⟩
  · exact he
  · rw [Table.keys_insert]
    split
    · exact he
    · exact List.mem_append_left _ he

/-- The symbols are collected of every domain that one of the predicates ranges over. -/
theorem collectSymbols_ok {schema : PredicateSchema} {ps : List Signature}
    {symbols : Table (Option String) (List String)}
    (h : collectSymbols schema domains ps = .ok symbols) :
    Collected domains symbols ∧ ∀ s ∈ ps, ∃ places, schema.get? s = some places ∧
      ∀ d ∈ places, d ∈ symbols.keys := by
  unfold collectSymbols at h
  -- one predicate keeps what is collected, and adds the domains of its places
  constructor
  · refine foldlM_invariant _ ?_ ps (P := Collected domains) ?_ h
    · intro t s u ht hu
      split at hu
      · cases hu
      · exact foldlM_invariant _ (fun _ _ _ hc ha => addDomain_collected hc ha) _ ht hu
    · intro d pool hp
      cases hp
  · refine foldlM_forall _ (Q := fun s t => ∃ places, schema.get? s = some places ∧
      ∀ d ∈ places, d ∈ t.keys) ?_ ?_ ps h
    · intro t s u hu
      split at hu
      · cases hu
      · next places hp =>
        exact ⟨places, hp, foldlM_forall _ (Q := fun d t => d ∈ t.keys)
          (fun _ _ _ => mem_keys_addDomain) (fun _ _ _ _ => mem_keys_addDomain_of_mem) places hu⟩
    · rintro s t r u ⟨places, hp, hk⟩ hu
      split at hu
      · cases hu
      · next places' _ =>
        exact ⟨places, hp, fun d hd => foldlM_invariant _
          (fun _ _ _ => mem_keys_addDomain_of_mem) places' (hk d hd) hu⟩

end Collect

/-! ## Starts of blocks -/

section Allocate

variable (size : Signature → Nat)

theorem allocate_append (ps qs : List Signature) :
    ∀ (starts : Table Signature Nat) next, allocate size starts next (ps ++ qs) =
      allocate size (allocate size starts next ps).1 (allocate size starts next ps).2 qs := by
  induction ps with
  | nil => intro starts next; rfl
  | cons p ps ih => intro starts next; exact ih _ _

theorem allocate_next (ps : List Signature) :
    ∀ (starts : Table Signature Nat) next,
      (allocate size starts next ps).2 = next + (ps.map size).sum := by
  induction ps with
  | nil => intro starts next; rfl
  | cons p ps ih =>
    intro starts next
    rw [allocate, ih, List.map_cons, List.sum_cons, Nat.add_assoc]

theorem get?_allocate_of_notMem {ps : List Signature} {s : Signature} :
    ∀ (starts : Table Signature Nat) next, s ∉ ps →
      (allocate size starts next ps).1.get? s = starts.get? s := by
  induction ps with
  | nil => intro starts next _; rfl
  | cons p ps ih =>
    intro starts next h
    rw [List.mem_cons, not_or] at h
    rw [allocate, ih _ _ h.2, Table.get?_insert, if_neg h.1]

/-- A predicate starts behind all predicates before it. -/
theorem get?_allocate {pre post : List Signature} {s : Signature} (starts : Table Signature Nat)
    (next : Nat) (h : s ∉ post) :
    (allocate size starts next (pre ++ s :: post)).1.get? s =
      some (next + (pre.map size).sum) := by
  rw [allocate_append, allocate_next, allocate, get?_allocate_of_notMem _ _ _ h, Table.get?_insert,
    if_pos rfl]

theorem mem_keys_allocate {ps : List Signature} {s : Signature} :
    ∀ (starts : Table Signature Nat) next,
      s ∈ (allocate size starts next ps).1.keys ↔ s ∈ starts.keys ∨ s ∈ ps := by
  induction ps with
  | nil => intro starts next; simp [allocate]
  | cons p ps ih =>
    intro starts next
    rw [allocate, ih, Table.keys_insert]
    split
    · next hp =>
      constructor
      · exact fun h => h.imp_right (List.mem_cons_of_mem _)
      · rintro (h | h)
        · exact .inl h
        · rcases List.mem_cons.1 h with rfl | h
          · exact .inl hp
          · exact .inr h
    · rw [List.mem_append, List.mem_singleton, List.mem_cons, or_assoc]

end Allocate

/-! ## Laid out spaces -/

/-- The number of atoms of a predicate of the space. -/
def width (space : AtomSpace) (s : Signature) : Nat :=
  volume (space.argumentPools s)

/-- How the blocks and the symbol lists of a space lie over the domains it was built from. -/
structure Laid (space : AtomSpace) (domains : Domains) : Prop where
  nodup : space.predicates.Nodup
  isOpen_iff : ∀ s, space.isOpen s = true ↔ s ∈ space.predicates
  start : ∀ {pre s post}, space.predicates = pre ++ s :: post →
    space.starts.get? s = some (1 + (pre.map space.width).sum)
  size_eq : space.size = (space.predicates.map space.width).sum
  queryEnd_eq : space.queryEnd = (space.query.map space.width).sum
  places : ∀ s ∈ space.predicates, ∃ places, space.schema.get? s = some places ∧
    ∀ d ∈ places, ∃ list, domains.symbols? (.ofOption d) = some list ∧
      space.symbols.get? d = some (sortSymbols list)

/-- What a successful construction consists of. -/
theorem build_cases {schema : PredicateSchema} {domains : Domains} {query hidden : List Signature}
    {space : AtomSpace} (h : build schema domains query hidden = .ok space) :
    (∀ s ∈ query, s ∉ hidden) ∧ ∃ symbols,
      collectSymbols schema domains (query ++ hidden) = .ok symbols ∧
      space = ⟨schema, symbols, query, hidden,
        (allocate (blockSize schema symbols) Table.empty 1 (query ++ hidden)).1,
        (query.map (blockSize schema symbols)).sum,
        ((query ++ hidden).map (blockSize schema symbols)).sum⟩ := by
  simp only [build] at h
  split at h
  · obtain ⟨_, hthrow, _⟩ := bind_eq_ok_iff.1 h
    cases hthrow
  next hempty =>
  obtain ⟨symbols, hs, he⟩ := bind_eq_ok_iff.1 h
  have hdisj : ∀ s ∈ query, s ∉ hidden := by
    intro s hq hh
    have hm : s ∈ query.eraseDups.filter hidden.contains := by
      rw [List.mem_filter, List.mem_eraseDups]
      exact ⟨hq, by simpa using hh⟩
    simp only [Bool.not_eq_true', Bool.not_eq_false] at hempty
    rw [List.isEmpty_iff.1 hempty] at hm
    cases hm
  refine ⟨hdisj, symbols, hs, ?_⟩
  rw [← Except.ok.inj he]
  simp only [mk.injEq, true_and]
  refine ⟨by rw [allocate_append], ?_, ?_⟩
  · rw [allocate_next, Nat.add_sub_cancel_left]
  · rw [allocate_next, allocate_next, List.map_append, List.sum_append, Nat.add_assoc,
      Nat.add_sub_cancel_left]

/-- **A space over distinct predicates is laid out.** -/
theorem laid_of_build {schema : PredicateSchema} {domains : Domains} {query hidden : List Signature}
    {space : AtomSpace} (h : build schema domains query hidden = .ok space) (hq : query.Nodup)
    (hh : hidden.Nodup) : space.Laid domains := by
  obtain ⟨hdisj, symbols, hs, rfl⟩ := build_cases h
  obtain ⟨hc, hp⟩ := collectSymbols_ok hs
  have hn : (query ++ hidden).Nodup := by
    refine List.nodup_append.2 ⟨hq, hh, ?_⟩
    rintro s hs _ hs' rfl
    exact hdisj s hs hs'
  refine ⟨hn, ?_, ?_, rfl, rfl, ?_⟩
  · intro s
    unfold isOpen
    rw [Table.contains_iff, mem_keys_allocate]
    simp [Table.keys, predicates]
  · intro pre s post he
    have hpost : s ∉ post := by
      have hn' : (pre ++ s :: post).Nodup := he ▸ hn
      exact (List.nodup_cons.1 (List.nodup_append.1 hn').2.1).1
    have he' : query ++ hidden = pre ++ s :: post := he
    simp only [he']
    exact get?_allocate _ _ _ hpost
  · intro s hs
    obtain ⟨places, hg, hk⟩ := hp s hs
    refine ⟨places, hg, fun d hd => ?_⟩
    obtain ⟨pool, hpool⟩ := (Table.mem_keys_iff _).1 (hk d hd)
    obtain ⟨list, hl, rfl⟩ := hc d pool hpool
    exact ⟨list, hl, hpool⟩

/-! ## Blocks cover the numbers -/

/-- A number below a sum of widths lies in exactly one of the consecutive blocks. -/
theorem exists_split_of_lt_sum {α : Type} (width : α → Nat) (l : List α) :
    ∀ n, n < (l.map width).sum →
      ∃ pre a post, l = pre ++ a :: post ∧ (pre.map width).sum ≤ n ∧
        n < (pre.map width).sum + width a := by
  induction l with
  | nil => intro n h; cases h
  | cons a l ih =>
    intro n h
    rw [List.map_cons, List.sum_cons] at h
    by_cases hn : n < width a
    · exact ⟨[], a, l, rfl, by simp, by simpa using hn⟩
    · obtain ⟨pre, b, post, rfl, h1, h2⟩ := ih (n - width a) (by omega)
      refine ⟨a :: pre, b, post, rfl, ?_, ?_⟩
      · rw [List.map_cons, List.sum_cons]; omega
      · rw [List.map_cons, List.sum_cons]; omega

namespace Laid

variable {space : AtomSpace} {domains : Domains} (h : space.Laid domains)

include h in
/-- Every number from 1 to the size lies in a block. -/
theorem exists_block {n : Nat} (h1 : 1 ≤ n) (h2 : n ≤ space.size) :
    ∃ pre s post, space.predicates = pre ++ s :: post ∧ 1 + (pre.map space.width).sum ≤ n ∧
      n < 1 + (pre.map space.width).sum + space.width s := by
  rw [h.size_eq] at h2
  obtain ⟨pre, s, post, he, ha, hb⟩ :=
    exists_split_of_lt_sum space.width space.predicates (n - 1) (by omega)
  exact ⟨pre, s, post, he, by omega, by omega⟩

include h in
/-- A block ends within the space. -/
theorem start_add_width_le {pre post : List Signature} {s : Signature}
    (he : space.predicates = pre ++ s :: post) :
    (pre.map space.width).sum + space.width s ≤ space.size := by
  rw [h.size_eq, he, List.map_append, List.sum_append, List.map_cons, List.sum_cons]
  omega

end Laid

end AtomSpace

end MarkovLogic
