import MarkovLogic.Proofs.AtomSpace.Layout
import MarkovLogic.Proofs.AtomSpace.Places

/-!
# Numbers and atoms

`AtomSpace.Numbers space s tuple n` says that the atom of the predicate `s` with the symbols `tuple`
has the number `n`: the tuple stands at the place `n` of the block of `s`, counted from its start.
In a laid out space without repeated symbols `encode` computes this relation from the left
(`Laid.encode_eq_ok_iff`) and `decode` from the right (`Laid.decode_of_numbers`). Everything about
the numbering (`IsNumbering`) follows.
-/

namespace MarkovLogic

namespace AtomSpace

/-- The atom of a predicate with the given symbols has the number `n`. -/
def Numbers (space : AtomSpace) (s : Signature) (tuple : List String) (n : Nat) : Prop :=
  ∃ start k, space.starts.get? s = some start ∧
    (tuples (space.argumentPools s))[k]? = some tuple ∧ n = start + k

/-- The tuple has one symbol of each argument domain of the predicate. -/
def Ranges (schema : PredicateSchema) (domains : Domains) (s : Signature) (tuple : List String) :
    Prop :=
  ∃ places, schema.get? s = some places ∧
    List.Forall₂ (fun symbol d => symbol ∈ domains.symbols (.ofOption d)) tuple places

/-- The number lies in the block of the predicate. -/
def InBlock (space : AtomSpace) (s : Signature) (n : Int) : Prop :=
  ∃ first last, space.block? s = some (first, last) ∧ (first : Int) ≤ n ∧ n < last

namespace Laid

variable {space : AtomSpace} {domains : Domains} (h : space.Laid domains)

/-! ## Symbol lists of open predicates -/

include h in
theorem argumentPools_eq {s : Signature} (hs : s ∈ space.predicates)
    {places : List (Option String)} (hp : space.schema.get? s = some places) :
    space.argumentPools s = places.map fun d => sortSymbols (domains.symbols (.ofOption d)) := by
  obtain ⟨places', hp', hd⟩ := h.places s hs
  rw [hp] at hp'
  obtain rfl := Option.some.inj hp'
  unfold argumentPools pools
  rw [hp, Option.getD_some]
  refine List.map_congr_left fun d hmem => ?_
  obtain ⟨list, hl, hg⟩ := hd d hmem
  rw [hg, Domains.symbols, hl]
  rfl

include h in
theorem pool_ascending (hd : domains.DuplicateFree) {s : Signature} (hs : s ∈ space.predicates) :
    ∀ pool ∈ space.argumentPools s, pool.Pairwise (· < ·) := by
  obtain ⟨places, hp, _⟩ := h.places s hs
  rw [h.argumentPools_eq hs hp]
  intro pool hpool
  obtain ⟨d, _, rfl⟩ := List.mem_map.1 hpool
  exact sortSymbols_ascending (hd.nodup_symbols _)

include h in
theorem pool_nodup (hd : domains.DuplicateFree) {s : Signature} (hs : s ∈ space.predicates) :
    ∀ pool ∈ space.argumentPools s, pool.Nodup :=
  fun pool hpool => nodup_of_ascending (h.pool_ascending hd hs pool hpool)

include h in
/-- The listed tuples are those with one symbol of each argument domain. -/
theorem mem_tuples_iff_ranges {s : Signature} (hs : s ∈ space.predicates) {tuple : List String} :
    tuple ∈ tuples (space.argumentPools s) ↔ Ranges space.schema domains s tuple := by
  obtain ⟨places, hp, _⟩ := h.places s hs
  rw [h.argumentPools_eq hs hp, mem_tuples_iff, List.forall₂_map_right_iff]
  simp only [mem_sortSymbols]
  constructor
  · exact fun ht => ⟨places, hp, ht⟩
  · rintro ⟨places', hp', ht⟩
    rw [hp] at hp'
    exact Option.some.inj hp' ▸ ht

/-! ## Starts -/

include h in
theorem get?_start_isSome {s : Signature} :
    (∃ start, space.starts.get? s = some start) ↔ s ∈ space.predicates := by
  rw [← h.isOpen_iff, ← Table.mem_keys_iff, isOpen, Table.contains_iff]

include h in
theorem block?_of_split {pre post : List Signature} {s : Signature}
    (he : space.predicates = pre ++ s :: post) :
    space.block? s = some (1 + (pre.map space.width).sum,
      1 + (pre.map space.width).sum + space.width s) := by
  rw [block?, h.start he]
  rfl

include h in
theorem mem_of_numbers {s : Signature} {tuple : List String} {n : Nat}
    (hn : space.Numbers s tuple n) : s ∈ space.predicates := by
  obtain ⟨start, _, hs, _⟩ := hn
  exact h.get?_start_isSome.1 ⟨start, hs⟩

include h in
/-- A number stands in the block of its predicate. -/
theorem numbers_bounds {s : Signature} {tuple : List String} {n : Nat}
    (hn : space.Numbers s tuple n) {pre post : List Signature}
    (he : space.predicates = pre ++ s :: post) :
    1 + (pre.map space.width).sum ≤ n ∧ n < 1 + (pre.map space.width).sum + space.width s := by
  obtain ⟨start, k, hs, hk, rfl⟩ := hn
  rw [h.start he, Option.some.injEq] at hs
  have := lt_volume_of_getElem? hk
  unfold width at *
  omega

include h in
theorem numbers_range {s : Signature} {tuple : List String} {n : Nat}
    (hn : space.Numbers s tuple n) : 1 ≤ n ∧ n ≤ space.size := by
  obtain ⟨pre, post, he⟩ := List.append_of_mem (h.mem_of_numbers hn)
  have := h.numbers_bounds hn he
  have := h.start_add_width_le he
  omega

include h in
/-- Every number of the space is the number of an atom. -/
theorem exists_numbers {n : Nat} (h1 : 1 ≤ n) (h2 : n ≤ space.size) :
    ∃ s tuple, space.Numbers s tuple n := by
  obtain ⟨pre, s, post, he, ha, hb⟩ := h.exists_block h1 h2
  have hlt : n - (1 + (pre.map space.width).sum) < volume (space.argumentPools s) := by
    have hw : space.width s = volume (space.argumentPools s) := rfl
    omega
  obtain ⟨tuple, ht⟩ := exists_getElem?_tuples hlt
  exact ⟨s, tuple, _, _, h.start he, ht, by omega⟩

/-! ## Encoding -/

include h in
theorem encode_of_numbers (hd : domains.DuplicateFree) {s : Signature} {tuple : List String}
    {n : Nat} (hn : space.Numbers s tuple n) : space.encode s tuple = .ok n := by
  have hs := h.mem_of_numbers hn
  obtain ⟨start, k, hstart, hk, rfl⟩ := hn
  have hlen : tuple.length = ((space.schema.get? s).getD []).length := by
    have := length_of_mem_tuples (List.mem_of_getElem? hk)
    simpa [argumentPools, pools] using this
  have hplace : tuplePlace space.symbols 0 ((space.schema.get? s).getD []) tuple = .ok k := by
    have := tuplePlace_of_getElem? (p := 0) (h.pool_nodup hd hs) hk
    simpa using this
  unfold encode
  rw [hstart]
  simp only
  rw [if_neg (by rw [hlen]; exact fun hne => hne rfl), hplace]
  rfl

/-- A predicate that is not open has no numbers. -/
theorem encode_of_notMem (h : space.Laid domains) {s : Signature} (hs : s ∉ space.predicates)
    (tuple : List String) : space.encode s tuple = .error (.notOpen s) := by
  unfold encode
  cases hstart : space.starts.get? s with
  | none => rfl
  | some start => exact absurd (h.get?_start_isSome.1 ⟨start, hstart⟩) hs

include h in
theorem encode_of_length_ne {s : Signature} (hs : s ∈ space.predicates) {tuple : List String}
    {places : List (Option String)} (hp : space.schema.get? s = some places)
    (hl : tuple.length ≠ places.length) :
    space.encode s tuple = .error (.arity s places.length tuple.length) := by
  obtain ⟨start, hstart⟩ := h.get?_start_isSome.2 hs
  unfold encode
  rw [hstart, hp]
  simp only [Option.getD_some]
  rw [if_pos hl]

include h in
/-- A symbol outside its domain is refused. -/
theorem encode_of_not_ranges {s : Signature} (hs : s ∈ space.predicates) {tuple : List String}
    {places : List (Option String)} (hp : space.schema.get? s = some places)
    (hl : tuple.length = places.length) (ht : ¬ Ranges space.schema domains s tuple) :
    ∃ symbol d, (symbol, d) ∈ tuple.zip places ∧ symbol ∉ domains.symbols (.ofOption d) ∧
      space.encode s tuple = .error (.notInDomain symbol d) := by
  obtain ⟨start, hstart⟩ := h.get?_start_isSome.2 hs
  rw [← h.mem_tuples_iff_ranges hs, argumentPools, hp, Option.getD_some] at ht
  obtain ⟨symbol, d, hz, hnot, herr⟩ := tuplePlace_of_notMem (p := 0) hl ht
  refine ⟨symbol, d, hz, ?_, ?_⟩
  · obtain ⟨places', hp', hd⟩ := h.places s hs
    rw [hp] at hp'
    obtain rfl := Option.some.inj hp'
    obtain ⟨list, hlist, hg⟩ := hd d (List.of_mem_zip hz).2
    rw [hg, Option.getD_some, mem_sortSymbols] at hnot
    rw [Domains.symbols, hlist]
    exact hnot
  · unfold encode
    rw [hstart, hp]
    simp only [Option.getD_some]
    rw [if_neg (fun hne => hne hl), herr]
    rfl

include h in
/-- **Encoding computes the numbers of atoms.** -/
theorem encode_eq_ok_iff (hd : domains.DuplicateFree) {s : Signature} {tuple : List String}
    {n : Nat} : space.encode s tuple = .ok n ↔ space.Numbers s tuple n := by
  refine ⟨fun he => ?_, h.encode_of_numbers hd⟩
  by_cases hs : s ∈ space.predicates
  · by_cases ht : Ranges space.schema domains s tuple
    · obtain ⟨k, hk⟩ := List.getElem?_of_mem ((h.mem_tuples_iff_ranges hs).2 ht)
      obtain ⟨start, hstart⟩ := h.get?_start_isSome.2 hs
      have hn : space.Numbers s tuple (start + k) := ⟨start, k, hstart, hk, rfl⟩
      rw [h.encode_of_numbers hd hn] at he
      exact Except.ok.inj he ▸ hn
    · obtain ⟨places, hp, _⟩ := h.places s hs
      by_cases hl : tuple.length = places.length
      · obtain ⟨_, _, _, _, herr⟩ := h.encode_of_not_ranges hs hp hl ht
        rw [herr] at he
        cases he
      · rw [h.encode_of_length_ne hs hp hl] at he
        cases he
  · rw [encode_of_notMem h hs] at he
    cases he

/-! ## Decoding -/

include h in
theorem blockStarts_of_split {pre post : List Signature} {s : Signature}
    (he : space.predicates = pre ++ s :: post) :
    (space.blockStarts[pre.length]?).getD 0 = 1 + (pre.map space.width).sum := by
  unfold blockStarts
  rw [List.getElem?_toArray, List.getElem?_map, he, List.getElem?_append_right (Nat.le_refl _),
    Nat.sub_self, List.getElem?_cons_zero, Option.map_some, Option.getD_some, h.start he,
    Option.getD_some]

theorem exists_split_at (ps : List Signature) {j : Nat} (hj : j < ps.length) :
    ∃ pre s post, ps = pre ++ s :: post ∧ pre.length = j :=
  ⟨ps.take j, ps[j], ps.drop (j + 1), by rw [← List.drop_eq_getElem_cons, List.take_append_drop],
    List.length_take_of_le (Nat.le_of_lt hj)⟩

include h in
/-- The bisection ends at the block that holds the number. -/
theorem owner?_of_split {pre post : List Signature} {s : Signature}
    (he : space.predicates = pre ++ s :: post) {n : Nat}
    (h1 : 1 + (pre.map space.width).sum ≤ n)
    (h2 : n < 1 + (pre.map space.width).sum + space.width s) :
    space.owner? n = some s := by
  have hsize : space.blockStarts.size = space.predicates.length := by simp [blockStarts]
  have hlen : space.predicates.length = pre.length + (post.length + 1) := by
    rw [he, List.length_append, List.length_cons]
  -- the blocks up to that of `s` start at `n` or below, all later ones above
  have hr : bisect space.blockStarts n 0 space.blockStarts.size = pre.length + 1 := by
    refine bisect_eq ?_ ?_ _ _ (Nat.zero_le _) (by omega) (Nat.le_refl _)
    · intro j hj
      obtain ⟨p, t, q, hpt, rfl⟩ := exists_split_at space.predicates (j := j) (by omega)
      rw [h.blockStarts_of_split hpt]
      have hle : (p.map space.width).sum ≤ (pre.map space.width).sum := by
        obtain ⟨c, hc⟩ : p <+: pre :=
          List.prefix_of_prefix_length_le ⟨t :: q, hpt.symm⟩ ⟨s :: post, he.symm⟩ (by omega)
        rw [← hc, List.map_append, List.sum_append]
        omega
      omega
    · intro j hj hjs
      obtain ⟨p, t, q, hpt, rfl⟩ := exists_split_at space.predicates (j := j) (by omega)
      rw [h.blockStarts_of_split hpt]
      have hle : (pre.map space.width).sum + space.width s ≤ (p.map space.width).sum := by
        obtain ⟨c, hc⟩ : pre ++ [s] <+: p :=
          List.prefix_of_prefix_length_le ⟨post, by rw [he]; simp⟩ ⟨t :: q, hpt.symm⟩
            (by rw [List.length_append]; exact hj)
        rw [← hc, List.map_append, List.map_append, List.sum_append, List.sum_append]
        simp
      omega
  unfold owner?
  simp only [hr]
  rw [he, List.getElem?_append_right (Nat.le_refl _), Nat.sub_self, List.getElem?_cons_zero]

include h in
/-- **Decoding gives the atom that has the number.** -/
theorem decode_of_numbers {s : Signature} {tuple : List String} {n : Nat}
    (hn : space.Numbers s tuple n) : space.decode n = .ok (s, tuple) := by
  obtain ⟨pre, post, he⟩ := List.append_of_mem (h.mem_of_numbers hn)
  obtain ⟨hb1, hb2⟩ := h.numbers_bounds hn he
  obtain ⟨hr1, hr2⟩ := h.numbers_range hn
  obtain ⟨start, k, hstart, hk, rfl⟩ := hn
  have hrange : ¬ ((decide (((start + k : Nat) : Int) < 1) ||
      decide ((space.size : Int) < ((start + k : Nat) : Int))) = true) := by
    simp only [Bool.or_eq_true, decide_eq_true_eq]
    omega
  have hplace : ((start + k : Nat) : Int) - ((start : Nat) : Int) = ((k : Nat) : Int) := by omega
  unfold decode
  rw [if_neg hrange, h.owner?_of_split he hb1 hb2]
  simp only [hstart, Option.getD_some]
  rw [hplace, tupleAt_of_getElem? (by rw [List.reverse_reverse]; exact hk)]
  simp only [bind, Except.bind, List.reverse_reverse]
  rfl

theorem decode_out_of_range (space : AtomSpace) {n : Int} (hn : n < 1 ∨ (space.size : Int) < n) :
    space.decode n = .error (.outOfRange n space.size) := by
  unfold decode
  rw [if_pos (by simpa using hn)]

end Laid

end AtomSpace

end MarkovLogic
