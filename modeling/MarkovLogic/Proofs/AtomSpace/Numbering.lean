import MarkovLogic.Proofs.AtomSpace.Codec
import Mathlib.Data.List.Permutation

/-!
# The numbering of ground atoms

A space over distinct predicates and duplicate-free domains numbers its atoms (`IsNumbering`):
encoding and decoding are inverse to each other, the blocks of the predicates divide the numbers
from 1 to the size of the space in the order of the predicates, each block lists the product of the
sorted argument domains in order, and everything else is refused (`isNumbering_of_build`).
-/

namespace MarkovLogic

namespace AtomSpace

/-- The numbers of a space are the ground atoms of its open predicates. -/
structure IsNumbering (space : AtomSpace) (schema : PredicateSchema) (domains : Domains)
    (query hidden : List Signature) : Prop where
  /-- A number up to the size decodes to an atom of an open predicate, which encodes to it. -/
  encode_of_decode : ∀ n : Nat, 1 ≤ n → n ≤ space.size → ∃ s tuple,
    space.decode n = .ok (s, tuple) ∧ s ∈ query ++ hidden ∧ Ranges schema domains s tuple ∧
      space.encode s tuple = .ok n
  /-- An atom of an open predicate encodes to a number in its block, which decodes to it. -/
  decode_of_encode : ∀ s ∈ query ++ hidden, ∀ tuple, Ranges schema domains s tuple →
    ∃ n : Nat, space.encode s tuple = .ok n ∧ space.InBlock s n ∧
      space.decode n = .ok (s, tuple)
  /-- The blocks cover exactly the numbers from 1 to the size. -/
  cover : ∀ n : Int, (1 ≤ n ∧ n ≤ space.size) ↔ ∃ s ∈ query ++ hidden, space.InBlock s n
  /-- The blocks lie one behind the other, those of query predicates first. -/
  ordered : (query ++ hidden).Pairwise fun s t =>
    ∀ m n, space.InBlock s m → space.InBlock t n → m < n
  /-- A block numbers the product of the sorted argument domains in its order. -/
  product : ∀ s ∈ query ++ hidden, ∃ places first last, schema.get? s = some places ∧
    space.block? s = some (first, last) ∧
    (tuples (places.map fun d => sortSymbols (domains.symbols (.ofOption d)))).map
      (space.encode s) = (List.range' first (last - first)).map .ok
  /-- Numbers within a block grow with the lexicographic order of the tuples. -/
  lexicographic : ∀ s tuple tuple' m n, space.encode s tuple = .ok m →
    space.encode s tuple' = .ok n → (m < n ↔ tuple < tuple')
  /-- The query atoms have the numbers up to the end of the query range. -/
  query_iff : ∀ n : Int, (∃ s tuple, space.decode n = .ok (s, tuple) ∧ s ∈ query) ↔
    1 ≤ n ∧ n ≤ space.queryEnd
  encode_notOpen : ∀ s tuple, s ∉ query ++ hidden → space.encode s tuple = .error (.notOpen s)
  encode_arity : ∀ s ∈ query ++ hidden, ∀ places tuple, schema.get? s = some places →
    tuple.length ≠ places.length →
      space.encode s tuple = .error (.arity s places.length tuple.length)
  /-- A tuple of the right length that leaves its domains is refused with such a symbol. -/
  encode_notInDomain : ∀ s ∈ query ++ hidden, ∀ places tuple, schema.get? s = some places →
    tuple.length = places.length → ¬ Ranges schema domains s tuple →
      ∃ symbol d, (symbol, d) ∈ tuple.zip places ∧ symbol ∉ domains.symbols (.ofOption d) ∧
        space.encode s tuple = .error (.notInDomain symbol d)
  decode_outOfRange : ∀ n : Int, ¬ (1 ≤ n ∧ n ≤ space.size) →
    space.decode n = .error (.outOfRange n space.size)

/-! ## Splits of the list of predicates -/

theorem pairwise_of_splits {α : Type} {R : α → α → Prop} :
    ∀ {l : List α}, (∀ a x b y c, l = a ++ x :: (b ++ y :: c) → R x y) → l.Pairwise R := by
  intro l
  induction l with
  | nil => intro _; exact .nil
  | cons x l ih =>
    intro h
    refine List.pairwise_cons.2 ⟨fun y hy => ?_, ih fun a u b v c he => ?_⟩
    · obtain ⟨b, c, rfl⟩ := List.append_of_mem hy
      exact h [] x b y c rfl
    · exact h (x :: a) u b v c (by rw [he, List.cons_append])

namespace Laid

variable {space : AtomSpace} {domains : Domains} (h : space.Laid domains)

include h in
theorem inBlock_iff_of_split {pre post : List Signature} {s : Signature}
    (he : space.predicates = pre ++ s :: post) {n : Int} :
    space.InBlock s n ↔ ((1 + (pre.map space.width).sum : Nat) : Int) ≤ n ∧
      n < ((1 + (pre.map space.width).sum + space.width s : Nat) : Int) := by
  unfold InBlock
  rw [h.block?_of_split he]
  constructor
  · rintro ⟨first, last, hb, h1, h2⟩
    simp only [Option.some.injEq, Prod.mk.injEq] at hb
    obtain ⟨rfl, rfl⟩ := hb
    exact ⟨h1, h2⟩
  · rintro ⟨h1, h2⟩
    exact ⟨_, _, rfl, h1, h2⟩

include h in
theorem inBlock_of_numbers {s : Signature} {tuple : List String} {n : Nat}
    (hn : space.Numbers s tuple n) : space.InBlock s n := by
  obtain ⟨pre, post, he⟩ := List.append_of_mem (h.mem_of_numbers hn)
  rw [h.inBlock_iff_of_split he]
  have := h.numbers_bounds hn he
  omega

include h in
theorem inBlock_cover (n : Int) :
    (1 ≤ n ∧ n ≤ space.size) ↔ ∃ s ∈ space.predicates, space.InBlock s n := by
  constructor
  · rintro ⟨h1, h2⟩
    obtain ⟨m, rfl⟩ := Int.eq_ofNat_of_zero_le (Int.le_trans (by decide) h1)
    obtain ⟨s, tuple, hn⟩ := h.exists_numbers (n := m) (by omega) (by omega)
    exact ⟨s, h.mem_of_numbers hn, h.inBlock_of_numbers hn⟩
  · rintro ⟨s, hs, hb⟩
    obtain ⟨pre, post, he⟩ := List.append_of_mem hs
    have hb := (h.inBlock_iff_of_split he).1 hb
    have := h.start_add_width_le he
    omega

include h in
theorem blocks_ordered : space.predicates.Pairwise fun s t =>
    ∀ m n, space.InBlock s m → space.InBlock t n → m < n := by
  apply pairwise_of_splits
  intro pre s mid t post he m n hm hn
  have hm := (h.inBlock_iff_of_split he).1 hm
  have het : space.predicates = (pre ++ s :: mid) ++ t :: post := by rw [he]; simp
  have hn := (h.inBlock_iff_of_split het).1 hn
  rw [List.map_append, List.map_cons, List.sum_append, List.sum_cons] at hn
  omega

include h in
/-- The numbers of a block in their order belong to the tuples in theirs. -/
theorem map_encode_tuples (hd : domains.DuplicateFree) {s : Signature} {start : Nat}
    (hs : space.starts.get? s = some start) :
    (tuples (space.argumentPools s)).map (space.encode s) =
      (List.range' start (space.width s)).map .ok := by
  apply List.ext_getElem?
  intro k
  rw [List.getElem?_map, List.getElem?_map]
  by_cases hk : k < space.width s
  · obtain ⟨tuple, ht⟩ := exists_getElem?_tuples hk
    rw [ht, List.getElem?_range' hk, Option.map_some, Option.map_some,
      h.encode_of_numbers hd ⟨start, k, hs, ht, rfl⟩, Nat.one_mul]
  · have hl : (tuples (space.argumentPools s)).length ≤ k := by
      rw [length_tuples]
      exact Nat.le_of_not_lt hk
    rw [List.getElem?_eq_none hl, List.getElem?_eq_none (by simpa using hk)]
    rfl

include h in
/-- Numbers of atoms of one predicate compare as their tuples do. -/
theorem numbers_lt_iff (hd : domains.DuplicateFree) {s : Signature} {tuple tuple' : List String}
    {m n : Nat} (hm : space.Numbers s tuple m) (hn : space.Numbers s tuple' n) :
    m < n ↔ tuple < tuple' := by
  have hs := h.mem_of_numbers hm
  obtain ⟨start, i, hstart, hi, rfl⟩ := hm
  obtain ⟨start', j, hstart', hj, rfl⟩ := hn
  rw [hstart, Option.some.injEq] at hstart'
  subst hstart'
  have hasc := List.pairwise_iff_getElem.1 (tuples_ascending (h.pool_ascending hd hs))
  obtain ⟨hil, rfl⟩ := List.getElem?_eq_some_iff.1 hi
  obtain ⟨hjl, rfl⟩ := List.getElem?_eq_some_iff.1 hj
  constructor
  · intro hlt
    exact hasc i j hil hjl (by omega)
  · intro hlt
    rcases Nat.lt_trichotomy i j with hij | rfl | hji
    · omega
    · exact absurd hlt (List.lt_irrefl _)
    · exact absurd hlt (List.lt_asymm (hasc j i hjl hil hji))

include h in
/-- A number lies in the query range exactly when its predicate is a query predicate. -/
theorem mem_query_iff {s : Signature} {tuple : List String} {n : Nat}
    (hn : space.Numbers s tuple n) : s ∈ space.query ↔ n ≤ space.queryEnd := by
  constructor
  · intro hs
    obtain ⟨p, q, hq⟩ := List.append_of_mem hs
    have he : space.predicates = p ++ s :: (q ++ space.hidden) := by
      rw [predicates, hq]
      simp
    have := h.numbers_bounds hn he
    rw [h.queryEnd_eq, hq, List.map_append, List.sum_append, List.map_cons, List.sum_cons]
    omega
  · intro hle
    rcases List.mem_append.1 (h.mem_of_numbers hn) with hs | hs
    · exact hs
    · obtain ⟨p, q, hq⟩ := List.append_of_mem hs
      have he : space.predicates = (space.query ++ p) ++ s :: q := by
        rw [predicates, hq]
        simp
      have := h.numbers_bounds hn he
      rw [h.queryEnd_eq] at hle
      rw [List.map_append, List.sum_append] at this
      omega

include h in
theorem decode_mem_query_iff (n : Int) :
    (∃ s tuple, space.decode n = .ok (s, tuple) ∧ s ∈ space.query) ↔
      1 ≤ n ∧ n ≤ space.queryEnd := by
  have hend : space.queryEnd ≤ space.size := by
    rw [h.queryEnd_eq, h.size_eq, predicates, List.map_append, List.sum_append]
    omega
  by_cases hr : 1 ≤ n ∧ n ≤ space.size
  · obtain ⟨m, rfl⟩ := Int.eq_ofNat_of_zero_le (Int.le_trans (by decide) hr.1)
    obtain ⟨s, tuple, hn⟩ := h.exists_numbers (n := m) (by omega) (by omega)
    have hdec := h.decode_of_numbers hn
    constructor
    · rintro ⟨s', tuple', hdec', hs'⟩
      rw [hdec, Except.ok.injEq, Prod.mk.injEq] at hdec'
      have := (h.mem_query_iff hn).1 (hdec'.1 ▸ hs')
      omega
    · intro hle
      exact ⟨s, tuple, hdec, (h.mem_query_iff hn).2 (by omega)⟩
  · constructor
    · rintro ⟨s, tuple, hdec, _⟩
      rw [decode_out_of_range space (by omega)] at hdec
      cases hdec
    · intro hle
      exact absurd ⟨hle.1, by omega⟩ hr

end Laid

/-- **A space over distinct predicates and duplicate-free domains numbers its atoms**: encoding and
decoding are mutually inverse, and they refuse everything that is no atom and no number. -/
theorem isNumbering_of_build {schema : PredicateSchema} {domains : Domains}
    {query hidden : List Signature} {space : AtomSpace}
    (hb : build schema domains query hidden = .ok space) (hd : domains.DuplicateFree)
    (hq : query.Nodup) (hh : hidden.Nodup) :
    space.IsNumbering schema domains query hidden := by
  have h := laid_of_build hb hq hh
  obtain ⟨rfl, rfl, rfl⟩ : space.schema = schema ∧ space.query = query ∧
      space.hidden = hidden := by
    obtain ⟨-, _, -, rfl⟩ := build_cases hb
    exact ⟨rfl, rfl, rfl⟩
  constructor
  case encode_of_decode =>
    intro n h1 h2
    obtain ⟨s, tuple, hn⟩ := h.exists_numbers h1 h2
    have hs := h.mem_of_numbers hn
    have ht : tuple ∈ tuples (space.argumentPools s) := by
      obtain ⟨_, _, _, hk, _⟩ := hn
      exact List.mem_of_getElem? hk
    exact ⟨s, tuple, h.decode_of_numbers hn, hs, (h.mem_tuples_iff_ranges hs).1 ht,
      h.encode_of_numbers hd hn⟩
  case decode_of_encode =>
    intro s hs tuple ht
    obtain ⟨k, hk⟩ := List.getElem?_of_mem ((h.mem_tuples_iff_ranges hs).2 ht)
    obtain ⟨start, hstart⟩ := h.get?_start_isSome.2 hs
    have hn : space.Numbers s tuple (start + k) := ⟨start, k, hstart, hk, rfl⟩
    exact ⟨start + k, h.encode_of_numbers hd hn, h.inBlock_of_numbers hn, h.decode_of_numbers hn⟩
  case cover => exact h.inBlock_cover
  case ordered => exact h.blocks_ordered
  case product =>
    intro s hs
    obtain ⟨places, hp, _⟩ := h.places s hs
    obtain ⟨start, hstart⟩ := h.get?_start_isSome.2 hs
    refine ⟨places, start, start + space.width s, hp, by rw [block?, hstart]; rfl, ?_⟩
    rw [← h.argumentPools_eq hs hp, h.map_encode_tuples hd hstart, Nat.add_sub_cancel_left]
  case lexicographic =>
    intro s tuple tuple' m n hm hn
    exact h.numbers_lt_iff hd ((h.encode_eq_ok_iff hd).1 hm) ((h.encode_eq_ok_iff hd).1 hn)
  case query_iff => exact h.decode_mem_query_iff
  case encode_notOpen =>
    intro s tuple hs
    exact h.encode_of_notMem hs tuple
  case encode_arity =>
    intro s hs places tuple hp hl
    exact h.encode_of_length_ne hs hp hl
  case encode_notInDomain =>
    intro s hs places tuple hp hl ht
    exact h.encode_of_not_ranges hs hp hl ht
  case decode_outOfRange =>
    intro n hn
    exact Laid.decode_out_of_range space (by omega)

/-- Predicates about meetings: one over a domain without symbols and one without arguments. -/
def meetingSchema : PredicateSchema :=
  Table.ofList [(⟨"At", 2⟩, [some "person", some "place"]),
    (⟨"Knows", 2⟩, [some "person", some "person"]), (⟨"Rain", 0⟩, [])]

/-- Two persons and no place. -/
def meetingDomains : DomainMap :=
  .ofDomains (Domains.ofList [(.text "person", ["Bob", "Anna", "Bob"]), (.text "place", [])])

/-- A space whose first block is empty, so that two blocks start at 1. -/
theorem isNumbering_meeting :
    meetingDomains.domains.DuplicateFree ∧ ([⟨"At", 2⟩, ⟨"Knows", 2⟩] : List Signature).Nodup ∧
      ([⟨"Rain", 0⟩] : List Signature).Nodup ∧
      ∃ space, build meetingSchema meetingDomains.domains [⟨"At", 2⟩, ⟨"Knows", 2⟩] [⟨"Rain", 0⟩] =
          .ok space ∧ space.size = 5 ∧ space.queryEnd = 4 ∧
        space.IsNumbering meetingSchema meetingDomains.domains [⟨"At", 2⟩, ⟨"Knows", 2⟩]
          [⟨"Rain", 0⟩] := by
  have hd : meetingDomains.domains.DuplicateFree := DomainMap.ofDomains_duplicateFree _
  have hq : ([⟨"At", 2⟩, ⟨"Knows", 2⟩] : List Signature).Nodup := by decide
  have hh : ([⟨"Rain", 0⟩] : List Signature).Nodup := by decide
  have hshape : (build meetingSchema meetingDomains.domains [⟨"At", 2⟩, ⟨"Knows", 2⟩]
      [⟨"Rain", 0⟩]).map (fun space => (space.size, space.queryEnd)) = .ok (5, 4) := by cbv
  obtain ⟨space, hb, he⟩ := map_eq_ok_iff.1 hshape
  simp only [Prod.mk.injEq] at he
  exact ⟨hd, hq, hh, space, hb, he.1, he.2, isNumbering_of_build hb hd hq hh⟩

end AtomSpace

end MarkovLogic
