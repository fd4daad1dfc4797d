import MarkovLogic.Proofs.AtomSpace.Codec
import MarkovLogic.Proofs.AtomSpace.Bounds
import MarkovLogic.Proofs.AtomSpace.Existence
import Mathlib

/-!
# Repeated symbols

A mapping of domains may list a symbol twice. Encoding counts the symbols of a domain each once, and
decoding and the block sizes count them as often as they are listed. The place of a tuple is
multiplied by these counts from the second argument on, so the two agree when no domain there
repeats a symbol (`faithful_of_build`). Otherwise two atoms can get one number
(`encode_eq_collidingDomains`). Atoms of different predicates never do, whatever is repeated
(`eq_of_encode_eq`).
-/

namespace MarkovLogic

namespace AtomSpace

/-! ## Blocks of different predicates -/

section Blocks

variable (size : Signature → Nat)

/-- All blocks end where the next one starts. -/
def EndBy (starts : Table Signature Nat) (next : Nat) : Prop :=
  ∀ s first, starts.get? s = some first → first + size s ≤ next

/-- The blocks of different predicates do not meet. -/
def Apart (starts : Table Signature Nat) : Prop :=
  ∀ s t first first', starts.get? s = some first → starts.get? t = some first' → s ≠ t →
    first + size s ≤ first' ∨ first' + size t ≤ first

theorem allocate_apart (ps : List Signature) : ∀ (starts : Table Signature Nat) next,
    EndBy size starts next → Apart size starts →
      Apart size (allocate size starts next ps).1 := by
  induction ps with
  | nil => intro starts next _ hapart; exact hapart
  | cons p ps ih =>
    intro starts next hend hapart
    rw [allocate]
    apply ih
    · intro s first hs
      rw [Table.get?_insert] at hs
      split at hs
      · next hsp =>
        obtain rfl := Option.some.inj hs
        rw [hsp]
      · have := hend s first hs
        omega
    · intro s t first first' hs ht hne
      rw [Table.get?_insert] at hs ht
      -- the new block starts where all others have ended
      split at hs
      · next hsp =>
        rw [if_neg fun htp => hne (hsp.trans htp.symm)] at ht
        obtain rfl := Option.some.inj hs
        exact .inr (hend t first' ht)
      · split at ht
        · obtain rfl := Option.some.inj ht
          exact .inl (hend s first hs)
        · exact hapart s t first first' hs ht hne

end Blocks

variable {schema : PredicateSchema} {domains : Domains} {query hidden : List Signature}
  {space : AtomSpace}

/-- **Atoms of different predicates have different numbers**, whatever the domains repeat. -/
theorem eq_of_encode_eq (hb : build schema domains query hidden = .ok space) {s t : Signature}
    {tuple tuple' : List String} {id : Nat} (hs : space.encode s tuple = .ok id)
    (ht : space.encode t tuple' = .ok id) : s = t := by
  by_contra hne
  obtain ⟨first, place, hfirst, hl, hplace, rfl⟩ := encode_eq_ok_cases hs
  obtain ⟨first', place', hfirst', hl', hplace', he⟩ := encode_eq_ok_cases ht
  have hlt := tuplePlace_lt hl hplace
  have hlt' := tuplePlace_lt hl' hplace'
  obtain ⟨-, symbols, -, rfl⟩ := build_cases hb
  have hapart : Apart (blockSize schema symbols)
      (allocate (blockSize schema symbols) Table.empty 1 (query ++ hidden)).1 := by
    apply allocate_apart
    · intro s first hs
      cases hs
    · intro s t first first' hs
      cases hs
  change place < (0 + 1) * blockSize schema symbols s at hlt
  change place' < (0 + 1) * blockSize schema symbols t at hlt'
  have := hapart s t first first' hfirst hfirst' hne
  omega

/-! ## Tuples of one predicate -/

/-- A tuple that has a place has a symbol of each list. -/
theorem mem_tuples_of_tuplePlace {symbols : Table (Option String) (List String)}
    {places : List (Option String)} {tuple : List String} {p k : Nat}
    (hl : tuple.length = places.length) (h : tuplePlace symbols p places tuple = .ok k) :
    tuple ∈ tuples (pools symbols places) := by
  by_contra hnot
  obtain ⟨_, _, -, -, herr⟩ := tuplePlace_of_notMem (p := p) hl hnot
  rw [herr] at h
  cases h

/-- When only the first list repeats symbols, a place is an index of its tuple. -/
theorem getElem?_of_tuplePlace {symbols : Table (Option String) (List String)}
    {places : List (Option String)} {tuple : List String} {k : Nat}
    (hl : tuple.length = places.length) (htail : ∀ pool ∈ (pools symbols places).tail, pool.Nodup)
    (h : tuplePlace symbols 0 places tuple = .ok k) :
    (tuples (pools symbols places))[k]? = some tuple := by
  cases places with
  | nil =>
    obtain rfl := List.length_eq_zero_iff.1 hl
    rw [tuplePlace] at h
    · obtain rfl := Except.ok.inj h
      rfl
    · simp
  | cons d places =>
    cases tuple with
    | nil => cases hl
    | cons s rest =>
      rw [tuplePlace] at h
      cases hpos : position? ((symbols.get? d).getD []) s with
      | none => simp [hpos] at h
      | some i =>
        simp only [hpos, Nat.zero_mul, Nat.zero_add] at h
        have hrest := mem_tuples_of_tuplePlace (by simpa using hl) h
        obtain ⟨j, hj⟩ := List.getElem?_of_mem hrest
        have hlt := lt_volume_of_getElem? hj
        rw [tuplePlace_of_getElem? htail hj] at h
        obtain rfl := Except.ok.inj h
        have hdiv : (i * volume (pools symbols places) + j) / volume (pools symbols places) = i := by
          rw [Nat.mul_comm, Nat.mul_add_div (by omega), Nat.div_eq_of_lt hlt, Nat.add_zero]
        have hmod : (i * volume (pools symbols places) + j) % volume (pools symbols places) = j := by
          rw [Nat.mul_comm, Nat.mul_add_mod, Nat.mod_eq_of_lt hlt]
        change (tuples ((symbols.get? d).getD [] :: pools symbols places))[_]? = _
        rw [getElem?_tuples_cons, hdiv, hmod, getElem?_of_position? hpos, hj]
        rfl

section

variable (hb : build schema domains query hidden = .ok space) {s : Signature}
  (hs : s ∈ query ++ hidden) {places : List (Option String)}
  (hplaces : schema.get? s = some places)

include hb hs hplaces

theorem pool_of_build : space.schema.get? s = some places ∧ ∀ d ∈ places,
    (space.symbols.get? d).getD [] = sortSymbols (domains.symbols (.ofOption d)) := by
  obtain ⟨-, symbols, hsymbols, rfl⟩ := build_cases hb
  obtain ⟨hcollected, hkeys⟩ := collectSymbols_ok hsymbols
  obtain ⟨places', hplaces', hkeys⟩ := hkeys s hs
  obtain rfl := Option.some.inj (hplaces.symm.trans hplaces')
  refine ⟨hplaces, fun d hd => ?_⟩
  obtain ⟨pool, hpool⟩ := (Table.mem_keys_iff _).1 (hkeys d hd)
  obtain ⟨list, hlist, rfl⟩ := hcollected d pool hpool
  rw [hpool, Domains.symbols, hlist]
  rfl

/-- Encoding computes numbers where the domains repeat no symbol from the second argument on. -/
theorem numbers_of_encode
    (htail : ∀ d ∈ places.tail, (domains.symbols (.ofOption d)).Nodup) {tuple : List String}
    {id : Nat} (h : space.encode s tuple = .ok id) : space.Numbers s tuple id := by
  obtain ⟨hschema, hpools⟩ := pool_of_build hb hs hplaces
  obtain ⟨start, place, hstart, hl, hplace, rfl⟩ := encode_eq_ok_cases h
  refine ⟨start, place, hstart, ?_, rfl⟩
  rw [hschema, Option.getD_some] at hl hplace
  rw [argumentPools, hschema, Option.getD_some]
  refine getElem?_of_tuplePlace hl ?_ hplace
  rw [pools, ← List.map_tail]
  intro pool hpool
  obtain ⟨d, hd, rfl⟩ := List.mem_map.1 hpool
  rw [hpools d (List.mem_of_mem_tail hd)]
  exact (List.mergeSort_perm _ _).nodup_iff.2 (htail d hd)

/-- **Without repeats from the second argument on, a predicate's numbers are faithful.** Every tuple
of domain symbols has a number, no other atom has that number, and if no predicate is listed twice,
decoding the number gives the predicate and the tuple back. -/
theorem faithful_of_build
    (htail : ∀ d ∈ places.tail, (domains.symbols (.ofOption d)).Nodup) :
    (∀ tuple, List.Forall₂ (fun symbol d => symbol ∈ domains.symbols (.ofOption d)) tuple places →
      ∃ id, space.encode s tuple = .ok id) ∧
    (∀ tuple s' tuple' id, space.encode s tuple = .ok id → space.encode s' tuple' = .ok id →
      s' = s ∧ tuple' = tuple) ∧
    (query.Nodup → hidden.Nodup → ∀ tuple id, space.encode s tuple = .ok id →
      space.decode id = .ok (s, tuple)) := by
  refine ⟨fun tuple htuple => exists_encode hb hs hplaces htuple, ?_, ?_⟩
  · intro tuple s' tuple' id he he'
    obtain rfl := eq_of_encode_eq hb he' he
    obtain ⟨start, k, hstart, hk, rfl⟩ := numbers_of_encode hb hs hplaces htail he
    obtain ⟨start', k', hstart', hk', hid⟩ := numbers_of_encode hb hs hplaces htail he'
    obtain rfl := Option.some.inj (hstart.symm.trans hstart')
    obtain rfl : k = k' := by omega
    exact ⟨rfl, Option.some.inj (hk'.symm.trans hk)⟩
  · intro hq hh tuple id he
    exact (laid_of_build hb hq hh).decode_of_numbers (numbers_of_encode hb hs hplaces htail he)

end

/-- A list of persons with one of them twice, and places without repeats. -/
def visitDomains : Domains :=
  Domains.ofList [(.text "person", ["Anna", "Bob", "Bob"]), (.text "place", ["Shop", "Park"])]

def visitSchema : PredicateSchema :=
  Table.ofList [(⟨"At", 2⟩, [some "person", some "place"])]

/-- The repeated person stands at the first argument. The numbers 3 and 4, of his first place in the
list, are those of no atom. -/
theorem faithful_visits :
    ¬ (visitDomains.symbols (.text "person")).Nodup ∧
      (∀ d ∈ [some "place"], (visitDomains.symbols (.ofOption d)).Nodup) ∧
      (⟨"At", 2⟩ : Signature) ∈ [(⟨"At", 2⟩ : Signature)] ++ [] ∧
      visitSchema.get? ⟨"At", 2⟩ = some [some "person", some "place"] ∧
      ∃ space, build visitSchema visitDomains [⟨"At", 2⟩] [] = .ok space ∧ space.size = 6 ∧
        space.encode ⟨"At", 2⟩ ["Bob", "Park"] = .ok 5 ∧
        (∀ tuple, List.Forall₂ (fun symbol d => symbol ∈ visitDomains.symbols (.ofOption d)) tuple
            [some "person", some "place"] → ∃ id, space.encode ⟨"At", 2⟩ tuple = .ok id) ∧
        (∀ tuple s' tuple' id, space.encode ⟨"At", 2⟩ tuple = .ok id →
          space.encode s' tuple' = .ok id → s' = ⟨"At", 2⟩ ∧ tuple' = tuple) ∧
        ∀ tuple id, space.encode ⟨"At", 2⟩ tuple = .ok id →
          space.decode id = .ok (⟨"At", 2⟩, tuple) := by
  have hrepeat : ¬ (visitDomains.symbols (.text "person")).Nodup := by decide +kernel
  have htail : ∀ d ∈ [some "place"], (visitDomains.symbols (.ofOption d)).Nodup := by
    decide +kernel
  have hs : (⟨"At", 2⟩ : Signature) ∈ [(⟨"At", 2⟩ : Signature)] ++ [] := List.mem_singleton_self _
  have hplaces : visitSchema.get? ⟨"At", 2⟩ = some [some "person", some "place"] := by
    decide +kernel
  have hshape : (build visitSchema visitDomains [⟨"At", 2⟩] []).map (fun space =>
      (space.size, space.encode ⟨"At", 2⟩ ["Bob", "Park"])) = .ok (6, .ok 5) := by cbv
  obtain ⟨space, hb, he⟩ := map_eq_ok_iff.1 hshape
  simp only [Prod.mk.injEq] at he
  obtain ⟨hnumbered, hapart, hdecoded⟩ := faithful_of_build hb hs hplaces htail
  exact ⟨hrepeat, htail, hs, hplaces, space, hb, he.1, he.2, hnumbered, hapart,
    hdecoded (List.nodup_singleton _) List.nodup_nil⟩

/-! ## A repeated symbol -/

/-- Three symbols, the last of them listed twice. -/
def collidingDomains : Domains :=
  Domains.ofList [(.text "d", ["A", "B", "C", "C"])]

def collidingSchema : PredicateSchema :=
  Table.ofList [(⟨"P", 2⟩, [some "d", some "d"])]

/-- **Two atoms can have one number**, and decoding it gives one of them. -/
theorem encode_eq_collidingDomains :
    ∃ space, build collidingSchema collidingDomains [⟨"P", 2⟩] [] = .ok space ∧
      space.encode ⟨"P", 2⟩ ["A", "C"] = .ok 4 ∧ space.encode ⟨"P", 2⟩ ["B", "A"] = .ok 4 ∧
      space.decode 4 = .ok (⟨"P", 2⟩, ["A", "C"]) := by
  have h : (build collidingSchema collidingDomains [⟨"P", 2⟩] []).map (fun space =>
      (space.encode ⟨"P", 2⟩ ["A", "C"], space.encode ⟨"P", 2⟩ ["B", "A"], space.decode 4)) =
        .ok (.ok 4, .ok 4, .ok (⟨"P", 2⟩, ["A", "C"])) := by cbv
  obtain ⟨space, hb, he⟩ := map_eq_ok_iff.1 h
  simp only [Prod.mk.injEq] at he
  exact ⟨space, hb, he⟩

end AtomSpace

end MarkovLogic
