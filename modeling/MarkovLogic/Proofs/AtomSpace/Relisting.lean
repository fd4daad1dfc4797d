import MarkovLogic.Proofs.AtomSpace.Numbering
import MarkovLogic.Proofs.AtomSpace.Repeats
import Mathlib

/-!
# Predicates that are listed again

The construction of a space refuses a predicate that is both query and hidden, but not one that one
of the two lists names again. Such a predicate gets another block, and the numbers of its first
block are those of no atom. So a space has as many numbers as atoms exactly when every predicate
that is listed again has no atoms (`size_eq_ncard_iff`), and only then every number decodes to an
atom that has this number (`numbersOnce_of_build`).
-/

namespace MarkovLogic

namespace AtomSpace

/-- The ground atoms of the listed predicates. -/
def groundAtoms (schema : PredicateSchema) (domains : Domains) (listed : List Signature) :
    Set (Signature × List String) :=
  {a | a.1 ∈ listed ∧ Ranges schema domains a.1 a.2}

/-- A predicate that is listed again has no ground atoms. -/
def RepeatsOnlyEmpty (schema : PredicateSchema) (domains : Domains) (listed : List Signature) :
    Prop :=
  ∀ s, 2 ≤ listed.count s → ∀ tuple, ¬ Ranges schema domains s tuple

/-- Every number of the space decodes to an atom that has this number. -/
def RoundTrips (space : AtomSpace) : Prop :=
  ∀ id : Nat, 1 ≤ id → id ≤ space.size →
    ∃ s tuple, space.decode id = .ok (s, tuple) ∧ space.encode s tuple = .ok id

theorem Laid.roundTrips {space : AtomSpace} {domains : Domains} (h : space.Laid domains)
    (hd : domains.DuplicateFree) : space.RoundTrips := by
  intro id h1 h2
  obtain ⟨s, tuple, hn⟩ := h.exists_numbers h1 h2
  exact ⟨s, tuple, h.decode_of_numbers hn, h.encode_of_numbers hd hn⟩

section Built

variable {schema : PredicateSchema} {domains : Domains} {query hidden : List Signature}
  {space : AtomSpace} (hb : build schema domains query hidden = .ok space)

include hb

/-! ## Atoms of one predicate -/

theorem argumentPools_of_build {s : Signature} (hs : s ∈ query ++ hidden) :
    ∃ places, schema.get? s = some places ∧
      space.argumentPools s = places.map fun d => sortSymbols (domains.symbols (.ofOption d)) := by
  obtain ⟨-, symbols, hsymbols, -⟩ := build_cases hb
  obtain ⟨places, hplaces, -⟩ := (collectSymbols_ok hsymbols).2 s hs
  obtain ⟨hschema, hpools⟩ := pool_of_build hb hs hplaces
  refine ⟨places, hplaces, ?_⟩
  rw [argumentPools, hschema]
  exact List.map_congr_left hpools

theorem mem_tuples_of_build {s : Signature} (hs : s ∈ query ++ hidden) {tuple : List String} :
    tuple ∈ tuples (space.argumentPools s) ↔ Ranges schema domains s tuple := by
  obtain ⟨places, hplaces, hpools⟩ := argumentPools_of_build hb hs
  rw [hpools, mem_tuples_iff, List.forall₂_map_right_iff]
  simp [Ranges, hplaces, mem_sortSymbols]

theorem width_eq_zero_iff {s : Signature} (hs : s ∈ query ++ hidden) :
    space.width s = 0 ↔ ∀ tuple, ¬ Ranges schema domains s tuple := by
  rw [width, ← length_tuples, List.length_eq_zero_iff, List.eq_nil_iff_forall_not_mem]
  simp only [mem_tuples_of_build hb hs]

theorem nodup_tuples_of_build (hd : domains.DuplicateFree) {s : Signature}
    (hs : s ∈ query ++ hidden) : (tuples (space.argumentPools s)).Nodup := by
  obtain ⟨places, -, hpools⟩ := argumentPools_of_build hb hs
  apply nodup_tuples
  rw [hpools]
  intro pool hpool
  obtain ⟨d, -, rfl⟩ := List.mem_map.1 hpool
  exact nodup_sortSymbols.2 (hd.nodup_symbols _)

/-- Only ground atoms of listed predicates have numbers. -/
theorem mem_groundAtoms_of_encode {s : Signature} {tuple : List String} {id : Nat}
    (h : space.encode s tuple = .ok id) :
    (s, tuple) ∈ groundAtoms schema domains (query ++ hidden) := by
  obtain ⟨start, place, hstart, hl, hplace, -⟩ := encode_eq_ok_cases h
  have hs : s ∈ query ++ hidden := by
    obtain ⟨-, symbols, -, rfl⟩ := build_cases hb
    have hkey := (Table.mem_keys_iff _).2 ⟨start, hstart⟩
    rw [mem_keys_allocate] at hkey
    exact hkey.resolve_left List.not_mem_nil
  exact ⟨hs, (mem_tuples_of_build hb hs).1 (mem_tuples_of_tuplePlace hl hplace)⟩

/-! ## Atoms of all predicates -/

/-- The ground atoms are listed by their predicates, each predicate once. -/
theorem coe_atoms_of_build : groundAtoms schema domains (query ++ hidden) =
    ((query ++ hidden).dedup.flatMap fun s =>
      (tuples (space.argumentPools s)).map (Prod.mk s)).toFinset := by
  ext ⟨s, tuple⟩
  simp only [groundAtoms, Set.mem_ofPred_eq, List.coe_toFinset, List.mem_flatMap, List.mem_dedup,
    List.mem_map, Prod.mk.injEq]
  constructor
  · rintro ⟨hs, ht⟩
    exact ⟨s, hs, tuple, (mem_tuples_of_build hb hs).2 ht, rfl, rfl⟩
  · rintro ⟨_, hs, _, ht, rfl, rfl⟩
    exact ⟨hs, (mem_tuples_of_build hb hs).1 ht⟩

theorem finite_groundAtoms : (groundAtoms schema domains (query ++ hidden)).Finite := by
  rw [coe_atoms_of_build hb]
  exact Finset.finite_toSet _

/-- The number of ground atoms is the sum of the block sizes, each predicate taken once. -/
theorem ncard_groundAtoms (hd : domains.DuplicateFree) :
    (groundAtoms schema domains (query ++ hidden)).ncard =
      ∑ s ∈ (query ++ hidden).toFinset, space.width s := by
  have hnodup : ((query ++ hidden).dedup.flatMap fun s =>
      (tuples (space.argumentPools s)).map (Prod.mk s)).Nodup := by
    rw [List.nodup_flatMap]
    constructor
    · intro s hs
      exact (nodup_tuples_of_build hb hd (List.mem_dedup.1 hs)).map (Prod.mk_right_injective s)
    · refine (List.nodup_dedup _).imp fun {s t} hne => ?_
      intro a ha hb
      obtain ⟨_, -, rfl⟩ := List.mem_map.1 ha
      obtain ⟨_, -, he⟩ := List.mem_map.1 hb
      exact hne (Prod.mk.inj he).1.symm
  have hlisted : (query ++ hidden).toFinset = (query ++ hidden).dedup.toFinset :=
    List.toFinset_eq_iff_perm_dedup.2 (by rw [List.dedup_idem])
  rw [coe_atoms_of_build hb, Set.ncard_coe_finset, List.toFinset_card_of_nodup hnodup,
    List.length_flatMap, hlisted, List.sum_toFinset _ (List.nodup_dedup _)]
  simp only [List.length_map, length_tuples, width]

/-- The size of the space is the sum of the block sizes, each predicate taken as often as it is
listed. -/
theorem size_eq_sum_count : space.size =
    ∑ s ∈ (query ++ hidden).toFinset, (query ++ hidden).count s * space.width s := by
  have hsize : space.size = ((query ++ hidden).map space.width).sum := by
    obtain ⟨-, symbols, -, rfl⟩ := build_cases hb
    rfl
  rw [hsize, Finset.sum_list_map_count]
  rfl

/-! ## Numbers and atoms -/

theorem size_eq_ncard_iff (hd : domains.DuplicateFree) :
    space.size = (groundAtoms schema domains (query ++ hidden)).ncard ↔
      RepeatsOnlyEmpty schema domains (query ++ hidden) := by
  have hle : ∀ s ∈ (query ++ hidden).toFinset,
      space.width s ≤ (query ++ hidden).count s * space.width s := by
    intro s hs
    exact Nat.le_mul_of_pos_left _ (List.count_pos_iff.2 (List.mem_toFinset.1 hs))
  rw [size_eq_sum_count hb, ncard_groundAtoms hb hd, eq_comm, Finset.sum_eq_sum_iff_of_le hle]
  constructor
  · intro h s hcount
    have hs : s ∈ query ++ hidden := List.count_pos_iff.1 (by omega)
    rw [← width_eq_zero_iff hb hs]
    have := h s (List.mem_toFinset.2 hs)
    by_contra hpos
    have := Nat.mul_le_mul_right (space.width s) hcount
    omega
  · intro h s hs
    have hs : s ∈ query ++ hidden := List.mem_toFinset.1 hs
    by_cases hcount : 2 ≤ (query ++ hidden).count s
    · rw [(width_eq_zero_iff hb hs).2 (h s hcount), Nat.mul_zero]
    · have := List.count_pos_iff.2 hs
      rw [show (query ++ hidden).count s = 1 by omega, Nat.one_mul]

theorem ncard_le_size (hd : domains.DuplicateFree) :
    (groundAtoms schema domains (query ++ hidden)).ncard ≤ space.size := by
  rw [size_eq_sum_count hb, ncard_groundAtoms hb hd]
  refine Finset.sum_le_sum fun s hs => ?_
  exact Nat.le_mul_of_pos_left _ (List.count_pos_iff.2 (List.mem_toFinset.1 hs))

/-- If every number is that of an atom, there are no more numbers than atoms. -/
theorem size_le_ncard (h : space.RoundTrips) :
    space.size ≤ (groundAtoms schema domains (query ++ hidden)).ncard := by
  have hsubset : Set.Icc 1 space.size ⊆
      (fun a => (space.encode a.1 a.2).toOption.getD 0) ''
        groundAtoms schema domains (query ++ hidden) := by
    rintro id ⟨h1, h2⟩
    obtain ⟨s, tuple, -, hid⟩ := h id h1 h2
    exact ⟨(s, tuple), mem_groundAtoms_of_encode hb hid, by simp [hid, Except.toOption]⟩
  have hfinite := finite_groundAtoms hb
  calc space.size
    _ = (Set.Icc 1 space.size).ncard := by simp [Set.ncard_eq_toFinset_card']
    _ ≤ _ := Set.ncard_le_ncard hsubset (hfinite.image _)
    _ ≤ _ := Set.ncard_image_le hfinite

/-- **Numbers and atoms match unless a predicate with atoms is listed again.** Without a predicate
that is listed again every number decodes to an atom that has it; if all do, only predicates without
atoms are listed again; and exactly then the length of the space, if it can have one, is the number
of its ground atoms. -/
theorem numbersOnce_of_build (hd : domains.DuplicateFree) :
    (query.Nodup → hidden.Nodup → space.RoundTrips) ∧
    (space.RoundTrips → RepeatsOnlyEmpty schema domains (query ++ hidden)) ∧
    (space.length? = some (groundAtoms schema domains (query ++ hidden)).ncard ↔
      RepeatsOnlyEmpty schema domains (query ++ hidden) ∧
        (groundAtoms schema domains (query ++ hidden)).ncard ≤ maxLength) := by
  refine ⟨fun hq hh => (laid_of_build hb hq hh).roundTrips hd, fun h => ?_, ?_⟩
  · rw [← size_eq_ncard_iff hb hd]
    exact Nat.le_antisymm (size_le_ncard hb h) (ncard_le_size hb hd)
  · rw [← size_eq_ncard_iff hb hd, length?]
    constructor
    · intro h
      obtain ⟨hle, hsize⟩ := Option.ite_none_right_eq_some.1 h
      have := Option.some.inj hsize
      omega
    · rintro ⟨hsize, hle⟩
      rw [if_pos (hsize ▸ hle), hsize]

end Built

theorem numbersOnce_meeting :
    meetingDomains.domains.DuplicateFree ∧
      ∃ space, build meetingSchema meetingDomains.domains [⟨"At", 2⟩, ⟨"Knows", 2⟩] [⟨"Rain", 0⟩] =
          .ok space ∧ space.RoundTrips ∧
        RepeatsOnlyEmpty meetingSchema meetingDomains.domains
          ([⟨"At", 2⟩, ⟨"Knows", 2⟩] ++ [⟨"Rain", 0⟩]) ∧
        space.length? = some 5 ∧
        (groundAtoms meetingSchema meetingDomains.domains
          ([⟨"At", 2⟩, ⟨"Knows", 2⟩] ++ [⟨"Rain", 0⟩])).ncard = 5 := by
  have hd : meetingDomains.domains.DuplicateFree := DomainMap.ofDomains_duplicateFree _
  have hshape : (build meetingSchema meetingDomains.domains [⟨"At", 2⟩, ⟨"Knows", 2⟩]
      [⟨"Rain", 0⟩]).map (fun space => (space.size, space.length?)) = .ok (5, some 5) := by cbv
  obtain ⟨space, hb, he⟩ := map_eq_ok_iff.1 hshape
  obtain ⟨hsize, hlength⟩ := Prod.mk.inj he
  obtain ⟨hdistinct, hrepeats, hcount⟩ := numbersOnce_of_build hb hd
  have hround := hdistinct (by decide) (by decide)
  have hfew := (ncard_le_size hb hd).trans (hsize.trans_le (by decide : 5 ≤ maxLength))
  have hncard := hcount.2 ⟨hrepeats hround, hfew⟩
  exact ⟨hd, space, hb, hround, hrepeats hround, hlength,
    Option.some.inj (hncard.symm.trans hlength)⟩

/-! ## A predicate listed again -/

def relistedDomains : DomainMap :=
  .ofDomains (Domains.ofList [(.text "d", ["A"])])

def relistedSchema : PredicateSchema :=
  Table.ofList [(⟨"P", 1⟩, [some "d"])]

/-- **A predicate listed again gets a second block.** Its one atom has the number 2, and 1 decodes
to it as well. -/
theorem encode_ne_relisted :
    ∃ space, build relistedSchema relistedDomains.domains [⟨"P", 1⟩, ⟨"P", 1⟩] [] = .ok space ∧
      space.decode 1 = .ok (⟨"P", 1⟩, ["A"]) ∧ space.encode ⟨"P", 1⟩ ["A"] = .ok 2 ∧
      space.length? = some 2 ∧
      (groundAtoms relistedSchema relistedDomains.domains
        ([⟨"P", 1⟩, ⟨"P", 1⟩] ++ [])).ncard = 1 := by
  have hd : relistedDomains.domains.DuplicateFree := DomainMap.ofDomains_duplicateFree _
  have hshape : (build relistedSchema relistedDomains.domains [⟨"P", 1⟩, ⟨"P", 1⟩] []).map
      (fun space => (space.decode 1, space.encode ⟨"P", 1⟩ ["A"], space.length?,
        space.width ⟨"P", 1⟩)) =
      .ok (.ok (⟨"P", 1⟩, ["A"]), .ok 2, some 2, 1) := by cbv
  obtain ⟨space, hb, he⟩ := map_eq_ok_iff.1 hshape
  simp only [Prod.mk.injEq] at he
  obtain ⟨hdecode, hencode, hlength, hwidth⟩ := he
  refine ⟨space, hb, hdecode, hencode, hlength, ?_⟩
  rw [ncard_groundAtoms hb hd]
  simp [hwidth]

end AtomSpace

end MarkovLogic
