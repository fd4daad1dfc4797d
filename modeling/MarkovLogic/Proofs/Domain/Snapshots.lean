import MarkovLogic.Proofs.Domain.Insertion

/-!
# What builders tell

A snapshot keeps the domains of its builder with their symbols, so the snapshots of a builder that
has grown extend those from before (`Grows.extends_snapshot`), and so do the snapshots of a builder
that goes on from a map extend that map (`extends_addEntries`). A builder that follows a log tells
of every domain what the log has for it (`Follows.agrees`).
-/

namespace MarkovLogic

open DomainBuilder (logged)

/-! ## Maps that extend one another -/

namespace DomainMap

/-- Every domain of the second map is one of the first and has all its symbols there. -/
def Extends (n m : DomainMap) : Prop :=
  ∀ name symbols, m.get? name = some symbols →
    ∃ symbols', n.get? name = some symbols' ∧ symbols ⊆ symbols'

theorem Extends.trans {n m k : DomainMap} (h : n.Extends m) (h' : m.Extends k) : n.Extends k := by
  intro name symbols hs
  obtain ⟨symbols', hs', hsub⟩ := h' name symbols hs
  obtain ⟨symbols'', hs'', hsub'⟩ := h name symbols' hs'
  exact ⟨symbols'', hs'', fun s hs => hsub' (hsub hs)⟩

/-- A map is made of its own domains. -/
theorem ofDomains_domains (d : Domains) : ofDomains (ofDomains d).domains = ofDomains d := by
  unfold ofDomains Domains.frozen Table.mapWithKey
  simp only [DomainMap.mk.injEq, Table.mk.injEq, List.map_map]
  refine List.map_congr_left fun e _ => ?_
  have hasc := dropRepeats_ascending (sortSymbols_sorted e.2)
  have hsort : sortSymbols (dropRepeats (sortSymbols e.2)) = dropRepeats (sortSymbols e.2) := by
    refine List.mergeSort_of_pairwise (hasc.imp fun hlt => ?_)
    rw [Bool.not_eq_true', decide_eq_false_iff_not]
    exact String.lt_asymm hlt
  simp only [Function.comp_apply, hsort, Domains.dropRepeats_eq_self hasc]

end DomainMap

namespace DomainBuilder

variable {b b' : DomainBuilder} {log : List (Scalar × String)}

theorem get?_snapshot (b : DomainBuilder) (name : Scalar) :
    b.snapshot.get? name =
      (b.domains.symbols? name).map fun symbols => dropRepeats (sortSymbols symbols) :=
  Domains.symbols?_frozen b.domains name

/-- A snapshot has the symbols of a known domain. -/
theorem exists_get?_snapshot {name : Scalar} {symbols list : List String}
    (h : b.domains.symbols? name = some list) (hsub : symbols ⊆ list) :
    ∃ symbols', b.snapshot.get? name = some symbols' ∧ symbols ⊆ symbols' := by
  refine ⟨dropRepeats (sortSymbols list), by rw [get?_snapshot, h]; rfl, fun s hs => ?_⟩
  rw [mem_dropRepeats, mem_sortSymbols]
  exact hsub hs

theorem Grows.extends_snapshot (h : b.Grows b') : b'.snapshot.Extends b.snapshot := by
  intro name symbols hs
  rw [get?_snapshot] at hs
  obtain ⟨list, hlist, rfl⟩ := Option.map_eq_some_iff.1 hs
  obtain ⟨list', hlist', hpre⟩ := h name list hlist
  refine exists_get?_snapshot hlist' fun s hs => ?_
  rw [mem_dropRepeats, mem_sortSymbols] at hs
  exact hpre.subset hs

/-- A builder that goes on from a map extends it. -/
theorem extends_addEntries (b : DomainBuilder) (m : DomainMap) :
    (b.addEntries m.domains.toList).snapshot.Extends m := by
  intro name symbols hs
  obtain ⟨e, he, hsame, rfl⟩ := Domains.exists_entry_of_symbols? hs
  obtain ⟨symbols, hsymbols, hsub⟩ := exists_of_mem_addEntries he b
  rw [← Domains.symbols?_congr hsame] at hsymbols
  exact exists_get?_snapshot hsymbols hsub

/-! ## What a builder tells -/

/-- What the builder tells about a domain is what the log has for it. -/
structure Agrees (b : DomainBuilder) (log : List (Scalar × String)) : Prop where
  symbols_eq : ∀ domain, b.symbols domain = logged log domain
  sizeOf_eq : ∀ domain, b.sizeOf domain = (logged log domain).length
  sizeOf_snapshot_eq : ∀ domain, b.snapshot.sizeOf domain = (logged log domain).length
  contains_iff : ∀ domain symbol, b.contains domain symbol = true ↔
    ∃ s ∈ logged log domain, symbol = .text s

theorem Follows.agrees (h : b.Follows log) : b.Agrees log where
  symbols_eq := h
  sizeOf_eq domain := congrArg List.length (h domain)
  sizeOf_snapshot_eq domain := by
    have hnodup : (b.domains.symbols domain).Nodup := by
      rw [show b.domains.symbols domain = logged log domain from h domain]
      exact nodup_eraseDups _
    have hsymbols : b.domains.frozen.symbols domain = sortSymbols (b.domains.symbols domain) := by
      rw [Domains.symbols_frozen, Domains.dropRepeats_sortSymbols hnodup]
    calc b.snapshot.sizeOf domain
        = (sortSymbols (b.domains.symbols domain)).length := congrArg List.length hsymbols
      _ = (b.domains.symbols domain).length := (List.mergeSort_perm _ _).length_eq
      _ = (logged log domain).length := congrArg List.length (h domain)
  contains_iff domain symbol := by
    rw [← h domain]
    cases symbol <;> simp [contains]

/-- The number of new symbols is the growth of the domain. -/
theorem length_symbols_add (b : DomainBuilder) (domain : Scalar) (list : List String) :
    ((b.add domain list).1.symbols domain).length =
      (b.symbols domain).length + (b.add domain list).2 := by
  have hpre := (isPrefix_foldl_addSymbol list (b.symbols domain)).length_le
  rw [symbols_add, if_pos (Scalar.same_refl domain), add]
  omega

theorem add_singleton_pos_iff {domain : Scalar} {s : String} :
    0 < (b.add domain [s]).2 ↔ s ∉ b.symbols domain := by
  by_cases h : s ∈ b.symbols domain <;> simp [add, addSymbol, h]

end DomainBuilder

end MarkovLogic
