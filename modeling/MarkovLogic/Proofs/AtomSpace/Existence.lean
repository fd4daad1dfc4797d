import MarkovLogic.Proofs.AtomSpace.Layout
import MarkovLogic.Proofs.AtomSpace.Places

/-!
# When spaces and numbers exist

A space can be laid out when the open predicates have schemas over known domains and none is both
query and hidden (`AtomSpace.exists_build`). In a space that was built an atom has a number when its
symbols lie in the domains of its places (`AtomSpace.exists_encode`). A predicate may be listed
again, and the domains may repeat symbols.
-/

namespace MarkovLogic

namespace AtomSpace

/-- All domains are known. -/
def KnownDomains (domains : Domains) (places : List (Option String)) : Prop :=
  ∀ d ∈ places, ∃ list, domains.symbols? (.ofOption d) = some list

variable {schema : PredicateSchema} {domains : Domains} {query hidden : List Signature}

theorem exists_addDomain {d : Option String} {list : List String}
    (h : domains.symbols? (.ofOption d) = some list) (signature : Signature)
    (symbols : Table (Option String) (List String)) :
    ∃ t, addDomain domains signature symbols d = .ok t := by
  unfold addDomain
  split
  · exact ⟨symbols, rfl⟩
  · rw [h]
    exact ⟨_, rfl⟩

theorem exists_collectSymbols {ps : List Signature}
    (h : ∀ s ∈ ps, ∃ places, schema.get? s = some places ∧ KnownDomains domains places) :
    ∃ symbols, collectSymbols schema domains ps = .ok symbols := by
  refine exists_foldlM_of_forall _ (fun s hs symbols => ?_) _
  obtain ⟨places, hplaces, hknown⟩ := h s hs
  simp only [hplaces]
  refine exists_foldlM_of_forall _ (fun d hd symbols => ?_) _
  obtain ⟨list, hlist⟩ := hknown d hd
  exact exists_addDomain hlist s symbols

/-- **A space can be laid out over known domains.** -/
theorem exists_build (hdisjoint : ∀ s ∈ query, s ∉ hidden)
    (h : ∀ s ∈ query ++ hidden, ∃ places, schema.get? s = some places ∧
      KnownDomains domains places) :
    ∃ space, build schema domains query hidden = .ok space := by
  have hoverlap : query.eraseDups.filter hidden.contains = [] := by
    rw [List.filter_eq_nil_iff]
    intro s hs
    simpa using hdisjoint s (List.mem_eraseDups.1 hs)
  obtain ⟨symbols, hsymbols⟩ := exists_collectSymbols h
  unfold build
  simp only [hoverlap, List.isEmpty_nil, Bool.not_true, Bool.false_eq_true, if_false]
  exact ⟨_, bind_eq_ok_iff.2 ⟨symbols, hsymbols, rfl⟩⟩

/-- A place can be computed when every symbol is in its list. -/
theorem exists_tuplePlace {symbols : Table (Option String) (List String)} {tuple : List String}
    {places : List (Option String)}
    (h : List.Forall₂ (fun s d => s ∈ (symbols.get? d).getD []) tuple places) :
    ∀ place, ∃ n, tuplePlace symbols place places tuple = .ok n := by
  induction h with
  | nil => exact fun place => ⟨place, by simp [tuplePlace]⟩
  | @cons s d _ _ hs _ ih =>
    intro place
    rw [tuplePlace]
    cases hi : position? ((symbols.get? d).getD []) s with
    | none => exact absurd hs (position?_eq_none_iff.1 hi)
    | some i => exact ih _

/-- **An atom over the domains of its places has a number.** -/
theorem exists_encode {space : AtomSpace} (h : build schema domains query hidden = .ok space)
    {s : Signature} (hs : s ∈ query ++ hidden) {places : List (Option String)}
    (hplaces : schema.get? s = some places) {tuple : List String}
    (htuple : List.Forall₂ (fun t d => t ∈ domains.symbols (.ofOption d)) tuple places) :
    ∃ id, space.encode s tuple = .ok id := by
  obtain ⟨-, symbols, hsymbols, rfl⟩ := build_cases h
  obtain ⟨hcollected, hkeys⟩ := collectSymbols_ok hsymbols
  obtain ⟨places', hplaces', hkeys⟩ := hkeys s hs
  obtain rfl := Option.some.inj (hplaces.symm.trans hplaces')
  obtain ⟨start, hstart⟩ := (Table.mem_keys_iff _).1
    ((mem_keys_allocate (blockSize schema symbols) Table.empty 1).2 (.inr hs))
  -- the pool of a place holds the symbols of its domain
  have hpools : List.Forall₂ (fun t d => t ∈ (symbols.get? d).getD []) tuple places := by
    have hboth := ((List.forall₂_and_left places tuple).2 ⟨hkeys, htuple.flip⟩).flip
    refine hboth.imp fun t d htd => ?_
    obtain ⟨hd, ht : t ∈ domains.symbols (.ofOption d)⟩ := htd
    obtain ⟨pool, hpool⟩ := (Table.mem_keys_iff _).1 hd
    obtain ⟨list, hlist, rfl⟩ := hcollected d pool hpool
    rw [Domains.symbols, hlist] at ht
    rw [hpool]
    exact mem_sortSymbols.2 ht
  obtain ⟨n, hn⟩ := exists_tuplePlace hpools 0
  refine ⟨start + n, ?_⟩
  unfold encode
  simp only [hstart, hplaces, Option.getD_some, htuple.length_eq, ne_eq, not_true, if_false]
  exact bind_eq_ok_iff.2 ⟨n, hn, rfl⟩

end AtomSpace

end MarkovLogic
