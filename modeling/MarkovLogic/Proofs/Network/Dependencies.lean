import MarkovLogic.Network.Dependency
import MarkovLogic.Proofs.Table
import MarkovLogic.Proofs.Runs

/-!
# Dependencies as outside data

Pairs from outside stand for a nested mapping (`mapping`), in which the last value of a key counts.
Dependencies are accepted if they are the pairs of the mapping and no frequency is zero
(`ofEntries_eq_ok_iff`), and there are such dependencies exactly if every formula of the mapping is
a whole number that is not negative and every frequency a whole number other than zero
(`exists_ofEntries_iff`).

So, given as pairs, recorded dependencies pass the checks and come back unchanged if no frequency is
zero (`ofEntries_pairs`): the formulas of an entry are told apart by their values as well, so none
of its pairs replaces another.
-/

namespace MarkovLogic

namespace Table

variable {ε β κ α : Type} [DecidableEq κ] {g : β → Except ε (κ × α)} {l : List β} {t : Table κ α}

/-- A loop that checks the elements and records what they come to ends with these entries, if their
keys are distinct. -/
theorem foldlM_insert_eq_ok_iff
    (hkeys : ∀ entries, l.mapM g = .ok entries → (entries.map Prod.fst).Nodup) :
    l.foldlM (fun t b => g b >>= fun e => .ok (t.insert e.1 e.2)) empty = .ok t ↔
      l.mapM g = .ok t.toList := by
  have hrecord : ∀ entries : List (κ × α), entries.foldlM
      (fun t e => (.ok (t.insert e.1 e.2) : Except ε (Table κ α))) empty = .ok (ofList entries) :=
    fun entries => foldlM_eq_ok_of_forall _ (fun _ _ _ => rfl) empty
  have htwo := foldlM_bind_eq_ok_iff (g := g) (f := fun t e => .ok (insert t e.1 e.2))
    (l := l) (s := empty) (t := t)
  refine htwo.trans ⟨?_, ?_⟩
  · rintro ⟨entries, hentries, ht⟩
    rw [hrecord] at ht
    rw [hentries, ← Except.ok.inj ht, toList_ofList (hkeys entries hentries)]
  · intro h
    exact ⟨t.toList, h, by rw [hrecord, ofList_toList]⟩

/-- Such a loop succeeds exactly if every element passes its check. -/
theorem exists_foldlM_insert_iff :
    (∃ t, l.foldlM (fun t b => g b >>= fun e => .ok (Table.insert t e.1 e.2)) empty = .ok t) ↔
      ∀ b ∈ l, ∃ e, g b = .ok e := by
  constructor
  · rintro ⟨t, h⟩
    refine foldlM_forall _ (Q := fun (b : β) (_ : Table κ α) => ∃ e, g b = .ok e)
      (fun t b t' hb => ?_) (fun _ _ _ _ hb _ => hb) l h
    obtain ⟨e, he, -⟩ := bind_eq_ok_iff.1 hb
    exact ⟨e, he⟩
  · intro h
    refine exists_foldlM_of_forall _ (fun b hb t => ?_) empty
    obtain ⟨e, he⟩ := h b hb
    exact ⟨t.insert e.1 e.2, bind_eq_ok_iff.2 ⟨e, he, rfl⟩⟩

end Table

namespace DependencyMap

/-- The frequencies of one constraint as pairs of numbers. -/
def frequencyPairs (frequencies : Table Nat Int) : List (Option Number × Option Number) :=
  frequencies.toList.map fun e => (some (.int e.1), some (.int e.2))

/-- The dependencies as pairs. -/
def pairs (deps : DependencyMap) : List (Int × List (Option Number × Option Number)) :=
  deps.entries.toList.map fun e => (e.1, frequencyPairs e.2)

/-- No recorded frequency is zero. -/
def NonZero (deps : DependencyMap) : Prop :=
  ∀ e ∈ deps.entries.toList, ∀ f ∈ e.2.toList, f.2 ≠ 0

/-! ## Nested mappings -/

/-- No two keys are equal in value. -/
def KeysApart (pairs : List (Option Number × Option Number)) : Prop :=
  pairs.Pairwise fun p q => (p.1 == q.1) = false

/-- The pairs with one more recorded: a key keeps its place and its first writing. -/
def mergePair (merged : List (Option Number × Option Number)) (p : Option Number × Option Number) :
    List (Option Number × Option Number) :=
  if merged.any fun q => q.1 == p.1 then merged.map fun q => if q.1 == p.1 then (q.1, p.2) else q
  else merged ++ [p]

theorem mergePairs_eq_foldl (pairs : List (Option Number × Option Number)) :
    mergePairs pairs = pairs.foldl mergePair [] := rfl

theorem mergePair_of_new {merged : List (Option Number × Option Number)}
    {p : Option Number × Option Number} (h : ∀ q ∈ merged, (q.1 == p.1) = false) :
    mergePair merged p = merged ++ [p] := by
  have hnew : (merged.any fun q => q.1 == p.1) = false :=
    List.any_eq_false.2 fun q hq => Bool.eq_false_iff.1 (h q hq)
  rw [mergePair, hnew]
  rfl

theorem mergePairs_of_keysApart {pairs : List (Option Number × Option Number)}
    (h : KeysApart pairs) : mergePairs pairs = pairs := by
  suffices hfold : ∀ merged : List (Option Number × Option Number),
      (∀ q ∈ merged, ∀ p ∈ pairs, (q.1 == p.1) = false) →
        pairs.foldl mergePair merged = merged ++ pairs from
    hfold [] nofun
  induction pairs with
  | nil => exact fun merged _ => (List.append_nil merged).symm
  | cons p pairs ih =>
    obtain ⟨hp, hrest⟩ := List.pairwise_cons.1 h
    intro merged hm
    have hnew : ∀ q ∈ merged, (q.1 == p.1) = false := fun q hq => hm q hq p List.mem_cons_self
    rw [List.foldl_cons, mergePair_of_new hnew, ih hrest, List.append_assoc, List.singleton_append]
    intro q hq r hr
    rcases List.mem_append.1 hq with hq | hq
    · exact hm q hq r (List.mem_cons_of_mem _ hr)
    · rw [List.mem_singleton.1 hq]
      exact hp r hr

theorem KeysApart.mergePair {merged : List (Option Number × Option Number)} (h : KeysApart merged)
    (p : Option Number × Option Number) : KeysApart (mergePair merged p) := by
  unfold DependencyMap.mergePair
  split
  · -- a value is replaced and no key
    have hkey : ∀ q : Option Number × Option Number,
        (if q.1 == p.1 then (q.1, p.2) else q).1 = q.1 := fun q => by split <;> rfl
    refine List.pairwise_map.2 (h.imp fun {q r} hqr => ?_)
    rw [hkey, hkey]
    exact hqr
  · next hnew =>
    refine List.pairwise_append.2 ⟨h, List.pairwise_singleton _ _, fun q hq r hr => ?_⟩
    rw [List.mem_singleton.1 hr]
    exact Bool.eq_false_iff.2 fun heq => hnew (List.any_eq_true.2 ⟨q, hq, heq⟩)

theorem keysApart_mergePairs (pairs : List (Option Number × Option Number)) :
    KeysApart (mergePairs pairs) := by
  rw [mergePairs_eq_foldl]
  exact List.foldlRecOn pairs DependencyMap.mergePair .nil fun _ h p _ => h.mergePair p

/-- The nested mapping that the pairs stand for: a key has the last of its values, at the place of
its first mention. -/
def mapping (entries : List (Int × List (Option Number × Option Number))) :
    List (Int × List (Option Number × Option Number)) :=
  (Table.ofList entries).toList.map fun e => (e.1, mergePairs e.2)

/-- Pairs without repeated keys stand for themselves. -/
theorem mapping_of_keysApart {entries : List (Int × List (Option Number × Option Number))}
    (hkeys : (entries.map Prod.fst).Nodup) (h : ∀ e ∈ entries, KeysApart e.2) :
    mapping entries = entries := by
  rw [mapping, Table.toList_ofList hkeys]
  refine (List.map_congr_left fun e he => ?_).trans (List.map_id entries)
  rw [mergePairs_of_keysApart (h e he)]
  rfl

theorem keysApart_frequencyPairs (frequencies : Table Nat Int) :
    KeysApart (frequencyPairs frequencies) := by
  unfold frequencyPairs KeysApart
  rw [List.pairwise_map]
  have hn := frequencies.nodup
  rw [List.Nodup, List.pairwise_map] at hn
  refine hn.imp fun {e f} hne => ?_
  change decide ((e.1 : Int) = f.1) = false
  simpa using hne

theorem mapping_pairs (deps : DependencyMap) : mapping deps.pairs = deps.pairs := by
  refine mapping_of_keysApart ?_ fun e he => ?_
  · simpa [pairs, Function.comp_def] using deps.entries.nodup
  · obtain ⟨e, -, rfl⟩ := List.mem_map.1 he
    exact keysApart_frequencyPairs e.2

/-! ## One constraint -/

/-- A whole number that is not negative. -/
def IsIndex (formula : Option Number) : Prop :=
  ∃ n : Int, 0 ≤ n ∧ formula = some (.int n)

/-- A whole number other than zero. -/
def IsFrequency (frequency : Option Number) : Prop :=
  ∃ n : Int, n ≠ 0 ∧ frequency = some (.int n)

theorem formulaIndex?_eq_some_iff {formula : Option Number} {i : Nat} :
    formulaIndex? formula = some i ↔ formula = some (.int i) := by
  unfold formulaIndex?
  split
  · next n =>
    constructor
    · intro h
      rw [Option.some.inj h]
      rfl
    · intro h
      cases h
      rfl
  · next hne => exact ⟨nofun, fun h => (hne i h).elim⟩

theorem frequency?_eq_some_iff {frequency : Option Number} {n : Int} :
    frequency? frequency = some n ↔ frequency = some (.int n) ∧ n ≠ 0 := by
  unfold frequency?
  split
  · next m =>
    split
    · next hm =>
      refine ⟨nofun, fun h => ?_⟩
      obtain ⟨h, hn⟩ := h
      cases h
      exact (hn hm).elim
    · next hm =>
      constructor
      · intro h
        cases h
        exact ⟨rfl, hm⟩
      · rintro ⟨h, -⟩
        cases h
        rfl
  · next hne => exact ⟨nofun, fun h => (hne n h.1).elim⟩

/-- What one pair of a constraint comes to. -/
def checkPair (constraint : Int) (p : Option Number × Option Number) :
    Except DependencyError (Nat × Int) :=
  match formulaIndex? p.1 with
  | none => .error (.formulaIndex constraint p.1)
  | some f =>
    match frequency? p.2 with
    | none => .error (.frequency constraint p.2)
    | some n => .ok (f, n)

variable {constraint : Int}

theorem checkPair_eq_ok_iff (p : Option Number × Option Number) (e : Nat × Int) :
    checkPair constraint p = .ok e ↔ (some (.int e.1), some (.int e.2)) = p ∧ e.2 ≠ 0 := by
  obtain ⟨f, n⟩ := e
  obtain ⟨formula, frequency⟩ := p
  have hok : checkPair constraint (formula, frequency) = .ok (f, n) ↔
      formulaIndex? formula = some f ∧ frequency? frequency = some n := by
    unfold checkPair
    cases formulaIndex? formula with
    | none => simp
    | some f' => cases frequency? frequency <;> simp
  rw [hok, formulaIndex?_eq_some_iff, frequency?_eq_some_iff, Prod.mk.injEq, and_assoc,
    eq_comm, @eq_comm _ frequency]

theorem exists_checkPair_iff {p : Option Number × Option Number} :
    (∃ e, checkPair constraint p = .ok e) ↔ IsIndex p.1 ∧ IsFrequency p.2 := by
  constructor
  · rintro ⟨⟨f, n⟩, h⟩
    obtain ⟨rfl, hn⟩ := (checkPair_eq_ok_iff _ _).1 h
    exact ⟨⟨f, Int.natCast_nonneg f, rfl⟩, n, hn, rfl⟩
  · obtain ⟨formula, frequency⟩ := p
    rintro ⟨⟨i, hi, rfl⟩, n, hn, rfl⟩
    refine ⟨(i.toNat, n), (checkPair_eq_ok_iff _ _).2 ⟨?_, hn⟩⟩
    rw [Int.toNat_of_nonneg hi]

variable {pairs : List (Option Number × Option Number)}

theorem checkFrequencies_eq_foldlM : checkFrequencies constraint pairs =
    (mergePairs pairs).foldlM (fun table p =>
      checkPair constraint p >>= fun e => .ok (table.insert e.1 e.2)) Table.empty := by
  unfold checkFrequencies
  congr 1
  funext table ⟨formula, frequency⟩
  unfold checkPair
  dsimp only
  cases formulaIndex? formula with
  | none => rfl
  | some f => cases frequency? frequency <;> rfl

theorem checkFrequencies_eq_ok_iff {frequencies : Table Nat Int} :
    checkFrequencies constraint pairs = .ok frequencies ↔
      frequencyPairs frequencies = mergePairs pairs ∧ ∀ e ∈ frequencies.toList, e.2 ≠ 0 := by
  have hmapM : ∀ es, (mergePairs pairs).mapM (checkPair constraint) = .ok es ↔
      es.map (fun e => (some (.int e.1), some (.int e.2))) = mergePairs pairs ∧
        ∀ e ∈ es, e.2 ≠ 0 := by
    intro es
    rw [mapM_eq_ok_iff_map_eq (k := id) checkPair_eq_ok_iff, List.map_id]
  rw [checkFrequencies_eq_foldlM, Table.foldlM_insert_eq_ok_iff, hmapM]
  · rfl
  · -- formulas equal in value would be one key of the merged pairs
    intro es hes
    have hpairs := keysApart_mergePairs pairs
    rw [← ((hmapM es).1 hes).1, KeysApart, List.pairwise_map] at hpairs
    rw [List.Nodup, List.pairwise_map]
    refine hpairs.imp fun {e f} hkeys heq => ?_
    have hne : decide ((e.1 : Int) = f.1) = false := hkeys
    exact of_decide_eq_false hne (congrArg Nat.cast heq)

theorem exists_checkFrequencies_iff :
    (∃ frequencies, checkFrequencies constraint pairs = .ok frequencies) ↔
      ∀ p ∈ mergePairs pairs, IsIndex p.1 ∧ IsFrequency p.2 := by
  rw [checkFrequencies_eq_foldlM, Table.exists_foldlM_insert_iff]
  simp only [exists_checkPair_iff]

/-! ## All constraints -/

variable {entries : List (Int × List (Option Number × Option Number))} {deps : DependencyMap}

/-- What one entry comes to. -/
def checkEntry (e : Int × List (Option Number × Option Number)) :
    Except DependencyError (Int × Table Nat Int) :=
  checkFrequencies e.1 e.2 >>= fun frequencies => .ok (e.1, frequencies)

theorem checkEntry_eq_ok_iff (e : Int × List (Option Number × Option Number))
    (entry : Int × Table Nat Int) : checkEntry e = .ok entry ↔
      (entry.1, frequencyPairs entry.2) = (e.1, mergePairs e.2) ∧
        ∀ f ∈ entry.2.toList, f.2 ≠ 0 := by
  rw [checkEntry, bind_eq_ok_iff]
  simp only [checkFrequencies_eq_ok_iff, Prod.mk.injEq]
  constructor
  · rintro ⟨frequencies, ⟨hpairs, hne⟩, hentry⟩
    rw [← Except.ok.inj hentry]
    exact ⟨⟨rfl, hpairs⟩, hne⟩
  · rintro ⟨⟨hconstraint, hpairs⟩, hne⟩
    exact ⟨entry.2, ⟨hpairs, hne⟩, by rw [← hconstraint]⟩

theorem ofEntries_eq_map : ofEntries entries = ((Table.ofList entries).toList.foldlM
    (fun table e => checkEntry e >>= fun entry => .ok (table.insert entry.1 entry.2))
      Table.empty).map mk := by
  unfold ofEntries
  have hstep : (fun (table : Table Int (Table Nat Int)) (e : Int × _) =>
      checkEntry e >>= fun entry => .ok (table.insert entry.1 entry.2)) = fun table e => do
        return table.insert e.1 (← checkFrequencies e.1 e.2) := by
    funext table e
    unfold checkEntry
    cases checkFrequencies e.1 e.2 <;> rfl
  rw [hstep]
  rfl

/-- **Accepted dependencies are the mapping, without zero frequencies.** -/
theorem ofEntries_eq_ok_iff : ofEntries entries = .ok deps ↔
    deps.pairs = mapping entries ∧ deps.NonZero := by
  have hmapM : ∀ es, (Table.ofList entries).toList.mapM checkEntry = .ok es ↔
      es.map (fun e => (e.1, frequencyPairs e.2)) = mapping entries ∧
        ∀ e ∈ es, ∀ f ∈ e.2.toList, f.2 ≠ 0 := fun es =>
    mapM_eq_ok_iff_map_eq checkEntry_eq_ok_iff
  have hkeys : ∀ es, (Table.ofList entries).toList.mapM checkEntry = .ok es →
      (es.map Prod.fst).Nodup := by
    intro es hes
    have hconstraints := congrArg (List.map Prod.fst) ((hmapM es).1 hes).1
    rw [mapping, List.map_map, List.map_map] at hconstraints
    exact hconstraints ▸ (Table.ofList entries).nodup
  rw [ofEntries_eq_map, map_eq_ok_iff]
  constructor
  · rintro ⟨table, htable, rfl⟩
    exact (hmapM _).1 ((Table.foldlM_insert_eq_ok_iff hkeys).1 htable)
  · intro h
    exact ⟨deps.entries, (Table.foldlM_insert_eq_ok_iff hkeys).2 ((hmapM _).2 h), rfl⟩

/-- **Every key and value of the mapping is checked, and nothing else.** -/
theorem exists_ofEntries_iff : (∃ deps, ofEntries entries = .ok deps) ↔
    ∀ e ∈ mapping entries, ∀ p ∈ e.2, IsIndex p.1 ∧ IsFrequency p.2 := by
  have hentry : ∀ e, (∃ entry, checkEntry e = .ok entry) ↔
      ∀ p ∈ mergePairs e.2, IsIndex p.1 ∧ IsFrequency p.2 := by
    intro e
    rw [← @exists_checkFrequencies_iff e.1]
    unfold checkEntry
    cases checkFrequencies e.1 e.2 <;> simp [bind, Except.bind]
  rw [mapping, List.forall_mem_map]
  simp only [← hentry, ← Table.exists_foldlM_insert_iff, ofEntries_eq_map, map_eq_ok_iff]
  constructor
  · rintro ⟨-, table, h, -⟩
    exact ⟨table, h⟩
  · rintro ⟨table, h⟩
    exact ⟨⟨table⟩, table, h, rfl⟩

/-- **Dependencies without zero frequencies are accepted as they are.** -/
theorem ofEntries_pairs (h : ∀ e ∈ deps.entries.toList, ∀ f ∈ e.2.toList, f.2 ≠ 0) :
    ofEntries deps.pairs = .ok deps :=
  ofEntries_eq_ok_iff.2 ⟨(mapping_pairs deps).symm, h⟩

/-! ## Formulas -/

theorem mem_formulaIndices {i : Nat} :
    i ∈ deps.formulaIndices ↔ ∃ e ∈ deps.entries.toList, i ∈ e.2.keys := by
  simp only [formulaIndices, Table.values, List.mem_eraseDups, List.mem_flatMap, List.mem_map]
  constructor
  · rintro ⟨_, ⟨e, he, rfl⟩, hi⟩
    exact ⟨e, he, hi⟩
  · rintro ⟨e, he, hi⟩
    exact ⟨e.2, ⟨e, he, rfl⟩, hi⟩

end DependencyMap

end MarkovLogic
