import MarkovLogic.Proofs.Domain.Batches
import MarkovLogic.Proofs.Domain.FilledNames

/-!
# Builders that go on from a map

A builder that goes on from a map whose names and symbols are texts with at least one character
holds the domains of the map as they are (`addEntries_eq_append`), so its snapshot is the map.

What a builder reports of an insertion, and what its snapshots show afterwards, depends on what its
snapshot shows before and on nothing else of its history (`add_snd_eq`, `matches_snapshot_add`,
`snapshot_add_eq`). So no insertions tell the seeded builder from any other whose snapshot was the
map (`exists_seeds`).
-/

namespace MarkovLogic

/-! ## Domains told apart by their names -/

namespace Domains

variable {d : Domains} {name : Scalar} {symbols : List String}

/-- No two names count as the same. -/
def Apart (d : Domains) : Prop :=
  (d.keys.map Scalar.counted).Nodup

theorem Apart.recordedName_of_mem (h : d.Apart) (hname : name ∈ d.keys) :
    d.recordedName name = name := by
  have hmem : d.recordedName name ∈ d.keys := by
    unfold recordedName
    cases hfind : d.keys.find? name.same with
    | none => exact hname
    | some k => exact List.mem_of_find?_eq_some hfind
  have hsame : name.counted = (d.recordedName name).counted :=
    Scalar.same_iff.1 (same_recordedName d name)
  exact (List.inj_on_of_nodup_map h hname hmem hsame).symm

theorem Apart.symbols?_of_mem (h : d.Apart) (hmem : (name, symbols) ∈ d.toList) :
    d.symbols? name = some symbols := by
  rw [symbols?, h.recordedName_of_mem (List.mem_map_of_mem (f := Prod.fst) hmem)]
  exact (Table.get?_eq_some_iff d).2 hmem

theorem Apart.record (h : d.Apart) (name : Scalar) (symbols : List String) :
    (d.record name symbols).Apart := by
  by_cases hmem : d.recordedName name ∈ d.keys
  · unfold Apart Domains.record
    rw [Table.keys_insert_of_mem hmem]
    exact h
  · unfold Apart Domains.record
    rw [Table.keys_insert_of_notMem hmem, List.map_append, List.map_singleton]
    refine List.nodup_append.2 ⟨h, List.nodup_singleton _, ?_⟩
    intro x hx y hy hxy
    obtain ⟨k, hk, rfl⟩ := List.mem_map.1 hx
    -- a name that counts as a known one would have been recorded under that one
    have hsame : name.same k = true := by
      rw [Scalar.same_iff, Scalar.same_iff.1 (same_recordedName d name), hxy,
        List.mem_singleton.1 hy]
    cases hfind : d.keys.find? name.same with
    | none => exact List.find?_eq_none.1 hfind k hk hsame
    | some k' =>
      rw [recordedName, hfind] at hmem
      exact hmem (List.mem_of_find?_eq_some hfind)

theorem apart_frozen : d.frozen.Apart ↔ d.Apart := by
  rw [Apart, Apart, keys_frozen]

theorem NamesFilled.apart (h : d.NamesFilled) : d.Apart := by
  have hkeys : d.keys.map Scalar.counted = d.keys := by
    refine (List.map_congr_left fun k hk => ?_).trans (List.map_id' d.keys)
    obtain ⟨a, rfl, -⟩ := Scalar.isFilledText_iff.1 (h k hk)
    rfl
  unfold Apart
  rw [hkeys]
  exact d.nodup

theorem NamesFilled.symbols?_eq_get? (h : d.NamesFilled) (name : Scalar) :
    d.symbols? name = d.get? name := by
  unfold symbols? recordedName
  cases hfind : d.keys.find? name.same with
  | none => rfl
  | some k =>
    obtain ⟨a, rfl, -⟩ := Scalar.isFilledText_iff.1 (h k (List.mem_of_find?_eq_some hfind))
    have hsame : name.same (.text a) = true := List.find?_some hfind
    rw [Scalar.eq_of_same_text (Scalar.same_symm hsame)]
    rfl

end Domains

/-! ## Maps that show the same -/

namespace DomainMap

/-- Every name has the same symbols in both maps, or is unknown to both. -/
def Matches (m n : DomainMap) : Prop :=
  ∀ name, m.get? name = n.get? name

theorem Matches.of_eq {m n : DomainMap} (h : m = n) : m.Matches n :=
  fun name => congrArg (get? · name) h

theorem Matches.symm {m n : DomainMap} (h : m.Matches n) : n.Matches m :=
  fun name => (h name).symm

theorem Matches.counted_subset {m n : DomainMap} (h : m.Matches n) (hm : m.domains.Apart) :
    m.domains.keys.map Scalar.counted ⊆ n.domains.keys.map Scalar.counted := by
  intro x hx
  obtain ⟨k, hk, rfl⟩ := List.mem_map.1 hx
  obtain ⟨⟨k, symbols⟩, he, rfl⟩ := List.mem_map.1 hk
  have hget : n.domains.symbols? k = some symbols := (h k).symm.trans (hm.symbols?_of_mem he)
  obtain ⟨e, he, hsame, -⟩ := Domains.exists_entry_of_symbols? hget
  rw [Scalar.same_iff.1 hsame]
  exact List.mem_map_of_mem (List.mem_map_of_mem he)

/-- **Maps that show the same are equal**, if no two names of either count as the same. -/
theorem Matches.equal {m n : DomainMap} (h : m.Matches n) (hm : m.domains.Apart)
    (hn : n.domains.Apart) : m.equal n = true := by
  have hperm : (m.domains.keys.map Scalar.counted).Perm (n.domains.keys.map Scalar.counted) :=
    (List.perm_ext_iff_of_nodup hm hn).2 fun x =>
      ⟨fun hx => h.counted_subset hm hx, fun hx => h.symm.counted_subset hn hx⟩
  have hsize : m.domains.size = n.domains.size := by
    simpa [Table.keys, Table.size] using hperm.length_eq
  rw [DomainMap.equal, Bool.and_eq_true, decide_eq_true_iff, List.all_eq_true]
  refine ⟨hsize, fun e he => ?_⟩
  rw [decide_eq_true_iff]
  exact (h e.1).symm.trans (hm.symbols?_of_mem he)

/-- Equal maps have the same entries if the names of one of them are texts. -/
theorem perm_of_equal {m n : DomainMap} (hn : n.domains.NamesFilled) (h : m.equal n = true) :
    m.domains.toList.Perm n.domains.toList := by
  rw [DomainMap.equal, Bool.and_eq_true, decide_eq_true_iff, List.all_eq_true] at h
  obtain ⟨hsize, hall⟩ := h
  have hsub : m.domains.toList ⊆ n.domains.toList := by
    rintro ⟨name, symbols⟩ he
    have hget : n.domains.symbols? name = some symbols := of_decide_eq_true (hall _ he)
    rw [hn.symbols?_eq_get?] at hget
    exact (Table.get?_eq_some_iff _).1 hget
  have hnodup : m.domains.toList.Nodup := List.Nodup.of_map _ m.domains.nodup
  exact (List.subperm_of_subset hnodup hsub).perm_of_length_le hsize.ge

/-- **Equal maps show the same**, if the names of one of them are texts. -/
theorem matches_of_equal {m n : DomainMap} (hn : n.domains.NamesFilled) (h : m.equal n = true) :
    m.Matches n ∧ m.domains.NamesFilled := by
  have hperm := perm_of_equal hn h
  have hm : m.domains.NamesFilled := fun name hname =>
    hn name ((hperm.map Prod.fst).mem_iff.1 hname)
  refine ⟨fun name => ?_, hm⟩
  rw [get?, get?, hm.symbols?_eq_get?, hn.symbols?_eq_get?]
  refine Option.ext fun symbols => ?_
  rw [Table.get?_eq_some_iff, Table.get?_eq_some_iff, hperm.mem_iff]

end DomainMap

namespace DomainBuilder

open DomainMap (Matches)

variable {b b' : DomainBuilder} {domain : Scalar} {list : List String}

/-! ## What an insertion depends on -/

theorem Matches.mem_symbols (h : b.snapshot.Matches b'.snapshot) {s : String} :
    s ∈ b.symbols domain ↔ s ∈ b'.symbols domain := by
  have hsymbols : ∀ b : DomainBuilder,
      s ∈ b.symbols domain ↔ ∃ list, b.snapshot.get? domain = some list ∧ s ∈ list := by
    intro b
    rw [get?_snapshot, symbols, Domains.symbols]
    cases b.domains.symbols? domain with
    | none => simp
    | some list => simp [mem_dropRepeats, mem_sortSymbols]
  rw [hsymbols, hsymbols, h domain]

/-- **How many symbols are new is seen from the snapshot.** -/
theorem add_snd_eq (h : b.snapshot.Matches b'.snapshot) (domain : Scalar) (list : List String) :
    (b.add domain list).2 = (b'.add domain list).2 := by
  have hnew : newSymbols (b.symbols domain) list = newSymbols (b'.symbols domain) list := by
    have hfilter : list.filter (fun s => !(b.symbols domain).contains s) =
        list.filter fun s => !(b'.symbols domain).contains s := by
      refine List.filter_congr fun s _ => ?_
      rw [Bool.eq_iff_iff]
      simp [Matches.mem_symbols h]
    rw [newSymbols, newSymbols, hfilter]
  rw [add_snd, add_snd, hnew]

/-- The symbols that the next snapshot shows for the domain are seen from the snapshot. -/
theorem shownSymbols_congr (h : b.snapshot.Matches b'.snapshot) (domain : Scalar)
    (list : List String) :
    dropRepeats (sortSymbols (list.foldl addSymbol (b.symbols domain))) =
      dropRepeats (sortSymbols (list.foldl addSymbol (b'.symbols domain))) := by
  refine dropRepeats_sortSymbols_congr fun s => ?_
  rw [mem_foldl_addSymbol, mem_foldl_addSymbol, Matches.mem_symbols h]

/-- **What the next snapshot shows is seen from the snapshot.** -/
theorem matches_snapshot_add (h : b.snapshot.Matches b'.snapshot) (domain : Scalar)
    (list : List String) :
    (b.add domain list).1.snapshot.Matches (b'.add domain list).1.snapshot := by
  intro name
  rw [get?_snapshot, get?_snapshot, symbols?_add, symbols?_add]
  split
  · rw [Option.map_some, Option.map_some, shownSymbols_congr h]
  · rw [← get?_snapshot, ← get?_snapshot, h name]

/-- The order of the domains in the next snapshot is seen from the snapshot, too. -/
theorem snapshot_add_eq (h : b.snapshot = b'.snapshot) (domain : Scalar) (list : List String) :
    (b.add domain list).1.snapshot = (b'.add domain list).1.snapshot := by
  have hfrozen : b.domains.frozen = b'.domains.frozen := congrArg DomainMap.domains h
  have hkeys : b.domains.keys = b'.domains.keys := by
    rw [← Domains.keys_frozen, hfrozen, Domains.keys_frozen]
  have hrecorded : b.domains.recordedName domain = b'.domains.recordedName domain := by
    rw [Domains.recordedName, hkeys, Domains.recordedName]
  have hsymbols := shownSymbols_congr (.of_eq h) domain list
  have hadd : ∀ b : DomainBuilder, (b.add domain list).1.domains.frozen =
      b.domains.frozen.insert (b.domains.recordedName domain)
        (dropRepeats (sortSymbols (list.foldl addSymbol (b.symbols domain)))) := fun b =>
    Table.mapWithKey_insert _ _ _ _
  change DomainMap.mk (b.add domain list).1.domains.frozen = ⟨(b'.add domain list).1.domains.frozen⟩
  rw [hadd, hadd, hfrozen, hrecorded, hsymbols]

/-! ## Sequences of insertions -/

/-- A call that adds to a builder. -/
inductive Insertion where
  | symbol (domain symbol : Scalar)
  | batch (domain : Scalar) (symbols : List Scalar)

/-- The builder after a call, and what the call reports. -/
def offer (b : DomainBuilder) : Insertion → DomainBuilder × DomainReply
  | .symbol domain symbol =>
    let (b', result) := b.tryInsert domain symbol
    (b', .ofResult .inserted result)
  | .batch domain symbols =>
    let (b', result) := b.tryInsertAll domain symbols
    (b', .ofResult .added result)

/-- The builder after a sequence of calls, and the report of each. -/
def offerAll (b : DomainBuilder) : List Insertion → DomainBuilder × List DomainReply
  | [] => (b, [])
  | call :: rest => ((offerAll (b.offer call).1 rest).1,
      (b.offer call).2 :: (offerAll (b.offer call).1 rest).2)

/-- **A call is refused by every builder in the same way, or adds to every builder the same**, and
its report shows nothing but how many symbols were new. -/
theorem offer_cases (call : Insertion) :
    (∃ e, ∀ b : DomainBuilder, b.offer call = (b, .refused e)) ∨
      ∃ domain list, ∃ reply : Nat → DomainReply, ∀ b : DomainBuilder,
        b.offer call = ((b.add domain list).1, reply (b.add domain list).2) := by
  cases call with
  | symbol domain symbol =>
    by_cases h : Admits domain [symbol]
    · refine .inr ⟨domain, [symbol].filterMap Scalar.text?, fun n => .inserted (0 < n), fun b => ?_⟩
      rw [offer, tryInsert_eq, tryInsertAll_of_admits b h]
      rfl
    · obtain ⟨e, he⟩ := exists_tryInsertAll_error h
      refine .inl ⟨e, fun b => ?_⟩
      rw [offer, tryInsert_eq, he]
      rfl
  | batch domain symbols =>
    by_cases h : Admits domain symbols
    · refine .inr ⟨domain, symbols.filterMap Scalar.text?, .added, fun b => ?_⟩
      rw [offer, tryInsertAll_of_admits b h]
      rfl
    · obtain ⟨e, he⟩ := exists_tryInsertAll_error h
      refine .inl ⟨e, fun b => ?_⟩
      rw [offer, he]
      rfl

/-- **What every addition keeps of two builders, with equal counts, every sequence of calls keeps,
with equal reports.** -/
theorem offerAll_congr {R : DomainBuilder → DomainBuilder → Prop}
    (hadd : ∀ b b' domain list, R b b' → R (b.add domain list).1 (b'.add domain list).1 ∧
      (b.add domain list).2 = (b'.add domain list).2) (calls : List Insertion) :
    ∀ {b b' : DomainBuilder}, R b b' → R (b.offerAll calls).1 (b'.offerAll calls).1 ∧
      (b.offerAll calls).2 = (b'.offerAll calls).2 := by
  induction calls with
  | nil => exact fun h => ⟨h, rfl⟩
  | cons call rest ih =>
    intro b b' h
    have hcall : R (b.offer call).1 (b'.offer call).1 ∧ (b.offer call).2 = (b'.offer call).2 := by
      rcases offer_cases call with ⟨e, he⟩ | ⟨domain, list, reply, hreply⟩
      · rw [he, he]
        exact ⟨h, rfl⟩
      · obtain ⟨hR, hcount⟩ := hadd b b' domain list h
        rw [hreply, hreply]
        exact ⟨hR, congrArg reply hcount⟩
    obtain ⟨hR, hreplies⟩ := ih hcall.1
    refine ⟨hR, ?_⟩
    rw [offerAll, offerAll, hcall.2, hreplies]

/-! ## Taking over a map -/

/-- **New domains with distinct symbols are taken over as they are**, behind the old ones. -/
theorem addEntries_eq_append {entries : List (Scalar × List String)}
    (hnames : ∀ e ∈ entries, e.1.isFilledText = true) (hsymbols : ∀ e ∈ entries, e.2.Nodup) :
    ∀ b : DomainBuilder, (b.domains.keys ++ entries.map Prod.fst).Nodup →
      (b.addEntries entries).domains.toList = b.domains.toList ++ entries := by
  induction entries with
  | nil => exact fun b _ => (List.append_nil _).symm
  | cons e rest ih =>
    obtain ⟨hname, hnames⟩ := List.forall_mem_cons.1 hnames
    obtain ⟨hnodup, hsymbols⟩ := List.forall_mem_cons.1 hsymbols
    intro b hkeys
    have hnew : e.1 ∉ b.domains.keys := fun hmem =>
      (List.nodup_append.1 hkeys).2.2 e.1 hmem e.1 List.mem_cons_self rfl
    have hrecorded : b.domains.recordedName e.1 = e.1 := by
      obtain ⟨a, ha, -⟩ := Scalar.isFilledText_iff.1 hname
      rw [ha]
      exact Domains.recordedName_ofOption b.domains (some a)
    have hnone : b.symbols e.1 = [] := by
      rw [symbols, Domains.symbols, Domains.symbols?, hrecorded,
        (Table.get?_eq_none_iff b.domains).2 hnew]
      rfl
    have hadded : (b.add e.1 e.2).1.domains.toList = b.domains.toList ++ [e] := by
      have hlist : e.2.foldl addSymbol [] = e.2 := by
        have hfold := foldl_addSymbol e.2 []
        rwa [List.eraseDups_nil, List.nil_append, eraseDups_of_nodup hnodup] at hfold
      rw [add, hnone, hlist]
      unfold Domains.record
      rw [hrecorded]
      exact Table.insertEntry_of_notMem e.2 hnew
    have hkeys' : (b.add e.1 e.2).1.domains.keys = b.domains.keys ++ [e.1] := by
      rw [Table.keys, hadded, List.map_append]
      rfl
    rw [addEntries_cons, ih hnames hsymbols, hadded, List.append_assoc, List.singleton_append]
    rw [hkeys', List.append_assoc, List.singleton_append]
    exact hkeys

/-- A builder that goes on from a map takes it over as it is. -/
theorem ofDomainMap_ofDomains {d : Domains} (h : d.Filled) :
    ofDomainMap (.ofDomains d) = .ok ⟨d.frozen⟩ := by
  have hsound : Sound d := fun e he => admits_map_text.2 fun s hs =>
    ⟨h.names e.1 (List.mem_map_of_mem he), h.symbols e he s hs⟩
  have hentries : (empty.addEntries d.frozen.toList).domains.toList = d.frozen.toList := by
    refine addEntries_eq_append (fun e he => ?_) (fun e he => ?_) empty d.frozen.nodup
    · exact h.names.frozen e.1 (List.mem_map_of_mem he)
    · obtain ⟨e', -, rfl⟩ := List.mem_map.1 he
      exact nodup_of_ascending (dropRepeats_ascending (sortSymbols_sorted e'.2))
  refine ofDomainMap_eq_ok_iff.2 ⟨hsound.frozen, congrArg DomainBuilder.mk ?_⟩
  exact (Table.toList_injective hentries).symm

/-! ## Seeding -/

/-- What a builder is that goes on from a map. -/
structure Seeds (m : DomainMap) (s : DomainBuilder) : Prop where
  /-- Its snapshot is the map, with the domains in their order and the empty ones among them. -/
  snapshot_eq : s.snapshot = m
  keys_eq : s.domains.keys = m.domains.keys
  /-- It has the symbols of each domain in ascending order. -/
  symbols_eq : ∀ name, s.symbols name = m.domains.symbols name
  ascending : ∀ name, (s.symbols name).Pairwise (· < ·)
  /-- From a builder whose snapshot equals the map no calls tell it: the reports are the same and
  the snapshots stay equal. -/
  equal : ∀ b : DomainBuilder, b.snapshot.equal m = true → ∀ calls,
    (s.offerAll calls).2 = (b.offerAll calls).2 ∧
      (s.offerAll calls).1.snapshot.equal (b.offerAll calls).1.snapshot = true
  /-- If the domains have the same order in the beginning, they keep it. -/
  eq : ∀ b : DomainBuilder, b.snapshot = m → ∀ calls,
    (s.offerAll calls).1.snapshot = (b.offerAll calls).1.snapshot

/-- **Seeding inverts taking a snapshot**, and a seeded builder goes on as any builder does that the
map was taken of. -/
theorem exists_seeds {d : Domains} (h : d.Filled) :
    ∃ s, ofDomainMap (.ofDomains d) = .ok s ∧ Seeds (.ofDomains d) s := by
  have hsnapshot : (DomainBuilder.mk d.frozen).snapshot = .ofDomains d :=
    DomainMap.ofDomains_domains d
  have hnames : (DomainMap.ofDomains d).domains.NamesFilled := h.names.frozen
  refine ⟨⟨d.frozen⟩, ofDomainMap_ofDomains h, ?_⟩
  constructor
  case snapshot_eq => exact hsnapshot
  case keys_eq => rfl
  case symbols_eq => exact fun name => rfl
  case ascending =>
    intro name
    have hsymbols : (DomainBuilder.mk d.frozen).symbols name = dropRepeats
        (sortSymbols (d.symbols name)) := Domains.symbols_frozen d name
    rw [hsymbols]
    exact dropRepeats_ascending (sortSymbols_sorted _)
  case equal =>
    intro b hb calls
    obtain ⟨hmatches, hnames'⟩ := DomainMap.matches_of_equal hnames hb
    have hstart : (DomainBuilder.mk d.frozen).snapshot.Matches b.snapshot ∧
        Domains.Apart d.frozen ∧ b.domains.Apart :=
      ⟨hsnapshot ▸ hmatches.symm, hnames.apart, Domains.apart_frozen.1 hnames'.apart⟩
    -- the names of both builders are kept apart, which snapshots that match need to be equal
    obtain ⟨⟨hmatches, hapart, hapart'⟩, hreplies⟩ := offerAll_congr (R := fun b b' =>
        b.snapshot.Matches b'.snapshot ∧ b.domains.Apart ∧ b'.domains.Apart)
      (fun b b' domain list h => ⟨⟨matches_snapshot_add h.1 domain list, h.2.1.record domain _,
        h.2.2.record domain _⟩, add_snd_eq h.1 domain list⟩) calls hstart
    exact ⟨hreplies, hmatches.equal (Domains.apart_frozen.2 hapart)
      (Domains.apart_frozen.2 hapart')⟩
  case eq =>
    intro b hb calls
    exact (offerAll_congr (R := fun b b' => b.snapshot = b'.snapshot)
      (fun b b' domain list h => ⟨snapshot_add_eq h domain list,
        add_snd_eq (.of_eq h) domain list⟩) calls (hsnapshot.trans hb.symm)).1

/-- Two times, the later one first, and an empty domain. -/
def laterFirst : DomainBuilder :=
  ⟨.ofList [(.text "time", ["3", "1"]), (.text "place", [])]⟩

/-- A builder that goes on from the times has them in ascending order and reports the same. -/
theorem seeds_laterFirst :
    laterFirst.domains.Filled ∧ ∃ s, ofDomainMap laterFirst.snapshot = .ok s ∧
      Seeds laterFirst.snapshot s ∧ s.symbols (.text "time") = ["1", "3"] ∧
      (s.offerAll [.batch (.text "time") [.text "2", .text "1"],
        .symbol (.text "place") (.text "1"), .symbol (.text "time") (.text "3")]).2 =
          [.added 1, .inserted true, .inserted false] := by
  have hnames : laterFirst.domains.NamesFilled := by
    unfold Domains.NamesFilled
    decide
  have hfilled : laterFirst.domains.Filled := ⟨hnames, by decide⟩
  obtain ⟨s, hseeded, hseeds⟩ := exists_seeds hfilled
  have hequal : laterFirst.snapshot.equal laterFirst.snapshot = true :=
    (Matches.of_eq rfl).equal hnames.frozen.apart hnames.frozen.apart
  refine ⟨hfilled, s, hseeded, hseeds, ?_, ?_⟩
  · have htimes : laterFirst.domains.symbols (.text "time") = ["3", "1"] := by decide
    have hmem : ∀ x, x ∈ ["3", "1"] ↔ x ∈ ["1", "3"] := by simp [or_comm]
    have hsorted : ["1", "3"].Pairwise fun x y => !decide (y < x) := by decide
    calc s.symbols (.text "time")
        = laterFirst.snapshot.domains.symbols (.text "time") := hseeds.symbols_eq _
      _ = dropRepeats (sortSymbols (laterFirst.domains.symbols (.text "time"))) :=
          Domains.symbols_frozen laterFirst.domains _
      _ = dropRepeats (sortSymbols ["3", "1"]) := by rw [htimes]
      _ = dropRepeats (sortSymbols ["1", "3"]) := dropRepeats_sortSymbols_congr hmem
      _ = dropRepeats ["1", "3"] := congrArg dropRepeats (List.mergeSort_of_pairwise hsorted)
      _ = ["1", "3"] := by decide
  · rw [(hseeds.equal laterFirst hequal _).1]
    rfl

end DomainBuilder

end MarkovLogic
