import MarkovLogic.Proofs.Domain.Snapshots

/-!
# Batches of symbols

A batch does to a builder what its symbols do one by one (`exists_insertEach`), and in two parts it
does what it does at once (`add_add`). How many symbols of it are new and what a snapshot shows of
it depend on which symbols it has and not on their order or repeats (`add_snd_congr`,
`snapshot_add_congr`). `exists_insertAll_actsAsEach` puts this together.
-/

namespace MarkovLogic

/-! ## Symbols as a set -/

/-- Sorted and without repeats, symbols are determined by which they are. -/
theorem dropRepeats_sortSymbols_congr {list list' : List String} (h : ∀ s, s ∈ list' ↔ s ∈ list) :
    dropRepeats (sortSymbols list') = dropRepeats (sortSymbols list) := by
  have hasc : ∀ list, (dropRepeats (sortSymbols list)).Pairwise (· < ·) :=
    fun list => dropRepeats_ascending (sortSymbols_sorted list)
  have hperm : (dropRepeats (sortSymbols list')).Perm (dropRepeats (sortSymbols list)) := by
    refine (List.perm_ext_iff_of_nodup (nodup_of_ascending (hasc _))
      (nodup_of_ascending (hasc _))).2 fun s => ?_
    rw [mem_dropRepeats, mem_dropRepeats, mem_sortSymbols, mem_sortSymbols, h]
  exact hperm.eq_of_pairwise (fun s t _ _ hst hts => absurd hst (String.lt_asymm hts))
    (hasc _) (hasc _)

namespace DomainBuilder

/-- The symbols of the list that are not there yet, each at its first place. -/
def newSymbols (symbols list : List String) : List String :=
  (list.filter fun s => !symbols.contains s).eraseDups

theorem mem_newSymbols {symbols list : List String} {s : String} :
    s ∈ newSymbols symbols list ↔ s ∈ list ∧ s ∉ symbols := by
  simp [newSymbols]

/-- Adding symbols puts the new ones behind the old ones. -/
theorem foldl_addSymbol_eq_append (symbols list : List String) :
    list.foldl addSymbol symbols = symbols ++ newSymbols symbols list := by
  induction list using List.reverseRecOn with
  | nil => simp [newSymbols]
  | append_singleton list s ih =>
    rw [List.foldl_append, ih, List.foldl_cons, List.foldl_nil, addSymbol, newSymbols, newSymbols,
      List.filter_append]
    by_cases hold : s ∈ symbols
    · simp [hold]
    · have hfilter : [s].filter (fun s => !symbols.contains s) = [s] := by simp [hold]
      by_cases hlist : s ∈ list
      · rw [hfilter, eraseDups_concat_of_mem (by simp [hlist, hold]),
          if_pos (by simp [hlist, hold])]
      · rw [hfilter, eraseDups_concat_of_notMem (by simp [hlist]), if_neg (by simp [hlist, hold]),
          List.append_assoc]

/-! ## Adding -/

variable (b : DomainBuilder) (domain : Scalar)

theorem add_snd (list : List String) :
    (b.add domain list).2 = (newSymbols (b.symbols domain) list).length := by
  rw [add, foldl_addSymbol_eq_append, List.length_append, Nat.add_sub_cancel_left]

/-- **How many symbols of a batch are new depends on which symbols it has.** -/
theorem add_snd_congr {list list' : List String} (h : ∀ s, s ∈ list' ↔ s ∈ list) :
    (b.add domain list').2 = (b.add domain list).2 := by
  rw [add_snd, add_snd]
  refine List.Perm.length_eq ((List.perm_ext_iff_of_nodup (nodup_eraseDups _)
    (nodup_eraseDups _)).2 fun s => ?_)
  rw [← newSymbols, ← newSymbols, mem_newSymbols, mem_newSymbols, h]

/-- **What a snapshot shows of a batch depends on which symbols it has.** -/
theorem snapshot_add_congr {list list' : List String} (h : ∀ s, s ∈ list' ↔ s ∈ list) :
    (b.add domain list').1.snapshot = (b.add domain list).1.snapshot := by
  have hsymbols : dropRepeats (sortSymbols (list'.foldl addSymbol (b.symbols domain))) =
      dropRepeats (sortSymbols (list.foldl addSymbol (b.symbols domain))) := by
    refine dropRepeats_sortSymbols_congr fun s => ?_
    rw [mem_foldl_addSymbol, mem_foldl_addSymbol, h]
  simp only [snapshot, DomainMap.ofDomains, add, Domains.frozen, Domains.record,
    Table.mapWithKey_insert, hsymbols]

/-- **Two batches add what they add as one.** -/
theorem add_add (xs ys : List String) :
    ((b.add domain xs).1.add domain ys).1 = (b.add domain (xs ++ ys)).1 ∧
      (b.add domain xs).2 + ((b.add domain xs).1.add domain ys).2 =
        (b.add domain (xs ++ ys)).2 := by
  have hsymbols : (b.add domain xs).1.symbols domain = xs.foldl addSymbol (b.symbols domain) := by
    rw [symbols_add, if_pos (Scalar.same_refl domain)]
  have hfst : ((b.add domain xs).1.add domain ys).1 = (b.add domain (xs ++ ys)).1 := by
    change DomainBuilder.mk ((b.domains.record domain _).record domain
      (ys.foldl addSymbol ((b.add domain xs).1.symbols domain))) = ⟨b.domains.record domain _⟩
    rw [hsymbols, ← List.foldl_append, Domains.record_record]
  refine ⟨hfst, ?_⟩
  -- the counts are the growths of the domain
  have hxs := length_symbols_add b domain xs
  have hys := length_symbols_add (b.add domain xs).1 domain ys
  have hall := length_symbols_add b domain (xs ++ ys)
  rw [hfst] at hys
  omega

/-! ## One by one -/

variable {b domain}

/-- Inserts the symbols one by one and tells of each whether it was new. -/
def insertEach (b : DomainBuilder) (domain : Scalar) :
    List Scalar → Except DomainError (DomainBuilder × List Bool)
  | [] => .ok (b, [])
  | symbol :: rest => do
    let (b, new) ← b.insert domain symbol
    let (b, news) ← insertEach b domain rest
    return (b, new :: news)

theorem insert_of_admits {s : String} (h : Admits domain [.text s]) :
    b.insert domain (.text s) = .ok ((b.add domain [s]).1, decide (0 < (b.add domain [s]).2)) := by
  rw [insert_eq_insertAll, insertAll_of_admits b h]
  rfl

theorem add_singleton_le_one (b : DomainBuilder) (domain : Scalar) (s : String) :
    (b.add domain [s]).2 ≤ 1 := by
  rw [add_snd, newSymbols]
  exact (eraseDups_sublist _).length_le.trans (List.length_filter_le _ _)

/-- **The symbols of a batch one by one do what the batch does**, except that no symbol at all
leaves the builder as it is. -/
theorem exists_insertEach {list : List String} (h : Admits domain (list.map .text)) :
    ∀ b : DomainBuilder, ∃ news,
      b.insertEach domain (list.map .text) =
          .ok (if list = [] then b else (b.add domain list).1, news) ∧
        news.count true = (b.add domain list).2 := by
  induction list with
  | nil => exact fun b => ⟨[], rfl, by simp [add]⟩
  | cons s rest ih =>
    intro b
    obtain ⟨hs, hrest⟩ := List.forall_mem_cons.1 h
    obtain ⟨news, heach, hcount⟩ := ih hrest (b.add domain [s]).1
    obtain ⟨hfst, hsnd⟩ := b.add_add domain [s] rest
    refine ⟨decide (0 < (b.add domain [s]).2) :: news, ?_, ?_⟩
    · have hresult : (if rest = [] then (b.add domain [s]).1
          else ((b.add domain [s]).1.add domain rest).1) = (b.add domain (s :: rest)).1 := by
        split
        · next hnil => rw [hnil]
        · exact hfst
      refine bind_eq_ok_iff.2 ⟨_, insert_of_admits (List.forall_mem_singleton.2 hs), ?_⟩
      refine bind_eq_ok_iff.2 ⟨_, heach, ?_⟩
      rw [hresult, if_neg (List.cons_ne_nil s rest)]
      rfl
    · have htotal : (b.add domain (s :: rest)).2 =
          (b.add domain [s]).2 + ((b.add domain [s]).1.add domain rest).2 := hsnd.symm
      rw [List.count_cons, hcount, htotal]
      rcases Nat.le_one_iff_eq_zero_or_eq_one.1 (add_singleton_le_one b domain s) with hnew | hnew
      · simp [hnew]
      · simp [hnew, Nat.add_comm]

/-- A batch has done to a builder what its symbols do one by one, in any order, and in two
batches. -/
structure ActsAsEach (b : DomainBuilder) (domain : Scalar) (list : List String)
    (batch : DomainBuilder) (count : Nat) : Prop where
  /-- Every domain has the same symbols in the same order as after single insertions, and the count
  is that of the new ones. With a symbol at hand the builders are the same. -/
  each : ∃ one news, b.insertEach domain (list.map .text) = .ok (one, news) ∧
    (∀ d, batch.symbols d = one.symbols d) ∧ (∀ d, batch.sizeOf d = one.sizeOf d) ∧
    (∀ d s, batch.contains d s = one.contains d s) ∧ count = news.count true ∧
    (list ≠ [] → batch = one)
  /-- A batch of the same symbols in another order, each as often as one likes, gives the same count
  and the same snapshot. -/
  reorders : ∀ list' : List String, (∀ s, s ∈ list' ↔ s ∈ list) → ∃ batch',
    b.insertAll domain (list'.map .text) = .ok (batch', count) ∧
      batch'.snapshot = batch.snapshot
  /-- Two batches give the same builder, and their counts add up. -/
  splits : ∀ xs ys : List String, list = xs ++ ys → ∃ first n m,
    b.insertAll domain (xs.map .text) = .ok (first, n) ∧
      first.insertAll domain (ys.map .text) = .ok (batch, m) ∧ count = n + m

theorem insertAll_map_text {list : List String} (h : Admits domain (list.map .text))
    (b : DomainBuilder) : b.insertAll domain (list.map .text) = .ok (b.add domain list) := by
  rw [insertAll_of_admits b h, filterMap_text?_map_text]

/-- After a batch every domain has the symbols that it has after single insertions. -/
theorem symbols_add_eq_ite (b : DomainBuilder) (domain : String) (list : List String) (d : Scalar) :
    (b.add (.text domain) list).1.symbols d =
      (if list = [] then b else (b.add (.text domain) list).1).symbols d := by
  split
  · next hnil =>
    rw [symbols_add, hnil, List.foldl_nil]
    split
    · next hsame => rw [Scalar.eq_of_same_text hsame]
    · rfl
  · rfl

/-- **Batch insertion refines single insertion.** A batch of non-empty texts is added to a domain
with a non-empty name, whatever the builder holds, and acts as its symbols do. -/
theorem exists_insertAll_actsAsEach (b : DomainBuilder) {domain : String} {list : List String}
    (hdomain : domain ≠ "") (hlist : ∀ s ∈ list, s ≠ "") :
    ∃ batch count, b.insertAll (.text domain) (list.map .text) = .ok (batch, count) ∧
      b.ActsAsEach (.text domain) list batch count := by
  have hfilled : (Scalar.text domain).isFilledText = true :=
    Scalar.isFilledText_iff.2 ⟨domain, rfl, hdomain⟩
  have hadmits : Admits (.text domain) (list.map .text) :=
    admits_map_text.2 fun s hs => ⟨hfilled, hlist s hs⟩
  refine ⟨(b.add (.text domain) list).1, (b.add (.text domain) list).2,
    insertAll_map_text hadmits b, ?_⟩
  constructor
  case each =>
    obtain ⟨news, heach, hcount⟩ := exists_insertEach hadmits b
    have hsymbols := b.symbols_add_eq_ite domain list
    refine ⟨_, news, heach, hsymbols, fun d => congrArg List.length (hsymbols d), fun d s => ?_,
      hcount.symm, fun hne => (if_neg hne).symm⟩
    unfold contains
    rw [hsymbols]
  case reorders =>
    intro list' hmem
    refine ⟨(b.add (.text domain) list').1, ?_, snapshot_add_congr b _ hmem⟩
    rw [insertAll_map_text (admits_congr hmem hadmits), ← add_snd_congr b _ hmem]
  case splits =>
    rintro xs ys rfl
    rw [List.map_append] at hadmits
    obtain ⟨hxs, hys⟩ := List.forall_mem_append.1 hadmits
    obtain ⟨hfst, hsnd⟩ := b.add_add (.text domain) xs ys
    refine ⟨(b.add (.text domain) xs).1, (b.add (.text domain) xs).2,
      ((b.add (.text domain) xs).1.add (.text domain) ys).2, insertAll_map_text hxs b, ?_,
      hsnd.symm⟩
    rw [insertAll_map_text hys, ← hfst]

/-- The domain of times, which holds one time, and an empty domain. -/
def fewTimes : DomainBuilder :=
  ⟨.ofList [(.text "time", ["3"]), (.text "place", [])]⟩

/-- A batch that repeats a symbol of its own and one of the builder. -/
theorem actsAsEach_fewTimes :
    "time" ≠ "" ∧ (∀ s ∈ ["2", "3", "2", "1"], s ≠ "") ∧
      ∃ batch count, fewTimes.insertAll (.text "time") (["2", "3", "2", "1"].map .text) =
          .ok (batch, count) ∧
        fewTimes.ActsAsEach (.text "time") ["2", "3", "2", "1"] batch count ∧
        batch.symbols (.text "time") = ["3", "2", "1"] ∧ count = 2 := by
  have hlist : ∀ s ∈ ["2", "3", "2", "1"], s ≠ "" := by decide
  have htime : "time" ≠ "" := by decide
  obtain ⟨batch, count, hinsert, hacts⟩ := exists_insertAll_actsAsEach fewTimes htime hlist
  have hadded : fewTimes.insertAll (.text "time") (["2", "3", "2", "1"].map .text) =
      .ok (fewTimes.add (.text "time") ["2", "3", "2", "1"]) := by rfl
  obtain ⟨rfl, rfl⟩ := Prod.mk.inj (Except.ok.inj (hadded.symm.trans hinsert))
  exact ⟨htime, hlist, _, _, hinsert, hacts, by decide, by decide⟩

end DomainBuilder

end MarkovLogic
