import MarkovLogic.Proofs.Distinct
import MarkovLogic.Proofs.Domain.Lookup

/-!
# What insertions do

Writing the symbols of a batch one after the other is recording them at once (`foldl_write`). A
batch is written if the domain admits each of its symbols (`tryInsertAll_of_admits`), and otherwise
the builder is left as it was, because nothing is written before all is checked
(`exists_tryInsertAll_error`). One symbol is added like a batch of one (`tryInsert_eq`).

New symbols come after the old ones, so the symbols of a domain are those that were logged for it,
each at its first place (`Follows.add`). No symbol gets in that is not admitted (`Sound.add`), and
nothing ever gets lost (`grows_add`). A builder that goes on from a map has added the symbols of its
domains one domain after the other (`ofDomainMap_eq_ok_iff`).
-/

namespace MarkovLogic

/-- The text that a value is, if it is one. -/
def Scalar.text? : Scalar → Option String
  | .text s => some s
  | _ => none

theorem filterMap_text?_map_text (list : List String) :
    (list.map Scalar.text).filterMap Scalar.text? = list := by
  rw [List.filterMap_map]
  exact List.filterMap_some

/-! ## Symbols in the order of their first arrival -/

namespace DomainBuilder

/-- Adding symbols to distinct ones leaves the distinct ones of all of them. -/
theorem foldl_addSymbol (list : List String) :
    ∀ xs : List String, list.foldl addSymbol xs.eraseDups = (xs ++ list).eraseDups := by
  induction list with
  | nil => intro xs; simp
  | cons s rest ih =>
    intro xs
    have hs : addSymbol xs.eraseDups s = (xs ++ [s]).eraseDups := by
      unfold addSymbol
      by_cases h : s ∈ xs
      · rw [if_pos (by simpa using h), eraseDups_concat_of_mem h]
      · rw [if_neg (by simpa using h), eraseDups_concat_of_notMem h]
    rw [List.foldl_cons, hs, ih, List.append_assoc, List.singleton_append]

theorem addSymbol_addSymbol (symbols : List String) (s : String) :
    addSymbol (addSymbol symbols s) s = addSymbol symbols s := by
  have h : s ∈ addSymbol symbols s := by
    unfold addSymbol
    split
    · next h => simpa using h
    · exact List.mem_append_right _ (List.mem_singleton_self s)
  rw [addSymbol, if_pos (by simpa using h)]

/-- Repeats do not count. -/
theorem foldl_addSymbol_dropRepeats (list : List String) :
    ∀ symbols, (dropRepeats list).foldl addSymbol symbols = list.foldl addSymbol symbols := by
  induction list with
  | nil => intro symbols; rfl
  | cons s rest ih =>
    intro symbols
    rw [List.foldl_cons, ← ih, dropRepeats]
    cases dropRepeats rest with
    | nil => rfl
    | cons t rest' =>
      simp only
      split
      · next h => rw [h, List.foldl_cons, List.foldl_cons, addSymbol_addSymbol]
      · rw [List.foldl_cons]

theorem isPrefix_foldl_addSymbol (list : List String) :
    ∀ symbols, symbols <+: list.foldl addSymbol symbols := by
  induction list with
  | nil => exact List.prefix_refl
  | cons s rest ih =>
    intro symbols
    have hs : symbols <+: addSymbol symbols s := by
      unfold addSymbol
      split
      · exact List.prefix_refl symbols
      · exact List.prefix_append symbols [s]
    exact hs.trans (ih _)

theorem mem_foldl_addSymbol {list symbols : List String} {s : String} :
    s ∈ list.foldl addSymbol symbols ↔ s ∈ symbols ∨ s ∈ list := by
  induction list generalizing symbols with
  | nil => simp
  | cons t rest ih =>
    rw [List.foldl_cons, ih, List.mem_cons, addSymbol]
    split
    · next h =>
      have ht : t ∈ symbols := by simpa using h
      constructor
      · rintro (h | h)
        · exact .inl h
        · exact .inr (.inr h)
      · rintro (h | rfl | h)
        · exact .inl h
        · exact .inl ht
        · exact .inr h
    · rw [List.mem_append, List.mem_singleton, or_assoc]

/-! ## What is admitted -/

/-- The domain admits the symbols: its name and each symbol are texts with at least one character.
Without a symbol nothing is asked of the name. -/
def Admits (domain : Scalar) (symbols : List Scalar) : Prop :=
  ∀ s ∈ symbols, domain.isFilledText = true ∧ s.isFilledText = true

instance (domain : Scalar) (symbols : List Scalar) : Decidable (Admits domain symbols) :=
  inferInstanceAs (Decidable (∀ s ∈ symbols, domain.isFilledText = true ∧ s.isFilledText = true))

theorem admits_map_text {domain : Scalar} {list : List String} :
    Admits domain (list.map .text) ↔ ∀ s ∈ list, domain.isFilledText = true ∧ s ≠ "" := by
  simp [Admits, Scalar.isFilledText]

theorem admits_congr {domain : Scalar} {list list' : List String}
    (h : ∀ s, s ∈ list' ↔ s ∈ list) :
    Admits domain (list.map .text) → Admits domain (list'.map .text) := by
  rw [admits_map_text, admits_map_text]
  exact fun hadmits s hs => hadmits s ((h s).1 hs)

/-- What is admitted are texts. -/
theorem Admits.map_text {domain : Scalar} {symbols : List Scalar} (h : Admits domain symbols) :
    Admits domain ((symbols.filterMap Scalar.text?).map .text) := by
  intro s hs
  obtain ⟨a, ha, rfl⟩ := List.mem_map.1 hs
  obtain ⟨t, ht, hta⟩ := List.mem_filterMap.1 ha
  cases t with
  | text c =>
    obtain rfl := Option.some.inj hta
    exact h _ ht
  | _ => cases hta

theorem check_eq_ok_iff {domain symbol : Scalar} {s : String} :
    check domain symbol = .ok s ↔
      domain.isFilledText = true ∧ symbol.isFilledText = true ∧ symbol = .text s := by
  unfold check
  cases hd : domain.isFilledText with
  | false => simp
  | true =>
    cases symbol with
    | text t =>
      by_cases ht : t.isEmpty = true
      · simp [Scalar.isFilledText, ht]
      · simp [Scalar.isFilledText, ht]
    | _ => simp [Scalar.isFilledText]

theorem mapM_check_eq_ok_iff {domain : Scalar} {symbols : List Scalar} {list : List String} :
    symbols.mapM (check domain) = .ok list ↔
      Admits domain symbols ∧ list = symbols.filterMap Scalar.text? := by
  rw [mapM_eq_ok_iff]
  constructor
  · intro h
    induction h with
    | nil => exact ⟨nofun, rfl⟩
    | cons hs _ ih =>
      obtain ⟨hd, hfilled, rfl⟩ := check_eq_ok_iff.1 hs
      exact ⟨List.forall_mem_cons.2 ⟨⟨hd, hfilled⟩, ih.1⟩, congrArg _ ih.2⟩
  · rintro ⟨h, rfl⟩
    induction symbols with
    | nil => exact .nil
    | cons s rest ih =>
      obtain ⟨⟨hd, hs⟩, hrest⟩ := List.forall_mem_cons.1 h
      obtain ⟨a, rfl, -⟩ := Scalar.isFilledText_iff.1 hs
      exact .cons (check_eq_ok_iff.2 ⟨hd, hs, rfl⟩) (ih hrest)

/-! ## Batches -/

/-- The builder with the symbols recorded at once, and the number of those that were new. -/
def add (b : DomainBuilder) (domain : Scalar) (list : List String) : DomainBuilder × Nat :=
  let before := b.symbols domain
  let after := list.foldl addSymbol before
  (⟨b.domains.record domain after⟩, after.length - before.length)

theorem symbols_record_self (d : Domains) (domain : Scalar) (symbols : List String) :
    DomainBuilder.symbols ⟨d.record domain symbols⟩ domain = symbols := by
  rw [DomainBuilder.symbols, Domains.symbols_record, if_pos (Scalar.same_refl domain)]

theorem symbols_know (b : DomainBuilder) (domain : Scalar) :
    (b.know domain).symbols domain = b.symbols domain :=
  symbols_record_self b.domains domain (b.symbols domain)

theorem write_record (d : Domains) (domain : Scalar) (symbols : List String) (s : String) :
    write domain ⟨d.record domain symbols⟩ s = ⟨d.record domain (addSymbol symbols s)⟩ := by
  rw [write, symbols_record_self, Domains.record_record]

theorem foldl_write_record (d : Domains) (domain : Scalar) (list : List String) :
    ∀ symbols, list.foldl (write domain) ⟨d.record domain symbols⟩ =
      ⟨d.record domain (list.foldl addSymbol symbols)⟩ := by
  induction list with
  | nil => intro symbols; rfl
  | cons s rest ih => intro symbols; rw [List.foldl_cons, List.foldl_cons, write_record, ih]

/-- **Symbols written one after the other are recorded as if at once.** -/
theorem foldl_write (b : DomainBuilder) (domain : Scalar) (list : List String) :
    list.foldl (write domain) (b.know domain) = (b.add domain list).1 :=
  foldl_write_record b.domains domain list (b.symbols domain)

/-- **A batch that the domain admits is written.** -/
theorem tryInsertAll_of_admits (b : DomainBuilder) {domain : Scalar} {symbols : List Scalar}
    (h : Admits domain symbols) :
    b.tryInsertAll domain symbols = ((b.add domain (symbols.filterMap Scalar.text?)).1,
      .ok (b.add domain (symbols.filterMap Scalar.text?)).2) := by
  have hafter : ((b.add domain (symbols.filterMap Scalar.text?)).1).symbols domain =
      (symbols.filterMap Scalar.text?).foldl addSymbol (b.symbols domain) :=
    symbols_record_self b.domains domain _
  rw [tryInsertAll, mapM_check_eq_ok_iff.2 ⟨h, rfl⟩]
  simp only [foldl_write, hafter, symbols_know]
  rfl

/-- **A batch that the domain does not admit leaves every builder as it was**, because it is refused
before anything is written. -/
theorem exists_tryInsertAll_error {domain : Scalar} {symbols : List Scalar}
    (h : ¬ Admits domain symbols) :
    ∃ e, ∀ b : DomainBuilder, b.tryInsertAll domain symbols = (b, .error e) := by
  cases hcheck : symbols.mapM (check domain) with
  | ok list => exact absurd (mapM_check_eq_ok_iff.1 hcheck).1 h
  | error e => exact ⟨e, fun b => by rw [tryInsertAll, hcheck]⟩

theorem insertAll_of_admits (b : DomainBuilder) {domain : Scalar} {symbols : List Scalar}
    (h : Admits domain symbols) :
    b.insertAll domain symbols = .ok (b.add domain (symbols.filterMap Scalar.text?)) := by
  rw [insertAll, tryInsertAll_of_admits b h]
  rfl

theorem insertAll_eq_ok_iff {b : DomainBuilder} {domain : Scalar} {symbols : List Scalar}
    {r : DomainBuilder × Nat} :
    b.insertAll domain symbols = .ok r ↔
      Admits domain symbols ∧ r = b.add domain (symbols.filterMap Scalar.text?) := by
  by_cases h : Admits domain symbols
  · rw [insertAll_of_admits b h, Except.ok.injEq, and_iff_right h, eq_comm]
  · obtain ⟨e, he⟩ := exists_tryInsertAll_error h
    rw [insertAll, he]
    exact iff_of_false nofun fun hr => h hr.1

/-- **One symbol is added like a batch of one.** -/
theorem tryInsert_eq (b : DomainBuilder) (domain symbol : Scalar) :
    b.tryInsert domain symbol = ((b.tryInsertAll domain [symbol]).1,
      (b.tryInsertAll domain [symbol]).2.map fun count => decide (0 < count)) := by
  rw [tryInsert, tryInsertAll, List.mapM_cons, List.mapM_nil]
  cases check domain symbol with
  | error e => rfl
  | ok s =>
    have hwritten : write domain (b.know domain) s =
        ⟨b.domains.record domain (addSymbol (b.symbols domain) s)⟩ :=
      write_record b.domains domain _ s
    simp only [bind, Except.bind, pure, Except.pure, List.foldl_cons, List.foldl_nil, symbols_know,
      hwritten, symbols_record_self, Except.map, addSymbol]
    by_cases h : (b.symbols domain).contains s = true
    · rw [if_pos h, if_pos h, Nat.sub_self]
      rfl
    · rw [if_neg h, if_neg h]
      simp

theorem insert_eq_insertAll (b : DomainBuilder) (domain symbol : Scalar) :
    b.insert domain symbol =
      (b.insertAll domain [symbol]).map fun r => (r.1, decide (0 < r.2)) := by
  rw [insert, tryInsert_eq, insertAll]
  rcases b.tryInsertAll domain [symbol] with ⟨b', _ | count⟩ <;> rfl

/-! ## The symbols after an insertion -/

/-- The symbols that the log has for the domain, each at its first place. -/
def logged (log : List (Scalar × String)) (domain : Scalar) : List String :=
  ((log.filter fun e => e.1 = domain).map Prod.snd).eraseDups

/-- The builder holds for every domain what the log has for it. -/
def Follows (b : DomainBuilder) (log : List (Scalar × String)) : Prop :=
  ∀ domain, b.symbols domain = logged log domain

variable {b : DomainBuilder} {log : List (Scalar × String)} {domain : Scalar} {list : List String}

theorem symbols_add (b : DomainBuilder) (domain domain' : Scalar) (list : List String) :
    (b.add domain list).1.symbols domain' =
      if domain.same domain' = true then list.foldl addSymbol (b.symbols domain)
      else b.symbols domain' :=
  Domains.symbols_record b.domains domain domain' _

theorem follows_empty : empty.Follows [] := fun _ => rfl

/-- **Adding admitted symbols is logging them.** -/
theorem Follows.add (hb : b.Follows log) (h : Admits domain (list.map .text)) :
    (b.add domain list).1.Follows (log ++ list.map fun s => (domain, s)) := by
  intro domain'
  rw [symbols_add]
  cases list with
  | nil =>
    rw [List.map_nil, List.append_nil, ← hb domain', List.foldl_nil]
    split
    · next hsame => exact Domains.symbols_congr hsame
    · rfl
  | cons s rest =>
    -- with a symbol at hand the name is a text, which is the same as no other name
    obtain ⟨a, rfl, -⟩ :=
      Scalar.isFilledText_iff.1 (admits_map_text.1 h s List.mem_cons_self).1
    by_cases hd : domain' = .text a
    · rw [hd, if_pos (Scalar.same_refl _), hb, logged, foldl_addSymbol, logged, List.filter_append,
        List.map_append]
      congr 2
      simp [List.filter_map, Function.comp_def]
    · rw [if_neg fun hsame => hd (Scalar.eq_of_same_text hsame), hb, logged, logged,
        List.filter_append]
      have hnone : ((s :: rest).map fun s => (Scalar.text a, s)).filter
          (fun e => decide (e.1 = domain')) = [] := by
        rw [List.filter_map, List.map_eq_nil_iff]
        exact List.filter_eq_nil_iff.2 fun t _ => by simpa using Ne.symm hd
      rw [hnone, List.append_nil]

/-- Every name with symbols and every symbol is a text with at least one character. -/
def Sound (d : Domains) : Prop :=
  ∀ e ∈ d.toList, Admits e.1 (e.2.map .text)

instance (d : Domains) : Decidable (Sound d) :=
  inferInstanceAs (Decidable (∀ e ∈ d.toList, Admits e.1 (e.2.map .text)))

theorem sound_empty : Sound Table.empty := nofun

theorem Sound.admits_symbols {d : Domains} (hd : Sound d) (name : Scalar) :
    Admits name ((d.symbols name).map .text) := by
  rw [Domains.symbols]
  cases h : d.symbols? name with
  | none =>
    intro s hs
    cases hs
  | some list =>
    obtain ⟨e, he, hsame, rfl⟩ := Domains.exists_entry_of_symbols? h
    intro s hs
    rw [Scalar.isFilledText_congr hsame]
    exact hd e he s hs

/-- Adding admitted symbols keeps out all others. -/
theorem Sound.add (hb : Sound b.domains) (h : Admits domain (list.map .text)) :
    Sound (b.add domain list).1.domains := by
  intro e he
  rcases Table.mem_toList_insert he with rfl | he
  · rw [admits_map_text] at h ⊢
    intro s hs
    rw [← Scalar.isFilledText_congr (Domains.same_recordedName b.domains domain)]
    rcases mem_foldl_addSymbol.1 hs with hs | hs
    · exact admits_map_text.1 (hb.admits_symbols domain) s hs
    · exact h s hs
  · exact hb e he

theorem sound_frozen_iff {d : Domains} : Sound d.frozen ↔ Sound d := by
  have hmem : ∀ (list : List String) (s : String), s ∈ dropRepeats (sortSymbols list) ↔ s ∈ list :=
    fun list s => (mem_dropRepeats _).trans mem_sortSymbols
  constructor
  · intro h e he
    exact admits_congr (fun s => (hmem e.2 s).symm) (h _ (List.mem_map_of_mem he))
  · intro h e he
    obtain ⟨e', he', rfl⟩ := List.mem_map.1 he
    exact admits_congr (hmem e'.2) (h e' he')

theorem Sound.frozen {d : Domains} (hd : Sound d) : Sound d.frozen :=
  sound_frozen_iff.2 hd

/-! ## Growth -/

/-- Each domain of the first keeps its symbols in the second, with new ones after them. -/
def Grows (b b' : DomainBuilder) : Prop :=
  ∀ name symbols, b.domains.symbols? name = some symbols →
    ∃ symbols', b'.domains.symbols? name = some symbols' ∧ symbols <+: symbols'

theorem Grows.refl (b : DomainBuilder) : b.Grows b :=
  fun _ symbols h => ⟨symbols, h, List.prefix_refl symbols⟩

theorem Grows.trans {b b' b'' : DomainBuilder} (h : b.Grows b') (h' : b'.Grows b'') :
    b.Grows b'' := by
  intro name symbols hs
  obtain ⟨symbols', hs', hpre⟩ := h name symbols hs
  obtain ⟨symbols'', hs'', hpre'⟩ := h' name symbols' hs'
  exact ⟨symbols'', hs'', hpre.trans hpre'⟩

theorem symbols?_add (b : DomainBuilder) (domain domain' : Scalar) (list : List String) :
    (b.add domain list).1.domains.symbols? domain' =
      if domain.same domain' = true then some (list.foldl addSymbol (b.symbols domain))
      else b.domains.symbols? domain' :=
  Domains.symbols?_record b.domains domain domain' _

/-- **Insertions only ever add.** -/
theorem grows_add (b : DomainBuilder) (domain : Scalar) (list : List String) :
    b.Grows (b.add domain list).1 := by
  intro name symbols h
  rw [symbols?_add]
  split
  · next hsame =>
    have hs : b.symbols domain = symbols := by
      rw [DomainBuilder.symbols, Domains.symbols, Domains.symbols?_congr hsame, h]
      rfl
    exact ⟨_, rfl, hs ▸ isPrefix_foldl_addSymbol list _⟩
  · exact ⟨symbols, h, List.prefix_refl symbols⟩

/-! ## Builders made from a map -/

/-- The builder with the symbols of each entry added in order. -/
def addEntries (b : DomainBuilder) (entries : List (Scalar × List String)) : DomainBuilder :=
  entries.foldl (fun b e => (b.add e.1 e.2).1) b

theorem addEntries_cons (b : DomainBuilder) (e : Scalar × List String)
    (entries : List (Scalar × List String)) :
    b.addEntries (e :: entries) = (b.add e.1 e.2).1.addEntries entries := rfl

/-- A map is taken over if each of its domains admits its symbols, and refused otherwise. -/
theorem ofDomainMap_eq_ok_iff {m : DomainMap} :
    ofDomainMap m = .ok b ↔ Sound m.domains ∧ b = empty.addEntries m.domains.toList := by
  have hstep : ∀ (b b' : DomainBuilder) (e : Scalar × List String),
      (do return (← b.insertAll e.1 (e.2.map .text)).1 : Except DomainError DomainBuilder) =
          .ok b' ↔
        Admits e.1 (e.2.map .text) ∧ b' = (b.add e.1 e.2).1 := by
    intro b b' e
    rw [bind_eq_ok_iff]
    constructor
    · rintro ⟨r, hr, h⟩
      obtain ⟨hadmits, rfl⟩ := insertAll_eq_ok_iff.1 hr
      rw [filterMap_text?_map_text] at h
      exact ⟨hadmits, (Except.ok.inj h).symm⟩
    · rintro ⟨hadmits, rfl⟩
      refine ⟨_, insertAll_of_admits b hadmits, ?_⟩
      rw [filterMap_text?_map_text]
      rfl
  unfold ofDomainMap addEntries Sound
  generalize empty = b₀
  induction m.domains.toList generalizing b₀ with
  | nil =>
    rw [foldlM_nil_eq_ok_iff]
    exact ⟨fun h => ⟨nofun, h.symm⟩, fun h => h.2.symm⟩
  | cons e entries ih =>
    rw [foldlM_cons_eq_ok_iff, List.forall_mem_cons, List.foldl_cons]
    constructor
    · rintro ⟨b', hb', h⟩
      obtain ⟨hadmits, rfl⟩ := (hstep b₀ b' e).1 hb'
      obtain ⟨hrest, h⟩ := ih _ |>.1 h
      exact ⟨⟨hadmits, hrest⟩, h⟩
    · rintro ⟨⟨hadmits, hrest⟩, h⟩
      exact ⟨_, (hstep b₀ _ e).2 ⟨hadmits, rfl⟩, (ih _).2 ⟨hrest, h⟩⟩

theorem Follows.addEntries {entries : List (Scalar × List String)} (hb : b.Follows log)
    (h : ∀ e ∈ entries, Admits e.1 (e.2.map .text)) :
    (b.addEntries entries).Follows (log ++ entries.flatMap fun e => e.2.map fun s => (e.1, s)) := by
  induction entries generalizing b log with
  | nil => simpa [DomainBuilder.addEntries] using hb
  | cons e entries ih =>
    obtain ⟨he, hrest⟩ := List.forall_mem_cons.1 h
    rw [addEntries_cons, List.flatMap_cons, ← List.append_assoc]
    exact ih (hb.add he) hrest

theorem Sound.addEntries {entries : List (Scalar × List String)} (hb : Sound b.domains)
    (h : ∀ e ∈ entries, Admits e.1 (e.2.map .text)) : Sound (b.addEntries entries).domains := by
  induction entries generalizing b with
  | nil => exact hb
  | cons e entries ih =>
    obtain ⟨he, hrest⟩ := List.forall_mem_cons.1 h
    exact ih (hb.add he) hrest

theorem grows_addEntries (b : DomainBuilder) (entries : List (Scalar × List String)) :
    b.Grows (b.addEntries entries) := by
  induction entries generalizing b with
  | nil => exact .refl b
  | cons e entries ih => exact (grows_add b e.1 e.2).trans (ih _)

/-- Every entry that is added is found again. -/
theorem exists_of_mem_addEntries {entries : List (Scalar × List String)}
    {e : Scalar × List String} (he : e ∈ entries) (b : DomainBuilder) :
    ∃ symbols, (b.addEntries entries).domains.symbols? e.1 = some symbols ∧ e.2 ⊆ symbols := by
  induction entries generalizing b with
  | nil => cases he
  | cons e' entries ih =>
    rcases List.mem_cons.1 he with rfl | he
    · have hadd := symbols?_add b e.1 e.1 e.2
      rw [if_pos (Scalar.same_refl e.1)] at hadd
      obtain ⟨symbols, hs, hpre⟩ := grows_addEntries (b.add e.1 e.2).1 entries e.1 _ hadd
      exact ⟨symbols, hs, fun s hse => hpre.subset (mem_foldl_addSymbol.2 (.inr hse))⟩
    · exact ih he _

/-- Symbols in ascending order and without repeats leave a domain as the ascending ones do. -/
theorem addEntries_frozen (b : DomainBuilder) (d : Domains) :
    b.addEntries d.frozen.toList =
      b.addEntries (d.toList.map fun e => (e.1, sortSymbols e.2)) := by
  unfold addEntries Domains.frozen Table.mapWithKey
  simp only [List.foldl_map, add, foldl_addSymbol_dropRepeats]

end DomainBuilder

end MarkovLogic
