import MarkovLogic.Proofs.Domain.Ascending

/-!
# Domains under names that count as the same

A domain is found under every name that counts as the name it was first recorded under
(`Domains.symbols?_eq_find?`). So recording a domain changes the look-up of such names only
(`Domains.symbols?_record`), and what is recorded last counts (`Domains.record_record`). Freezing
sorts the symbols of each domain and keeps which domains are known (`Domains.symbols?_frozen`).
-/

namespace MarkovLogic

/-! ## Names -/

namespace Scalar

variable {s t u : Scalar}

theorem same_iff : s.same t = true ↔ s.counted = t.counted :=
  decide_eq_true_iff

theorem same_refl (s : Scalar) : s.same s = true :=
  same_iff.2 rfl

theorem same_symm (h : s.same t = true) : t.same s = true :=
  same_iff.2 (same_iff.1 h).symm

/-- Names that count as the same count as the same as the same names. -/
theorem same_congr (h : s.same t = true) : s.same u = t.same u := by
  unfold same
  rw [same_iff.1 h]

/-- A text counts as no other name. -/
theorem eq_of_same_text {a : String} (h : (Scalar.text a).same t = true) : t = .text a :=
  (same_ofOption_iff (some a) t).1 h

theorem isFilledText_iff : s.isFilledText = true ↔ ∃ a, s = .text a ∧ a ≠ "" := by
  cases s <;> simp [isFilledText]

theorem isFilledText_congr (h : s.same t = true) : s.isFilledText = t.isFilledText := by
  cases s with
  | text a => rw [eq_of_same_text h]
  | int n =>
    cases t with
    | text b => cases eq_of_same_text (same_symm h)
    | _ => rfl
  | truth b =>
    cases t with
    | text c => cases eq_of_same_text (same_symm h)
    | _ => rfl
  | nothing =>
    cases t with
    | text b => cases eq_of_same_text (same_symm h)
    | _ => rfl

end Scalar

/-! ## Entries -/

namespace Table

variable {κ α : Type} [DecidableEq κ]

/-- What is recorded last counts. -/
theorem insert_insert (t : Table κ α) (k : κ) (a a' : α) :
    (t.insert k a).insert k a' = t.insert k a' := by
  have hentries : ∀ entries : List (κ × α),
      insertEntry k a' (insertEntry k a entries) = insertEntry k a' entries := by
    intro entries
    induction entries with
    | nil => simp [insertEntry]
    | cons e rest ih =>
      obtain ⟨k', b⟩ := e
      by_cases hk : k' = k
      · simp [insertEntry, hk]
      · simp [insertEntry, hk, ih]
  unfold insert
  simp only [hentries]

/-- An entry after recording a value is the recorded one or was there. -/
theorem mem_toList_insert {t : Table κ α} {k : κ} {a : α} {e : κ × α}
    (h : e ∈ (t.insert k a).toList) : e = (k, a) ∨ e ∈ t.toList := by
  have hget : (t.insert k a).get? e.1 = some e.2 := (get?_eq_some_iff _).2 h
  rw [get?_insert] at hget
  split at hget
  · next hk => exact .inl (Prod.ext hk (Option.some.inj hget).symm)
  · exact .inr ((get?_eq_some_iff _).1 hget)

end Table

/-! ## Look-ups -/

namespace Domains

variable {d : Domains} {name name' : Scalar} {symbols : List String}

theorem same_recordedName (d : Domains) (name : Scalar) :
    name.same (d.recordedName name) = true := by
  unfold recordedName
  cases h : d.keys.find? name.same with
  | none => exact Scalar.same_refl name
  | some k => exact List.find?_some h

/-- The domain is the first one whose name counts as the given one. -/
theorem symbols?_eq_find? (d : Domains) (name : Scalar) :
    d.symbols? name = (d.toList.find? fun e => name.same e.1).map Prod.snd := by
  have hkeys : d.keys.find? name.same = (d.toList.find? fun e => name.same e.1).map Prod.fst :=
    List.find?_map
  unfold symbols? recordedName
  rw [hkeys]
  cases h : d.toList.find? fun e => name.same e.1 with
  | some e => exact (Table.get?_eq_some_iff d).2 (List.mem_of_find?_eq_some h)
  | none =>
    refine (Table.get?_eq_none_iff d).2 fun hmem => ?_
    obtain ⟨e, he, rfl⟩ := List.mem_map.1 hmem
    exact List.find?_eq_none.1 h e he (Scalar.same_refl e.1)

theorem symbols?_congr (h : name.same name' = true) : d.symbols? name = d.symbols? name' := by
  rw [symbols?_eq_find?, symbols?_eq_find?]
  simp only [Scalar.same_congr h]

theorem symbols_congr (h : name.same name' = true) : d.symbols name = d.symbols name' := by
  rw [symbols, symbols, symbols?_congr h]

/-- The symbols of a known domain stand in an entry whose name counts as the given one. -/
theorem exists_entry_of_symbols? (h : d.symbols? name = some symbols) :
    ∃ e ∈ d.toList, name.same e.1 = true ∧ e.2 = symbols := by
  rw [symbols?_eq_find?] at h
  obtain ⟨e, he, rfl⟩ := Option.map_eq_some_iff.1 h
  exact ⟨e, List.mem_of_find?_eq_some he, by simpa using List.find?_some he, rfl⟩

/-- **Recording a domain is seen under the names that count as the same, and under no others.** -/
theorem symbols?_record (d : Domains) (name name' : Scalar) (symbols : List String) :
    (d.record name symbols).symbols? name' =
      if name.same name' = true then some symbols else d.symbols? name' := by
  -- the entry that is replaced is the first one that either look-up finds
  have hentries : ∀ entries : List (Scalar × List String),
      ((insertEntry (((entries.map Prod.fst).find? name.same).getD name) symbols entries).find?
          fun e => name'.same e.1).map Prod.snd =
        if name.same name' = true then some symbols
        else (entries.find? fun e => name'.same e.1).map Prod.snd := by
    intro entries
    induction entries with
    | nil =>
      by_cases h : name.same name' = true
      · simp [insertEntry, h, Scalar.same_symm h]
      · have h' : ¬ name'.same name = true := fun h' => h (Scalar.same_symm h')
        simp [insertEntry, h, h']
    | cons e rest ih =>
      obtain ⟨k, list⟩ := e
      by_cases hk : name.same k = true
      · rw [List.map_cons, List.find?_cons_of_pos hk, Option.getD_some, insertEntry, if_pos rfl]
        by_cases h : name.same name' = true
        · rw [if_pos h, List.find?_cons_of_pos (by rw [← Scalar.same_congr h]; exact hk)]
          rfl
        · have hk' : ¬ name'.same k = true := fun hk' =>
            h (by rw [Scalar.same_congr hk]; exact Scalar.same_symm hk')
          rw [if_neg h, List.find?_cons_of_neg (by simpa using hk'),
            List.find?_cons_of_neg (by simpa using hk')]
      · rw [List.map_cons, List.find?_cons_of_neg hk]
        have hne : k ≠ ((rest.map Prod.fst).find? name.same).getD name := by
          rintro rfl
          cases hrest : (rest.map Prod.fst).find? name.same with
          | none =>
            rw [hrest] at hk
            exact hk (Scalar.same_refl name)
          | some k =>
            rw [hrest] at hk
            exact hk (List.find?_some hrest)
        rw [insertEntry, if_neg hne]
        by_cases hk' : name'.same k = true
        · have h : ¬ name.same name' = true := fun h => hk (by rw [Scalar.same_congr h]; exact hk')
          rw [if_neg h, List.find?_cons_of_pos (by simpa using hk'),
            List.find?_cons_of_pos (by simpa using hk')]
        · rw [List.find?_cons_of_neg (by simpa using hk'),
            List.find?_cons_of_neg (by simpa using hk'), ih]
  rw [symbols?_eq_find?, symbols?_eq_find?]
  exact hentries d.toList

theorem symbols_record (d : Domains) (name name' : Scalar) (symbols : List String) :
    (d.record name symbols).symbols name' =
      if name.same name' = true then symbols else d.symbols name' := by
  rw [Domains.symbols, symbols?_record]
  split <;> rfl

/-- A domain that has just been recorded goes by the same name as before. -/
theorem recordedName_record (d : Domains) (name : Scalar) (symbols : List String) :
    (d.record name symbols).recordedName name = d.recordedName name := by
  by_cases hmem : d.recordedName name ∈ d.keys
  · have hkeys : (d.record name symbols).keys = d.keys := Table.keys_insert_of_mem hmem symbols
    rw [recordedName, hkeys, recordedName]
  · -- a name that is not recorded is the given one
    have hnone : d.keys.find? name.same = none := by
      cases h : d.keys.find? name.same with
      | none => rfl
      | some k =>
        refine absurd (List.mem_of_find?_eq_some h) ?_
        rwa [recordedName, h] at hmem
    have hkeys : (d.record name symbols).keys = d.keys ++ [d.recordedName name] :=
      Table.keys_insert_of_notMem hmem symbols
    have hname : d.recordedName name = name := by
      rw [recordedName, hnone]
      rfl
    rw [recordedName, hkeys, hname, List.find?_append, hnone]
    simp [Scalar.same_refl]

theorem record_record (d : Domains) (name : Scalar) (symbols symbols' : List String) :
    (d.record name symbols).record name symbols' = d.record name symbols' := by
  have hname := recordedName_record d name symbols
  unfold record at hname ⊢
  rw [hname, Table.insert_insert]

/-! ## Freezing -/

theorem keys_frozen (d : Domains) : d.frozen.keys = d.keys := by
  simp [frozen, Table.keys, Table.mapWithKey, List.map_map, Function.comp_def]

theorem symbols?_frozen (d : Domains) (name : Scalar) :
    d.frozen.symbols? name =
      (d.symbols? name).map fun symbols => dropRepeats (sortSymbols symbols) := by
  rw [symbols?, recordedName, keys_frozen, frozen, Table.get?_mapWithKey]
  rfl

theorem symbols_frozen (d : Domains) (name : Scalar) :
    d.frozen.symbols name = dropRepeats (sortSymbols (d.symbols name)) := by
  rw [symbols, symbols?_frozen, symbols]
  cases d.symbols? name with
  | none => simp [sortSymbols, dropRepeats]
  | some list => rfl

theorem dropRepeats_eq_self {list : List String} (h : list.Pairwise (· < ·)) :
    dropRepeats list = list := by
  induction list with
  | nil => rfl
  | cons s rest ih =>
    obtain ⟨hs, hrest⟩ := List.pairwise_cons.1 h
    rw [dropRepeats, ih hrest]
    cases rest with
    | nil => rfl
    | cons t rest =>
      have hne : s ≠ t := by
        rintro rfl
        exact String.lt_irrefl s (hs s List.mem_cons_self)
      simp [hne]

/-- Of distinct symbols none is dropped. -/
theorem dropRepeats_sortSymbols {list : List String} (h : list.Nodup) :
    dropRepeats (sortSymbols list) = sortSymbols list :=
  dropRepeats_eq_self (sortSymbols_ascending h)

end Domains

end MarkovLogic
