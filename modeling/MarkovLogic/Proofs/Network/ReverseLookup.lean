import MarkovLogic.Proofs.Network.Dependencies

/-!
# Looking up the constraints of a formula

The inverted table has for each formula the constraints whose entries have it, in recording order
(`constraintsOf_natCast`). Frequencies are not zero, so these are the constraints in which the
formula has a frequency (`mem_constraintsOf_iff`).

The inverted table is built when a query first needs it and used from then on. A query is answered
the same whether it was built before or not (`Indexed.Holds.ask`), and so after any other queries
(`Indexed.ask_after`). `ofEntries_reverseLookup` puts this together with the checks of outside data.
-/

namespace MarkovLogic

namespace DependencyMap

/-! ## The inverted table -/

/-- The table with a constraint noted behind those of the formula. -/
def note (constraint : Int) (table : Table Nat (List Int)) (f : Nat) : Table Nat (List Int) :=
  table.insert f (((table.get? f).getD []) ++ [constraint])

theorem getD_foldl_note (constraint : Int) (f : Nat) {formulas : List Nat}
    (h : formulas.Nodup) : ∀ table : Table Nat (List Int),
      ((formulas.foldl (note constraint) table).get? f).getD [] =
        (table.get? f).getD [] ++ if f ∈ formulas then [constraint] else [] := by
  induction formulas with
  | nil => intro table; simp
  | cons f' rest ih =>
    obtain ⟨hnew, hrest⟩ := List.nodup_cons.1 h
    intro table
    rw [List.foldl_cons, ih hrest, note, Table.get?_insert]
    by_cases hf : f = f'
    · subst hf
      simp [hnew]
    · simp [hf]

/-- Entry after entry, the constraints whose entries have the formula are noted. -/
theorem getD_foldl_foldl_note (f : Nat) (entries : List (Int × Table Nat Int)) :
    ∀ table : Table Nat (List Int),
      ((entries.foldl (fun table e => e.2.keys.foldl (note e.1) table) table).get? f).getD [] =
        (table.get? f).getD [] ++ (entries.filter fun e => f ∈ e.2.keys).map Prod.fst := by
  induction entries with
  | nil => intro table; simp
  | cons e rest ih =>
    have hnodup : e.2.keys.Nodup := e.2.nodup
    intro table
    rw [List.foldl_cons, ih, getD_foldl_note e.1 f hnodup, List.append_assoc]
    by_cases hf : f ∈ e.2.keys
    · rw [if_pos hf, List.filter_cons_of_pos (by simpa using hf)]
      rfl
    · rw [if_neg hf, List.filter_cons_of_neg (by simpa using hf), List.nil_append]

variable (deps : DependencyMap)

/-- **A formula has the constraints whose entries have it, in recording order.** -/
theorem constraintsOf_natCast (f : Nat) : deps.constraintsOf f =
    (deps.entries.toList.filter fun e => f ∈ e.2.keys).map Prod.fst :=
  getD_foldl_foldl_note f deps.entries.toList Table.empty

theorem constraintsOf_sublist (formula : Int) :
    (deps.constraintsOf formula).Sublist deps.entries.keys := by
  cases formula with
  | ofNat f =>
    have hcast := deps.constraintsOf_natCast f
    exact hcast ▸ List.filter_sublist.map Prod.fst
  | negSucc _ => exact List.nil_sublist _

theorem mem_constraintsOf_natCast {constraint : Int} {f : Nat} :
    constraint ∈ deps.constraintsOf f ↔
      ∃ e ∈ deps.entries.toList, e.1 = constraint ∧ f ∈ e.2.keys := by
  rw [constraintsOf_natCast, List.mem_map]
  simp only [List.mem_filter, decide_eq_true_iff, and_assoc]
  exact exists_congr fun e => and_congr_right fun _ => and_comm

/-- **The formulas that occur are those that have a constraint.** -/
theorem constraintsOf_ne_nil_iff {formula : Int} :
    deps.constraintsOf formula ≠ [] ↔ ∃ i ∈ deps.formulaIndices, (i : Int) = formula := by
  cases formula with
  | ofNat f =>
    constructor
    · intro hne
      obtain ⟨constraint, hconstraint⟩ := List.exists_mem_of_ne_nil _ hne
      obtain ⟨e, he, -, hf⟩ := (mem_constraintsOf_natCast deps).1 hconstraint
      exact ⟨f, mem_formulaIndices.2 ⟨e, he, hf⟩, rfl⟩
    · rintro ⟨i, hi, hformula⟩
      obtain rfl := Int.ofNat.inj hformula
      obtain ⟨e, he, hf⟩ := mem_formulaIndices.1 hi
      exact List.ne_nil_of_mem ((mem_constraintsOf_natCast deps).2 ⟨e, he, rfl, hf⟩)
  | negSucc f =>
    refine ⟨fun h => (h rfl).elim, ?_⟩
    rintro ⟨i, -, h⟩
    cases h

variable {deps}

theorem frequency_natCast_ne_zero_iff (h : deps.NonZero) {constraint : Int} {f : Nat} :
    deps.frequency constraint f ≠ 0 ↔
      ∃ e ∈ deps.entries.toList, e.1 = constraint ∧ f ∈ e.2.keys := by
  change (((deps.entries.get? constraint).bind (·.get? f)).getD 0) ≠ 0 ↔ _
  constructor
  · intro hne
    cases hentry : deps.entries.get? constraint with
    | none => simp [hentry] at hne
    | some frequencies =>
      cases hfrequency : frequencies.get? f with
      | none => simp [hentry, hfrequency] at hne
      | some n =>
        exact ⟨(constraint, frequencies), (Table.get?_eq_some_iff _).1 hentry, rfl,
          (Table.mem_keys_iff _).2 ⟨n, hfrequency⟩⟩
  · rintro ⟨⟨_, frequencies⟩, he, rfl, hf⟩
    obtain ⟨n, hn⟩ := (Table.mem_keys_iff _).1 hf
    rw [(Table.get?_eq_some_iff _).2 he, Option.bind_some, hn, Option.getD_some]
    exact h _ he (f, n) ((Table.get?_eq_some_iff _).1 hn)

/-- **A formula has the constraints in which its frequency is not zero.** -/
theorem mem_constraintsOf_iff (h : deps.NonZero) {constraint formula : Int} :
    constraint ∈ deps.constraintsOf formula ↔ deps.frequency constraint formula ≠ 0 := by
  cases formula with
  | ofNat f => exact (mem_constraintsOf_natCast deps).trans (frequency_natCast_ne_zero_iff h).symm
  | negSucc _ => exact ⟨nofun, fun h => (h rfl).elim⟩

/-! ## The table built on first use -/

/-- What a dependency map is asked for, with the type of the answer. -/
inductive Query : Type → Type 1 where
  | frequency (constraint formula : Int) : Query Int
  | formulaIndices : Query (List Nat)
  | constraintsOf (formula : Int) : Query (List Int)
  | entry (constraint : Int) : Query (Option (Table Nat Int))
  | contains (constraint : Int) : Query Bool
  | constraints : Query (List Int)
  | size : Query Nat
  | text : Query String

variable {α : Type}

/-- The answer from the dependencies. -/
def answer (deps : DependencyMap) : Query α → α
  | .frequency constraint formula => deps.frequency constraint formula
  | .formulaIndices => deps.formulaIndices
  | .constraintsOf formula => deps.constraintsOf formula
  | .entry constraint => deps.entry? constraint
  | .contains constraint => deps.contains constraint
  | .constraints => deps.entries.keys
  | .size => deps.size
  | .text => deps.text

/-- Dependencies with their inverted table, if some query has needed it. -/
structure Indexed where
  deps : DependencyMap
  byFormula : Option (Table Nat (List Int))

namespace Indexed

/-- Before the first query. -/
def new (deps : DependencyMap) : Indexed :=
  ⟨deps, none⟩

/-- The constraints of a formula in the inverted table. -/
def lookUp (table : Table Nat (List Int)) : Int → List Int
  | .ofNat f => (table.get? f).getD []
  | .negSucc _ => []

/-- Answers a query. The constraints of a formula come from the inverted table, which is built if
there is none. -/
def ask (s : Indexed) : Query α → Indexed × α
  | .constraintsOf formula =>
    match s.byFormula with
    | some table => (s, lookUp table formula)
    | none => ({ s with byFormula := some s.deps.inverse }, lookUp s.deps.inverse formula)
  | query => (s, s.deps.answer query)

/-- The state after queries. -/
def after (s : Indexed) : List (Σ α, Query α) → Indexed
  | [] => s
  | query :: rest => after (s.ask query.2).1 rest

/-- The state is about the dependencies, and a table that was built is their inverted table. -/
structure Holds (s : Indexed) (deps : DependencyMap) : Prop where
  deps_eq : s.deps = deps
  byFormula : ∀ table, s.byFormula = some table → table = deps.inverse

theorem holds_new (deps : DependencyMap) : (new deps).Holds deps :=
  ⟨rfl, nofun⟩

theorem constraintsOf_eq_lookUp (deps : DependencyMap) (formula : Int) :
    deps.constraintsOf formula = lookUp deps.inverse formula := by
  cases formula <;> rfl

/-- **A query is answered from the dependencies, and the state goes on to be about them.** -/
theorem Holds.ask {s : Indexed} (h : s.Holds deps) (query : Query α) :
    (s.ask query).1.Holds deps ∧ (s.ask query).2 = deps.answer query := by
  obtain ⟨deps, byFormula⟩ := s
  obtain ⟨rfl, htable⟩ := h
  cases query with
  | constraintsOf formula =>
    cases byFormula with
    | none =>
      refine ⟨⟨rfl, fun table ht => (Option.some.inj ht).symm⟩, ?_⟩
      exact (constraintsOf_eq_lookUp deps formula).symm
    | some table =>
      have hbuilt : table = deps.inverse := htable table rfl
      refine ⟨⟨rfl, htable⟩, ?_⟩
      exact hbuilt ▸ (constraintsOf_eq_lookUp deps formula).symm
  | _ => exact ⟨⟨rfl, htable⟩, rfl⟩

theorem Holds.after (earlier : List (Σ α, Query α)) :
    ∀ {s : Indexed}, s.Holds deps → (s.after earlier).Holds deps := by
  induction earlier with
  | nil => exact fun h => h
  | cons query rest ih => exact fun h => ih (h.ask query.2).1

/-- **Earlier queries do not matter.** -/
theorem ask_after (deps : DependencyMap) (earlier : List (Σ α, Query α)) (query : Query α) :
    (((new deps).after earlier).ask query).2 = deps.answer query :=
  (((holds_new deps).after earlier).ask query).2

end Indexed

/-! ## Dependencies from outside -/

/-- The reverse look-up is the inverse of the mapping. -/
structure ReverseLookup (entries : List (Int × List (Option Number × Option Number)))
    (deps : DependencyMap) : Prop where
  /-- The dependencies are those of the mapping. -/
  pairs_eq : deps.pairs = mapping entries
  mem_constraintsOf : ∀ constraint formula : Int,
    constraint ∈ deps.constraintsOf formula ↔ deps.frequency constraint formula ≠ 0
  nodup : ∀ formula : Int, (deps.constraintsOf formula).Nodup
  /-- Constraints come in the order in which the mapping has them. -/
  sublist : ∀ formula : Int,
    (deps.constraintsOf formula).Sublist ((mapping entries).map Prod.fst)
  mem_formulaIndices : ∀ formula : Int,
    (∃ i ∈ deps.formulaIndices, (i : Int) = formula) ↔ deps.constraintsOf formula ≠ []
  /-- Earlier queries do not matter, whether or not they have built the inverted table. -/
  answers : ∀ (earlier : List (Σ α, Query α)) {α : Type} (query : Query α),
    (((Indexed.new deps).after earlier).ask query).2 = deps.answer query

/-- **A mapping is refused exactly if a formula or a frequency in it is faulty, and otherwise the
reverse look-up is its inverse.** -/
theorem ofEntries_reverseLookup (entries : List (Int × List (Option Number × Option Number))) :
    ((∃ error, ofEntries entries = .error error) ↔
      ∃ e ∈ mapping entries, ∃ p ∈ e.2, ¬ IsIndex p.1 ∨ ¬ IsFrequency p.2) ∧
    ∀ deps, ofEntries entries = .ok deps → ReverseLookup entries deps := by
  constructor
  · have hrefused : (∃ error, ofEntries entries = .error error) ↔
        ¬ ∃ deps, ofEntries entries = .ok deps := by
      cases ofEntries entries <;> simp
    rw [hrefused, exists_ofEntries_iff]
    simp only [not_forall, not_and_or, exists_prop]
  · intro deps h
    obtain ⟨hpairs, hne⟩ := ofEntries_eq_ok_iff.1 h
    have hkeys : (mapping entries).map Prod.fst = deps.entries.keys := by
      rw [← hpairs, pairs, List.map_map]
      rfl
    constructor
    case pairs_eq => exact hpairs
    case mem_constraintsOf => exact fun _ _ => mem_constraintsOf_iff hne
    case nodup => exact fun formula => (deps.constraintsOf_sublist formula).nodup deps.entries.nodup
    case sublist => exact fun formula => hkeys ▸ deps.constraintsOf_sublist formula
    case mem_formulaIndices => exact fun _ => deps.constraintsOf_ne_nil_iff.symm
    case answers => exact fun earlier _ query => Indexed.ask_after deps earlier query

/-- Dependencies with an entry for a constraint that is given again, and an empty entry. -/
def givenAgain : List (Int × List (Option Number × Option Number)) :=
  [(3, [(some (.int 0), some (.int 1))]), (5, []),
    (1, [(some (.int 0), some (.int 1)), (some (.int 1), some (.int (-2)))]),
    (3, [(some (.int 1), some (.int 4)), (some (.int 2), some (.int 1))])]

/-- The later entry counts, at the place of the first. -/
theorem reverseLookup_givenAgain :
    ∃ deps, ofEntries givenAgain = .ok deps ∧ ReverseLookup givenAgain deps ∧
      deps.constraintsOf 1 = [3, 1] ∧ deps.constraintsOf 0 = [1] ∧ deps.frequency 3 0 = 0 :=
  ⟨_, rfl, (ofEntries_reverseLookup givenAgain).2 _ rfl, rfl, rfl, rfl⟩

end DependencyMap

end MarkovLogic
