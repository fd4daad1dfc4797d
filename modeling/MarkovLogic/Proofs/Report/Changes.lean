import MarkovLogic.Proofs.Distinct
import MarkovLogic.Proofs.Network.History
import MarkovLogic.Proofs.NumberValue
import MarkovLogic.Report.Changes

/-!
# What the report of changes lists

Weights are compared in value, so the constraints that the report lists are those whose weight
stands for something else than the recorded one (`Network.mem_changes_iff` with
`Number.eqValue_iff`), in the order of their numbers (`Network.ascending_changes`). The report has a
line for each of them, and the message that nothing has changed if there is none
(`changes_eq_unchanged_iff`). A constraint of which no weight was recorded cannot be listed, so
there is no report then. A weight that is no number is the exception: it equals nothing, so it is
listed even if it was no number before (`changes_undefined`).
-/

namespace MarkovLogic

variable {net : Network Number} {recorded : Int → Option Number} {space : Option AtomSpace}

/-! ## Changes -/

namespace Network

/-- What is noted of a constraint, if its weight has changed. -/
def changeOf? (recorded : Int → Option Number) (c : Constraint Number) :
    Option (Option Number × Constraint Number) :=
  match recorded c.id with
  | none => some (none, c)
  | some old => if old == c.weight then none else some (some old, c)

theorem changes_eq (net : Network Number) (recorded : Int → Option Number) :
    net.changes recorded = net.orderedConstraints.filterMap (changeOf? recorded) :=
  rfl

theorem changeOf?_eq_some_iff {c : Constraint Number}
    {change : Option Number × Constraint Number} :
    changeOf? recorded c = some change ↔
      change.2 = c ∧ recorded c.id = change.1 ∧
        ∀ old, change.1 = some old → (old == c.weight) = false := by
  obtain ⟨old?, d⟩ := change
  rw [changeOf?]
  cases recorded c.id with
  | none =>
    simp only [Option.some.injEq, Prod.mk.injEq]
    constructor
    · rintro ⟨rfl, rfl⟩
      exact ⟨rfl, rfl, nofun⟩
    · rintro ⟨rfl, rfl, -⟩
      exact ⟨rfl, rfl⟩
  | some old =>
    by_cases hequal : (old == c.weight) = true
    · refine iff_of_false (by simp [hequal]) ?_
      rintro ⟨-, h, hne⟩
      rw [hne old h.symm] at hequal
      cases hequal
    · simp only [if_neg hequal, Option.some.injEq, Prod.mk.injEq]
      constructor
      · rintro ⟨rfl, rfl⟩
        refine ⟨rfl, rfl, fun n hn => ?_⟩
        rw [← Option.some.inj hn]
        exact Bool.eq_false_iff.2 hequal
      · rintro ⟨rfl, rfl, -⟩
        exact ⟨rfl, rfl⟩

theorem mem_orderedConstraints {c : Constraint Number} :
    c ∈ net.orderedConstraints ↔ c ∈ net.constraints :=
  (List.mergeSort_perm _ _).mem_iff

/-- A constraint is listed unless its weight equals the recorded one. -/
theorem mem_changes_iff {old : Option Number} {c : Constraint Number} :
    (old, c) ∈ net.changes recorded ↔ c ∈ net.constraints ∧ recorded c.id = old ∧
      ∀ n, old = some n → (n == c.weight) = false := by
  rw [changes_eq, List.mem_filterMap]
  simp only [changeOf?_eq_some_iff, mem_orderedConstraints]
  constructor
  · rintro ⟨d, hd, rfl, h⟩
    exact ⟨hd, h⟩
  · rintro ⟨hc, h⟩
    exact ⟨c, hc, rfl, h⟩

theorem ascending_changes (hids : (net.constraints.map (·.id)).Nodup) :
    ((net.changes recorded).map (·.2.id)).Pairwise (· < ·) := by
  have hordered := ascending_mergeSort (fun c : Constraint Number => c.id) hids
  rw [List.pairwise_map] at hordered ⊢
  rw [changes_eq, List.pairwise_filterMap]
  refine hordered.imp fun {c d} hlt change hchange change' hchange' => ?_
  rwa [(changeOf?_eq_some_iff.1 hchange).1, (changeOf?_eq_some_iff.1 hchange').1]

end Network

/-! ## Lines -/

namespace Report

/-- The lines above the changes. -/
def changesHeading : List String :=
  ["", rule, "Reconstructed weights:", rule]

/-- The line that stands in the place of changes. -/
def unchangedLine : String :=
  "  (no weight changed)"

/-- A weight is recorded, it and the new one have a short text, and the literals have names. -/
structure Writable (space : Option AtomSpace) (old : Option Number) (c : Constraint Number) :
    Prop where
  old_toReal : ∃ n x, old = some n ∧ n.toReal = .ok x
  new_toReal : ∃ x, c.weight.toReal = .ok x
  describe : ∀ l ∈ c.literals, ∃ name, describe space l = .ok name

theorem exists_numberCell_iff {n : Number} :
    (∃ s, numberCell n = .ok s) ↔ ∃ x, n.toReal = .ok x := by
  simp only [numberCell, mapError_eq_ok_iff, Number.shortText]
  cases n.toReal <;> simp [Functor.map, Except.map]

theorem exists_recordedCell_iff {id : Int} {old : Option Number} :
    (∃ s, recordedCell id old = .ok s) ↔ ∃ n x, old = some n ∧ n.toReal = .ok x := by
  cases old with
  | none => simp [recordedCell]
  | some n => simp [recordedCell, exists_numberCell_iff]

theorem exists_changeLine_iff {old : Option Number} {c : Constraint Number} :
    (∃ line, changeLine space (old, c) = .ok line) ↔ Writable space old c := by
  constructor
  · rintro ⟨line, h⟩
    obtain ⟨s, hs, h⟩ := bind_eq_ok_iff.1 h
    obtain ⟨s', hs', h⟩ := bind_eq_ok_iff.1 h
    obtain ⟨t, ht, -⟩ := bind_eq_ok_iff.1 h
    obtain ⟨names, hnames, -⟩ := bind_eq_ok_iff.1 ht
    exact ⟨exists_recordedCell_iff.1 ⟨s, hs⟩, exists_numberCell_iff.1 ⟨s', hs'⟩,
      exists_mapM_iff.1 ⟨names, hnames⟩⟩
  · rintro ⟨hold, hnew, hdescribe⟩
    obtain ⟨s, hs⟩ := exists_recordedCell_iff.2 hold
    obtain ⟨s', hs'⟩ := exists_numberCell_iff.2 hnew
    obtain ⟨names, hnames⟩ := exists_mapM_iff.2 hdescribe
    obtain ⟨w, hw⟩ : ∃ w, weightCell c = .ok w := by
      cases hhard : c.isHard with
      | true => exact ⟨"hard", by rw [weightCell, Constraint.weightText, hhard]; rfl⟩
      | false => exact ⟨s', by rw [weightCell, Constraint.weightText, hhard]; exact hs'⟩
    exact ⟨_, bind_eq_ok_iff.2 ⟨s, hs, bind_eq_ok_iff.2 ⟨s', hs', bind_eq_ok_iff.2
      ⟨_, bind_eq_ok_iff.2 ⟨names, hnames, bind_eq_ok_iff.2 ⟨w, hw, rfl⟩⟩, rfl⟩⟩⟩⟩

theorem mem_toList_changeLine {change : Option Number × Constraint Number} {line : String}
    (h : changeLine space change = .ok line) : '>' ∈ line.toList := by
  obtain ⟨old, -, h⟩ := bind_eq_ok_iff.1 h
  obtain ⟨new, -, h⟩ := bind_eq_ok_iff.1 h
  obtain ⟨body, -, h⟩ := bind_eq_ok_iff.1 h
  obtain rfl := Except.ok.inj h
  have harrow : '>' ∈ (toString " -> ").toList := by decide
  simp [harrow]

theorem toList_textOf (lines : List String) :
    (textOf lines).toList = lines.flatMap fun line => line.toList ++ ['\n'] := by
  rw [textOf, String.toList_join, List.flatMap_map]
  simp only [String.toList_append]
  rfl

theorem mem_toList_textOf {lines : List String} {c : Char} (hc : c ≠ '\n') :
    c ∈ (textOf lines).toList ↔ ∃ line ∈ lines, c ∈ line.toList := by
  rw [toList_textOf]
  simp [hc]

theorem arrow_notMem_rule : '>' ∉ rule.toList := by
  have hrule : rule.toList = List.replicate 60 '=' := String.toList_ofList
  rw [hrule, List.mem_replicate]
  decide

/-- Only the lines of changes have an arrow in them. -/
theorem arrow_notMem_unchanged :
    '>' ∉ (textOf (changesHeading ++ [unchangedLine])).toList := by
  have hlines : ∀ line ∈ changesHeading ++ [unchangedLine], '>' ∉ line.toList := by
    simp only [changesHeading, List.cons_append, List.nil_append, List.forall_mem_cons,
      List.not_mem_nil, false_implies, implies_true, and_true]
    exact ⟨by decide, arrow_notMem_rule, by decide, arrow_notMem_rule, by decide⟩
  intro h
  obtain ⟨line, hline, harrow⟩ := (mem_toList_textOf (by decide)).1 h
  exact hlines line hline harrow

/-! ## The report -/

theorem changes_eq_ok_iff {text : String} : changes space net recorded = .ok text ↔
    ∃ lines, List.Forall₂ (fun change line => changeLine space change = .ok line)
      (net.changes recorded) lines ∧
      text = textOf (changesHeading ++ if lines = [] then [unchangedLine] else lines) := by
  rw [changes, bind_eq_ok_iff]
  simp only [mapM_eq_ok_iff]
  refine exists_congr fun lines => and_congr_right fun _ => ?_
  cases lines with
  | nil => exact ⟨fun h => (Except.ok.inj h).symm, fun h => congrArg _ h.symm⟩
  | cons line rest => exact ⟨fun h => (Except.ok.inj h).symm, fun h => congrArg _ h.symm⟩

/-- The report says that no weight has changed exactly if no line is due. -/
theorem changes_eq_unchanged_iff :
    changes space net recorded = .ok (textOf (changesHeading ++ [unchangedLine])) ↔
      net.changes recorded = [] := by
  rw [changes_eq_ok_iff]
  constructor
  · rintro ⟨lines, hlines, htext⟩
    generalize net.changes recorded = listed at hlines
    cases hlines with
    | nil => rfl
    | @cons _ line _ rest hline _ =>
      have harrow : '>' ∈ (textOf (changesHeading ++ line :: rest)).toList :=
        (mem_toList_textOf (by decide)).2 ⟨line, List.mem_append_right _ List.mem_cons_self,
          mem_toList_changeLine hline⟩
      exact absurd harrow (htext ▸ arrow_notMem_unchanged)
  · intro h
    rw [h]
    exact ⟨[], .nil, rfl⟩

/-- The report lists exactly the changes. -/
structure ListsChanges (space : Option AtomSpace) (net : Network Number)
    (recorded : Int → Option Number) : Prop where
  /-- No constraint is listed twice, and those with smaller numbers come first. -/
  ascending : ((net.changes recorded).map (·.2.id)).Pairwise (· < ·)
  /-- A constraint is listed unless its weight stands for the same as the recorded one. -/
  mem_iff : ∀ old c, (old, c) ∈ net.changes recorded ↔ c ∈ net.constraints ∧
    recorded c.id = old ∧ ∀ n, old = some n → n.value ≠ c.weight.value
  /-- Each of them takes one line. -/
  eq_ok_iff : ∀ text, changes space net recorded = .ok text ↔
    ∃ lines, List.Forall₂ (fun change line => changeLine space change = .ok line)
      (net.changes recorded) lines ∧
      text = textOf (changesHeading ++ if lines = [] then [unchangedLine] else lines)
  /-- There is a report if there are all its lines, -/
  returns_iff : (∃ text, changes space net recorded = .ok text) ↔
    ∀ change ∈ net.changes recorded, Writable space change.1 change.2
  /-- as there are where weights are floating-point values and literals have names. -/
  returns : (∀ c ∈ net.constraints, (∃ x, recorded c.id = some (.real x)) ∧
    (∃ x, c.weight = .real x) ∧ ∀ l ∈ c.literals, ∃ name, describe space l = .ok name) →
    ∃ text, changes space net recorded = .ok text
  /-- There is no report where a constraint has no recorded weight. -/
  unrecorded : ∀ c ∈ net.constraints, recorded c.id = none →
    ∃ e, changes space net recorded = .error e
  /-- The report says that no weight has changed if each stands for the same as the recorded one. -/
  unchanged_iff : changes space net recorded =
      .ok (textOf (changesHeading ++ [unchangedLine])) ↔
    ∀ c ∈ net.constraints, ∃ old, recorded c.id = some old ∧ old.value = c.weight.value

/-- **The report lists exactly the constraints whose weights have changed**, unless a weight is no
number both times. -/
theorem listsChanges_of_made (hmade : net.Made)
    (hdefined : ∀ c ∈ net.constraints, ∀ old, recorded c.id = some old →
      ¬ (old.value = .undefined ∧ c.weight.value = .undefined)) :
    ListsChanges space net recorded := by
  have hmem : ∀ old c, (old, c) ∈ net.changes recorded ↔ c ∈ net.constraints ∧
      recorded c.id = old ∧ ∀ n, old = some n → n.value ≠ c.weight.value := by
    intro old c
    rw [Network.mem_changes_iff]
    refine and_congr_right fun hc => and_congr_right fun hold => forall₂_congr fun n hn => ?_
    have hequal : (n == c.weight) = true ↔ n.value = c.weight.value ∧ n.value ≠ .undefined :=
      Number.eqValue_iff
    rw [← Bool.not_eq_true, hequal, not_and_or, not_not]
    refine or_iff_left_of_imp fun hundefined hvalue => ?_
    exact hdefined c hc n (hold.trans hn) ⟨hundefined, hvalue ▸ hundefined⟩
  have hreturns : (∃ text, changes space net recorded = .ok text) ↔
      ∀ change ∈ net.changes recorded, Writable space change.1 change.2 := by
    simp only [← exists_changeLine_iff, ← exists_mapM_iff, changes_eq_ok_iff, mapM_eq_ok_iff]
    exact ⟨fun ⟨_, lines, h, _⟩ => ⟨lines, h⟩, fun ⟨lines, h⟩ => ⟨_, lines, h, rfl⟩⟩
  constructor
  case ascending => exact Network.ascending_changes hmade.nodup_ids
  case mem_iff => exact hmem
  case eq_ok_iff => exact fun text => changes_eq_ok_iff
  case returns_iff => exact hreturns
  case returns =>
    intro hreal
    refine hreturns.2 fun ⟨old, c⟩ hchange => ?_
    obtain ⟨hc, rfl, -⟩ := (hmem old c).1 hchange
    obtain ⟨⟨x, hx⟩, ⟨y, hy⟩, hdescribe⟩ := hreal c hc
    exact ⟨⟨.real x, x, hx, rfl⟩, ⟨y, by rw [hy]; rfl⟩, hdescribe⟩
  case unrecorded =>
    intro c hc hnone
    cases h : changes space net recorded with
    | error e => exact ⟨e, rfl⟩
    | ok text =>
      have hlisted : (none, c) ∈ net.changes recorded := (hmem none c).2 ⟨hc, hnone, nofun⟩
      obtain ⟨n, x, hn, -⟩ := (hreturns.1 ⟨text, h⟩ (none, c) hlisted).old_toReal
      cases hn
  case unchanged_iff =>
    rw [changes_eq_unchanged_iff, List.eq_nil_iff_forall_not_mem]
    constructor
    · intro h c hc
      by_contra hne
      refine h (recorded c.id, c) ((hmem _ c).2 ⟨hc, rfl, fun n hn hvalue => ?_⟩)
      exact hne ⟨n, hn, hvalue⟩
    · rintro h ⟨old, c⟩ hlisted
      obtain ⟨hc, hold, hne⟩ := (hmem old c).1 hlisted
      obtain ⟨n, hn, hvalue⟩ := h c hc
      exact hne n (hold.symm.trans hn) hvalue

/-! ## Weights that settle -/

/-- A network with an infinite weight, a zero and a weight that is no number. -/
def settlingNetwork : Network Number where
  constraints := [⟨7, [1, -2], .undefined, false⟩, ⟨3, [1], .real (1.0 / 0.0), false⟩,
    ⟨0, [-1], .real (-0.0), false⟩, ⟨5, [2], .real 1.0, false⟩]
  atoms := [⟨1, false⟩, ⟨2, false⟩]
  weightHard := .real 10.0
  queryFirst := 1
  queryLast := 2
  dependencies := none
  positive := Table.ofList [(1, [7, 3]), (2, [5])]
  negative := Table.ofList [(2, [7]), (1, [0])]
  maxWidth := 2

/-- The weights of its constraints before. -/
def settlingWeights : Table Int Number :=
  .ofList [(0, .real 0.0), (3, .real (-1.0 / 0.0)), (5, .int 1), (7, .int 2)]

theorem made_settlingNetwork : settlingNetwork.Made := by
  have hassemble : Network.assemble settlingNetwork.constraints settlingNetwork.atoms
      (.real 10.0) 1 2 none = .ok settlingNetwork := rfl
  exact .assembled hassemble

theorem changes_settlingNetwork : settlingNetwork.changes settlingWeights.get? =
    [(some (.real (-1.0 / 0.0)), ⟨3, [1], .real (1.0 / 0.0), false⟩),
      (some (.int 2), ⟨7, [1, -2], .undefined, false⟩)] := by
  have hordered : settlingNetwork.orderedConstraints = [⟨0, [-1], .real (-0.0), false⟩,
      ⟨3, [1], .real (1.0 / 0.0), false⟩, ⟨5, [2], .real 1.0, false⟩,
      ⟨7, [1, -2], .undefined, false⟩] := by
    simp [Network.orderedConstraints, settlingNetwork, List.mergeSort,
      List.MergeSort.Internal.splitInTwo]
  rw [Network.changes_eq, hordered]
  rfl

/-- The zeros are the same and so are the ones; the infinities differ, and two is a number. -/
theorem listsChanges_settlingNetwork :
    settlingNetwork.Made ∧
      (∀ c ∈ settlingNetwork.constraints, ∃ old, settlingWeights.get? c.id = some old) ∧
      (∀ c ∈ settlingNetwork.constraints, ∀ old, settlingWeights.get? c.id = some old →
        ¬ (old.value = .undefined ∧ c.weight.value = .undefined)) ∧
      ListsChanges none settlingNetwork settlingWeights.get? ∧
      changes none settlingNetwork settlingWeights.get? =
        .ok (textOf (changesHeading ++ ["  -inf -> inf  [3]      inf  1",
          "  2 -> nan  [7]      nan  1 v -2"])) := by
  have hrecorded : ∀ c ∈ settlingNetwork.constraints,
      ∃ old, settlingWeights.get? c.id = some old := by
    simp only [settlingNetwork, List.forall_mem_cons, List.not_mem_nil, false_implies,
      implies_true, and_true]
    exact ⟨⟨_, rfl⟩, ⟨_, rfl⟩, ⟨_, rfl⟩, ⟨_, rfl⟩⟩
  have hdefined : ∀ c ∈ settlingNetwork.constraints, ∀ old, settlingWeights.get? c.id = some old →
      ¬ (old.value = .undefined ∧ c.weight.value = .undefined) := by
    have hinfinite : Number.realValue (1.0 / 0.0) ≠ .undefined :=
      mt Number.realValue_eq_undefined_iff.1 (by decide)
    have hzero : Number.realValue 0.0 ≠ .undefined :=
      mt Number.realValue_eq_undefined_iff.1 (by decide)
    simp only [settlingNetwork, List.forall_mem_cons, List.not_mem_nil, false_implies,
      implies_true, and_true]
    refine ⟨?_, fun _ _ h => hinfinite h.2, ?_, ?_⟩
    · rintro old ⟨rfl⟩ ⟨h, -⟩
      cases h
    · rintro old ⟨rfl⟩ ⟨h, -⟩
      exact hzero h
    · rintro old ⟨rfl⟩ ⟨h, -⟩
      cases h
  refine ⟨made_settlingNetwork, hrecorded, hdefined,
    listsChanges_of_made made_settlingNetwork hdefined, ?_⟩
  rw [changes, changes_settlingNetwork]
  rfl

/-! ## A weight that is no number -/

/-- A network whose only weight is no number. -/
def stillNetwork : Network Number where
  constraints := [⟨0, [1], .undefined, false⟩]
  atoms := [⟨1, false⟩]
  weightHard := .real 10.0
  queryFirst := 1
  queryLast := 1
  dependencies := none
  positive := Table.ofList [(1, [0])]
  negative := Table.empty
  maxWidth := 1

theorem made_stillNetwork : stillNetwork.Made := by
  have hassemble : Network.assemble stillNetwork.constraints stillNetwork.atoms
      (.real 10.0) 1 1 none = .ok stillNetwork := rfl
  exact .assembled hassemble

/-- The only weight is what it was, and still it is listed. -/
theorem changes_undefined :
    stillNetwork.Made ∧
      (∀ c ∈ stillNetwork.constraints,
        ∃ old, (Table.ofList stillNetwork.weights).get? c.id = some old ∧
          old.value = c.weight.value) ∧
      changes none stillNetwork (Table.ofList stillNetwork.weights).get? =
        .ok (textOf (changesHeading ++ ["  nan -> nan  [0]      nan  1"])) ∧
      changes none stillNetwork (Table.ofList stillNetwork.weights).get? ≠
        .ok (textOf (changesHeading ++ [unchangedLine])) := by
  have hordered : stillNetwork.orderedConstraints = [⟨0, [1], .undefined, false⟩] := by
    simp [Network.orderedConstraints, stillNetwork]
  have hweights : stillNetwork.weights = [(0, .undefined)] := by
    rw [Network.weights, hordered]
    rfl
  have hchanges : stillNetwork.changes (Table.ofList stillNetwork.weights).get? =
      [(some .undefined, ⟨0, [1], .undefined, false⟩)] := by
    rw [Network.changes_eq, hordered, hweights]
    rfl
  refine ⟨made_stillNetwork, ?_, ?_, ?_⟩
  · rw [hweights]
    simp only [stillNetwork, List.forall_mem_cons, List.not_mem_nil, false_implies,
      implies_true, and_true]
    exact ⟨.undefined, rfl, rfl⟩
  · rw [changes, hchanges]
    rfl
  · rw [ne_eq, changes_eq_unchanged_iff, hchanges]
    exact List.cons_ne_nil _ _

end Report

end MarkovLogic
