import MarkovLogic.Proofs.Network.Reweighting
import MarkovLogic.Proofs.Network.Assembly
import Mathlib.Data.List.Nodup

/-!
# What assembly accepts and what the occurrence tables list

Assembly accepts exactly the admissible parts (`Network.Admissible`), and then it fills the tables
with the mentions of the constraints in order (`assemble_eq_ok_iff_admissible`). So an atom's
occurrences of one polarity are the constraints with that literal (`mem_positiveOccurrences_iff`,
`mem_negativeOccurrences_iff`).
-/

namespace MarkovLogic

/-! ## Loops whose steps only check their element -/

/-- When a step fails or succeeds by its element alone, the loop succeeds when all elements pass. -/
theorem foldlM_eq_ok_iff_of_guard {ε β σ : Type} {f : σ → β → Except ε σ} {g : σ → β → σ}
    {G : β → Prop} (h : ∀ s b t, f s b = .ok t ↔ G b ∧ t = g s b) :
    ∀ {l : List β} {s t : σ}, l.foldlM f s = .ok t ↔ (∀ b ∈ l, G b) ∧ t = l.foldl g s := by
  intro l
  induction l with
  | nil =>
    intro s t
    rw [foldlM_nil_eq_ok_iff]
    simp [eq_comm]
  | cons b l ih =>
    intro s t
    rw [foldlM_cons_eq_ok_iff]
    constructor
    · rintro ⟨u, hu, ht⟩
      obtain ⟨hb, rfl⟩ := (h s b u).1 hu
      obtain ⟨hl, rfl⟩ := ih.1 ht
      exact ⟨List.forall_mem_cons.2 ⟨hb, hl⟩, rfl⟩
    · rintro ⟨hall, rfl⟩
      obtain ⟨hb, hl⟩ := List.forall_mem_cons.1 hall
      exact ⟨g s b, (h s b _).2 ⟨hb, rfl⟩, ih.2 ⟨hl, rfl⟩⟩

variable {α : Type}

namespace Network

/-! ## Repeated numbers -/

theorem firstRepeat?_go_eq_none_iff {ids : List Int} :
    ∀ seen, firstRepeat?.go seen ids = none ↔ ids.Nodup ∧ ∀ id ∈ ids, id ∉ seen := by
  induction ids with
  | nil => intro seen; simp [firstRepeat?.go]
  | cons id ids ih =>
    intro seen
    by_cases hs : id ∈ seen
    · simp [firstRepeat?.go, hs]
    · have hc : seen.contains id = false := by simpa using hs
      rw [firstRepeat?.go, hc, if_neg (by decide), ih]
      simp only [List.nodup_cons, List.forall_mem_cons, List.mem_append, List.mem_singleton, not_or]
      constructor
      · rintro ⟨hn, hall⟩
        refine ⟨⟨fun hm => (hall id hm).2 rfl, hn⟩, hs, fun i hi => (hall i hi).1⟩
      · rintro ⟨⟨hm, hn⟩, -, hall⟩
        refine ⟨hn, fun i hi => ⟨hall i hi, ?_⟩⟩
        rintro rfl
        exact hm hi

theorem firstRepeat?_eq_none_iff (ids : List Int) : firstRepeat? ids = none ↔ ids.Nodup := by
  rw [firstRepeat?, firstRepeat?_go_eq_none_iff]
  simp

/-! ## Mentions -/

/-- The index with one more mention, given by constraint and literal. -/
def Index.note (index : Index) (mention : Int × Int) : Index :=
  if 0 < mention.2 then
    { index with positive := addOccurrence index.positive mention.2.natAbs mention.1 }
  else { index with negative := addOccurrence index.negative mention.2.natAbs mention.1 }

/-- The index of the mentions in order. -/
def Index.ofMentions (mentions : List (Int × Int)) : Index :=
  mentions.foldl Index.note ⟨Table.empty, Table.empty⟩

/-- The mentions that the literals of a constraint make. -/
def mentions (s : Int × List Int) : List (Int × Int) :=
  s.2.map (s.1, ·)

theorem Index.addLiteral_eq_ok_iff {known : Int → Bool} {c x : Int} {index index' : Index} :
    index.addLiteral known c x = .ok index' ↔
      known x.natAbs = true ∧ index' = index.note (c, x) := by
  unfold addLiteral note
  cases known x.natAbs with
  | false => simp
  | true => by_cases hx : 0 < x <;> simp [hx, eq_comm]

theorem Index.addShape_eq_ok_iff {known : Int → Bool} {s : Int × List Int} {index index' : Index} :
    index.addShape known s = .ok index' ↔
      (s.1 ≠ -1 ∧ s.2 ≠ [] ∧ ∀ x ∈ s.2, known x.natAbs = true) ∧
        index' = (mentions s).foldl Index.note index := by
  unfold addShape mentions
  by_cases hid : s.1 = -1
  · simp [hid]
  by_cases hempty : s.2 = []
  · simp [hid, hempty]
  have hne : s.2.isEmpty = false := by simpa using hempty
  rw [if_neg hid, hne, if_neg (by decide), List.foldl_map,
    foldlM_eq_ok_iff_of_guard (G := fun x => known x.natAbs = true)
      fun _ _ _ => addLiteral_eq_ok_iff]
  simp [hid, hempty]

theorem foldlM_addShape_eq_ok_iff {known : Int → Bool} {shapes : List (Int × List Int)}
    {index : Index} :
    shapes.foldlM (Index.addShape known) ⟨Table.empty, Table.empty⟩ = .ok index ↔
      (∀ s ∈ shapes, s.1 ≠ -1 ∧ s.2 ≠ [] ∧ ∀ x ∈ s.2, known x.natAbs = true) ∧
        index = Index.ofMentions (shapes.flatMap mentions) := by
  rw [foldlM_eq_ok_iff_of_guard fun _ _ _ => Index.addShape_eq_ok_iff, Index.ofMentions,
    List.foldl_flatMap]

/-! ## Admissible parts -/

/-- Parts that make a network: the query range may be empty but not inverted, atoms have distinct
positive numbers, constraints have distinct numbers other than the reserved one, and every
constraint has literals, all about given atoms. -/
structure Admissible (constraints : List (Constraint α)) (atoms : List GroundAtom)
    (first last : Int) : Prop where
  query : first - 1 ≤ last
  atoms_nodup : (atoms.map (·.id)).Nodup
  atoms_pos : ∀ a ∈ atoms, 0 < a.id
  ids_nodup : (constraints.map (·.id)).Nodup
  ids_ne : ∀ c ∈ constraints, c.id ≠ -1
  literals_ne : ∀ c ∈ constraints, c.literals ≠ []
  known : ∀ c ∈ constraints, ∀ x ∈ c.literals, ∃ a ∈ atoms, a.id = x.natAbs

/-- The tables of the constraints of a network. -/
def indexOf (constraints : List (Constraint α)) : Index :=
  Index.ofMentions (constraints.flatMap fun c => mentions c.shape)

section

variable [WeightArith α] {constraints : List (Constraint α)} {atoms : List GroundAtom}
  {weightHard : α} {first last : Int} {deps : Option DependencyMap} {net : Network α}

/-- **Assembly accepts exactly the admissible parts**, provided that the hard weight settles. -/
theorem assemble_eq_ok_iff_admissible :
    assemble constraints atoms weightHard first last deps = .ok net ↔
      Admissible constraints atoms first last ∧ ∃ w, WeightArith.settle weightHard = .ok w ∧
        net = {
          constraints := constraints.map (Constraint.settled w)
          atoms, weightHard := w, queryFirst := first, queryLast := last, dependencies := deps
          positive := (indexOf constraints).positive
          negative := (indexOf constraints).negative
          maxWidth := (constraints.map Constraint.size).foldl max 0 } := by
  have hpos : atoms.any (·.id ≤ 0) = false ↔ ∀ a ∈ atoms, 0 < a.id := by
    simp
  have hshapes : (∀ s ∈ constraints.map Constraint.shape, s.1 ≠ -1 ∧ s.2 ≠ [] ∧
        ∀ x ∈ s.2, atoms.any (·.id = x.natAbs) = true) ↔
      ∀ c ∈ constraints, c.id ≠ -1 ∧ c.literals ≠ [] ∧
        ∀ x ∈ c.literals, ∃ a ∈ atoms, a.id = x.natAbs := by
    simp [Constraint.shape]
  have hindex : (constraints.map Constraint.shape).flatMap mentions =
      constraints.flatMap fun c => mentions c.shape := List.flatMap_map ..
  simp only [assemble_eq_ok_iff, firstRepeat?_eq_none_iff, hpos, foldlM_addShape_eq_ok_iff, hshapes,
    hindex]
  constructor
  · rintro ⟨hq, ha, hp, hi, w, index, hw, ⟨hc, rfl⟩, rfl⟩
    refine ⟨⟨by omega, ha, hp, hi, fun c hm => (hc c hm).1, fun c hm => (hc c hm).2.1,
      fun c hm => (hc c hm).2.2⟩, w, hw, rfl⟩
  · rintro ⟨h, w, hw, rfl⟩
    have hq := h.query
    exact ⟨by omega, h.atoms_nodup, h.atoms_pos, h.ids_nodup, w, _, hw,
      ⟨fun c hm => ⟨h.ids_ne c hm, h.literals_ne c hm, h.known c hm⟩, rfl⟩, rfl⟩

end

/-! ## What the tables list -/

theorem getD_addOccurrence (table : Occurrences) (atom c a : Int) :
    ((addOccurrence table atom c).get? a).getD [] =
      (table.get? a).getD [] ++ if a = atom then [c] else [] := by
  rw [addOccurrence, Table.get?_insert]
  by_cases ha : a = atom
  · simp [ha]
  · simp [ha]

/-- One more mention is listed for its atom, on the side of its polarity. -/
theorem Index.getD_note (index : Index) (m : Int × Int) {a : Int} (ha : 0 < a) :
    ((index.note m).positive.get? a).getD [] =
        (index.positive.get? a).getD [] ++ (if m.2 = a then [m.1] else []) ∧
      ((index.note m).negative.get? a).getD [] =
        (index.negative.get? a).getD [] ++ if m.2 = -a then [m.1] else [] := by
  obtain ⟨c, x⟩ := m
  unfold note
  by_cases hx : 0 < x
  · have hpos : a = (x.natAbs : Int) ↔ x = a := by omega
    have hneg : x ≠ -a := by omega
    simp only [hx, getD_addOccurrence, hpos, hneg, if_true, if_false, List.append_nil, and_self]
  · have hpos : x ≠ a := by omega
    have hneg : a = (x.natAbs : Int) ↔ x = -a := by omega
    simp only [hx, getD_addOccurrence, hpos, hneg, if_false, List.append_nil, and_self]

/-- **The tables list the mentions in order**, once each, by atom and polarity. -/
theorem Index.getD_ofMentions {a : Int} (ha : 0 < a) (ms : List (Int × Int)) :
    ((ofMentions ms).positive.get? a).getD [] = (ms.filter (·.2 = a)).map Prod.fst ∧
      ((ofMentions ms).negative.get? a).getD [] = (ms.filter (·.2 = -a)).map Prod.fst := by
  suffices h : ∀ index : Index, ((ms.foldl note index).positive.get? a).getD [] =
        (index.positive.get? a).getD [] ++ (ms.filter (·.2 = a)).map Prod.fst ∧
      ((ms.foldl note index).negative.get? a).getD [] =
        (index.negative.get? a).getD [] ++ (ms.filter (·.2 = -a)).map Prod.fst from
    h ⟨Table.empty, Table.empty⟩
  induction ms with
  | nil => intro index; simp
  | cons m ms ih =>
    intro index
    obtain ⟨hpos, hneg⟩ := index.getD_note m ha
    obtain ⟨ihpos, ihneg⟩ := ih (index.note m)
    rw [List.foldl_cons, ihpos, ihneg, hpos, hneg, List.filter_cons, List.filter_cons]
    constructor
    · by_cases hm : m.2 = a <;> simp [hm]
    · by_cases hm : m.2 = -a <;> simp [hm]

theorem mem_filter_mentions_iff {constraints : List (Constraint α)} {x id : Int} :
    id ∈ ((constraints.flatMap fun c => mentions c.shape).filter (·.2 = x)).map Prod.fst ↔
      ∃ c ∈ constraints, c.id = id ∧ x ∈ c.literals := by
  simp only [List.mem_map, List.mem_filter, List.mem_flatMap, mentions, Constraint.shape,
    decide_eq_true_eq]
  constructor
  · rintro ⟨_, ⟨⟨c, hc, y, hy, rfl⟩, rfl⟩, rfl⟩
    exact ⟨c, hc, rfl, hy⟩
  · rintro ⟨c, hc, rfl, hx⟩
    exact ⟨(c.id, x), ⟨⟨c, hc, x, hx, rfl⟩, rfl⟩, rfl⟩

/-! ## Occurrences in an assembled network -/

theorem constraint?_eq_some_iff {net : Network α} (hn : (net.constraints.map (·.id)).Nodup)
    {id : Int} {c : Constraint α} :
    net.constraint? id = some c ↔ c ∈ net.constraints ∧ c.id = id := by
  constructor
  · intro h
    exact ⟨List.mem_of_find?_eq_some h, by simpa using List.find?_some h⟩
  · rintro ⟨hc, rfl⟩
    exact find?_id_eq_some hn hc

section

variable [WeightArith α] {constraints : List (Constraint α)} {atoms : List GroundAtom}
  {weightHard : α} {first last : Int} {deps : Option DependencyMap} {net : Network α}
  (h : assemble constraints atoms weightHard first last deps = .ok net)

include h

theorem admissible_of_assemble : Admissible net.constraints net.atoms first last := by
  obtain ⟨had, w, -, rfl⟩ := assemble_eq_ok_iff_admissible.1 h
  refine ⟨had.query, had.atoms_nodup, had.atoms_pos, ?_, ?_, ?_, ?_⟩
  · rw [List.map_map]
    simpa [Function.comp_def] using had.ids_nodup
  · simpa using had.ids_ne
  · simpa using had.literals_ne
  · simpa using had.known

/-- What a table lists for an atom are the constraints with the literal, if the table holds their
mentions. -/
theorem mem_listed_iff {table : Occurrences} {a x : Int} (ht : (table.get? a).getD [] =
      ((constraints.flatMap fun c => mentions c.shape).filter (·.2 = x)).map Prod.fst)
    {c : Constraint α} : c ∈ net.listed table a ↔ c ∈ net.constraints ∧ x ∈ c.literals := by
  have hn := (admissible_of_assemble h).ids_nodup
  obtain ⟨-, w, -, rfl⟩ := assemble_eq_ok_iff_admissible.1 h
  unfold listed
  rw [List.mem_filterMap, ht]
  simp only [mem_filter_mentions_iff, constraint?_eq_some_iff hn]
  constructor
  · rintro ⟨id, ⟨d, hd, rfl, hx⟩, hc, hid⟩
    refine ⟨hc, ?_⟩
    -- the found constraint and the one that made the mention have the same number
    obtain ⟨e, he, rfl⟩ := List.mem_map.1 hc
    rw [Constraint.settled_id] at hid
    have hde : e = d := List.inj_on_of_nodup_map (by simpa [Function.comp_def] using hn) he hd hid
    rw [Constraint.settled_literals, hde]
    exact hx
  · rintro ⟨hc, hx⟩
    obtain ⟨e, he, rfl⟩ := List.mem_map.1 hc
    rw [Constraint.settled_literals] at hx
    exact ⟨e.id, ⟨e, he, rfl, hx⟩, hc, Constraint.settled_id w e⟩

theorem mem_positiveOccurrences_iff {a : Int} (ha : 0 < a) {c : Constraint α} :
    c ∈ net.positiveOccurrences a ↔ c ∈ net.constraints ∧ a ∈ c.literals := by
  apply mem_listed_iff h
  obtain ⟨-, w, -, rfl⟩ := assemble_eq_ok_iff_admissible.1 h
  exact (Index.getD_ofMentions ha _).1

theorem mem_negativeOccurrences_iff {a : Int} (ha : 0 < a) {c : Constraint α} :
    c ∈ net.negativeOccurrences a ↔ c ∈ net.constraints ∧ -a ∈ c.literals := by
  apply mem_listed_iff h
  obtain ⟨-, w, -, rfl⟩ := assemble_eq_ok_iff_admissible.1 h
  exact (Index.getD_ofMentions ha _).2

end

end Network

end MarkovLogic
