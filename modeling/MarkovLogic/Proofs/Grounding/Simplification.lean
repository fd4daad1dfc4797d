import MarkovLogic.Grounding.Simplified
import MarkovLogic.Proofs.Runs

/-!
# What simplification keeps

Under an assignment the evidence decides a literal (`Problem.Decides`) or the literal is open and
has a signed atom number (`AtomSpace.Signs`). A grounding is kept with the numbers of its open
literals when no literal is decided true and no number occurs with both signs (`Problem.Keeps`); a
grounding without open literals, all decided false, is refuted (`Problem.Refutes`). What
simplification answers says which of these it met (`keeps_of_simplify`, `cases_of_dropped`,
`refutes_of_violated`).
-/

namespace MarkovLogic

/-- The literal is open and has the signed number under the assignment. -/
def AtomSpace.Signs (space : AtomSpace) (assignment : Assignment) (l : Literal) (x : Int) : Prop :=
  ∃ tuple, ∃ id : Nat, l.atom.terms.mapM (Problem.symbolOf? assignment) = some tuple ∧
    space.isOpen l.atom.signature = true ∧ space.encode l.atom.signature tuple = .ok id ∧
    x = if l.positive then (id : Int) else -id

namespace Problem

variable {α : Type} (p : Problem α) (space : AtomSpace) (assignment : Assignment)

/-- The evidence gives the literal the truth value. -/
def Decides (l : Literal) (value : Bool) : Prop :=
  ∃ tuple, l.atom.terms.mapM (symbolOf? assignment) = some tuple ∧
    space.isOpen l.atom.signature = false ∧
    value = decide (p.isFact l.atom.signature tuple = l.positive)

/-- The grounding has these open literals, and all of them can be false together. -/
structure Keeps (c : Clause α) (literals : List Int) : Prop where
  ne_nil : literals ≠ []
  mem_iff : ∀ x, x ∈ literals ↔ ∃ l ∈ c.literals, space.Signs assignment l x
  /-- No literal is decided true. -/
  undecided : ∀ l ∈ c.literals, p.Decides space assignment l false ∨
    ∃ x, space.Signs assignment l x
  consistent : ∀ x ∈ literals, -x ∉ literals

/-- The evidence decides every literal of the grounding to be false. -/
def Refutes (c : Clause α) : Prop :=
  ∀ l ∈ c.literals, p.Decides space assignment l false

variable {p space assignment}

theorem signs_unique {l : Literal} {x y : Int} (hx : space.Signs assignment l x)
    (hy : space.Signs assignment l y) : x = y := by
  obtain ⟨tuple, id, ht, _, hid, rfl⟩ := hx
  obtain ⟨tuple', id', ht', _, hid', rfl⟩ := hy
  rw [ht, Option.some.injEq] at ht'
  subst ht'
  rw [hid, Except.ok.injEq] at hid'
  rw [hid']

theorem not_signs_of_decides {l : Literal} {value : Bool} (h : p.Decides space assignment l value)
    (x : Int) : ¬ space.Signs assignment l x := by
  obtain ⟨_, _, hclosed, _⟩ := h
  rintro ⟨_, _, _, hopen, _⟩
  rw [hclosed] at hopen
  cases hopen

/-! ## The open literals -/

theorem tupleOf_eq_ok_iff {l : Literal} {tuple : List String} :
    tupleOf (α := α) assignment l = .ok tuple ↔
      l.atom.terms.mapM (symbolOf? assignment) = some tuple := by
  unfold tupleOf
  cases l.atom.terms.mapM (symbolOf? assignment) with
  | none => simp
  | some t => simp

/-- Looking at one more literal: it is open and adds its number, or the evidence makes it true and
ends the search, or the evidence makes it false. -/
theorem openLiterals_cons {found : List Int} {l : Literal} {rest : List Literal}
    {result : Option (List Int)}
    (h : p.openLiterals space assignment found (l :: rest) = .ok result) :
    (∃ x, space.Signs assignment l x ∧ p.openLiterals space assignment
      (if found.contains x then found else found ++ [x]) rest = .ok result) ∨
    (p.Decides space assignment l true ∧ result = none) ∨
    (p.Decides space assignment l false ∧
      p.openLiterals space assignment found rest = .ok result) := by
  rw [openLiterals] at h
  obtain ⟨tuple, ht, h⟩ := bind_eq_ok_iff.1 h
  rw [tupleOf_eq_ok_iff] at ht
  cases ho : space.isOpen l.atom.signature with
  | true =>
    simp only [ho, if_true] at h
    obtain ⟨id, hid, h⟩ := bind_eq_ok_iff.1 h
    exact .inl ⟨_, ⟨tuple, id, ht, ho, mapError_eq_ok_iff.1 hid, rfl⟩, h⟩
  | false =>
    simp only [ho, Bool.false_eq_true, if_false] at h
    right
    split at h
    · next hf => exact .inl ⟨⟨tuple, ht, ho, by simpa using hf⟩, (Except.ok.inj h).symm⟩
    · next hf => exact .inr ⟨⟨tuple, ht, ho, by simpa using hf⟩, h⟩

/-- The search ends early only at a literal that the evidence makes true. -/
theorem exists_decides_of_openLiterals {ls : List Literal} :
    ∀ {found : List Int}, p.openLiterals space assignment found ls = .ok none →
      ∃ l ∈ ls, p.Decides space assignment l true := by
  induction ls with
  | nil =>
    intro found h
    cases Except.ok.inj h
  | cons l rest ih =>
    intro found h
    have hrest : (∃ l ∈ rest, p.Decides space assignment l true) →
        ∃ l' ∈ l :: rest, p.Decides space assignment l' true := by
      rintro ⟨l', hl', hd⟩
      exact ⟨l', List.mem_cons_of_mem _ hl', hd⟩
    rcases openLiterals_cons h with ⟨x, _, h⟩ | ⟨hd, _⟩ | ⟨_, h⟩
    · exact hrest (ih h)
    · exact ⟨l, List.mem_cons_self, hd⟩
    · exact hrest (ih h)

/-- A search to the end finds the numbers of all open literals, and the evidence makes every other
literal false. -/
theorem mem_openLiterals {ls : List Literal} {literals : List Int} :
    ∀ {found : List Int}, p.openLiterals space assignment found ls = .ok (some literals) →
      (∀ x, x ∈ literals ↔ x ∈ found ∨ ∃ l ∈ ls, space.Signs assignment l x) ∧
      ∀ l ∈ ls, p.Decides space assignment l false ∨ ∃ x, space.Signs assignment l x := by
  induction ls with
  | nil =>
    intro found h
    obtain rfl := Option.some.inj (Except.ok.inj h)
    simp
  | cons l rest ih =>
    intro found h
    rcases openLiterals_cons h with ⟨x, hx, h⟩ | ⟨_, hn⟩ | ⟨hd, h⟩
    · obtain ⟨hm, hr⟩ := ih h
      have hfound : ∀ y, y ∈ (if found.contains x then found else found ++ [x]) ↔
          y ∈ found ∨ y = x := by
        intro y
        split
        · next hc =>
          constructor
          · exact .inl
          · rintro (hy | rfl)
            · exact hy
            · exact List.contains_iff_mem.1 hc
        · rw [List.mem_append, List.mem_singleton]
      refine ⟨fun y => ?_, List.forall_mem_cons.2 ⟨.inr ⟨x, hx⟩, hr⟩⟩
      have hl : space.Signs assignment l y ↔ y = x := by
        constructor
        · exact fun hy => signs_unique hy hx
        · rintro rfl
          exact hx
      rw [hm, hfound, List.exists_mem_cons_iff, hl, or_assoc]
    · cases hn
    · obtain ⟨hm, hr⟩ := ih h
      refine ⟨fun y => ?_, List.forall_mem_cons.2 ⟨.inl hd, hr⟩⟩
      rw [hm, List.exists_mem_cons_iff, or_iff_right (not_signs_of_decides hd y)]

/-! ## The outcomes -/

theorem mem_orderLiterals {x : Int} {literals : List Int} :
    x ∈ orderLiterals literals ↔ x ∈ literals :=
  List.mem_mergeSort

theorem refutes_of_openLiterals {c : Clause α}
    (h : p.openLiterals space assignment [] c.literals = .ok (some [])) :
    p.Refutes space assignment c := by
  obtain ⟨hm, hr⟩ := mem_openLiterals h
  intro l hl
  rcases hr l hl with hd | ⟨x, hx⟩
  · exact hd
  · cases (hm x).2 (.inr ⟨l, hl, hx⟩)

/-- What simplification answers, in terms of the open literals found. -/
theorem simplify_cases {c : Clause α} {outcome : Grounded}
    (h : p.simplify space c assignment = .ok outcome) :
    (p.openLiterals space assignment [] c.literals = .ok none ∧ outcome = .dropped) ∨
    (p.openLiterals space assignment [] c.literals = .ok (some []) ∧
      outcome = if c.isHard then .violated else .dropped) ∨
    ∃ found, found ≠ [] ∧ p.openLiterals space assignment [] c.literals = .ok (some found) ∧
      (((∃ x ∈ found, -x ∈ found) ∧ outcome = .dropped) ∨
        ((∀ x ∈ found, -x ∉ found) ∧ outcome = .kept (orderLiterals found))) := by
  obtain ⟨result, hr, h⟩ := bind_eq_ok_iff.1 h
  match result, hr, h with
  | none, hr, h => exact .inl ⟨hr, (Except.ok.inj h).symm⟩
  | some [], hr, h => exact .inr (.inl ⟨hr, (Except.ok.inj h).symm⟩)
  | some (y :: ys), hr, h =>
    refine .inr (.inr ⟨y :: ys, List.cons_ne_nil y ys, hr, ?_⟩)
    simp only at h
    split at h
    · next hc =>
      obtain ⟨x, hx, hneg⟩ := List.any_eq_true.1 hc
      exact .inl ⟨⟨x, hx, List.contains_iff_mem.1 hneg⟩, (Except.ok.inj h).symm⟩
    · next hc =>
      refine .inr ⟨fun x hx hneg => hc ?_, (Except.ok.inj h).symm⟩
      exact List.any_eq_true.2 ⟨x, hx, List.contains_iff_mem.2 hneg⟩

/-- **A kept grounding has the numbers of its open literals.** -/
theorem keeps_of_simplify {c : Clause α} {literals : List Int}
    (h : p.simplify space c assignment = .ok (.kept literals)) :
    p.Keeps space assignment c literals := by
  rcases simplify_cases h with ⟨_, h⟩ | ⟨_, h⟩ | ⟨found, hne, hfound, ⟨_, h⟩ | ⟨hpair, h⟩⟩
  · cases h
  · split at h <;> cases h
  · cases h
  · obtain rfl := Grounded.kept.inj h
    obtain ⟨hm, hr⟩ := mem_openLiterals hfound
    obtain ⟨y, hy⟩ := List.exists_mem_of_ne_nil found hne
    refine ⟨List.ne_nil_of_mem (mem_orderLiterals.2 hy), fun x => ?_, hr, fun x hx hneg => ?_⟩
    · rw [mem_orderLiterals, hm]
      simp
    · exact hpair x (mem_orderLiterals.1 hx) (mem_orderLiterals.1 hneg)

/-- A grounding is dropped because of a true literal, because of two opposite open literals or
because nothing is left of it. -/
theorem cases_of_dropped {c : Clause α}
    (h : p.simplify space c assignment = .ok .dropped) :
    (∃ l ∈ c.literals, p.Decides space assignment l true) ∨
    (∃ l ∈ c.literals, ∃ m ∈ c.literals, ∃ x,
      space.Signs assignment l x ∧ space.Signs assignment m (-x)) ∨
    p.Refutes space assignment c := by
  rcases simplify_cases h with ⟨hn, _⟩ | ⟨he, _⟩ | ⟨found, _, hfound, ⟨⟨x, hx, hneg⟩, _⟩ | ⟨_, h⟩⟩
  · exact .inl (exists_decides_of_openLiterals hn)
  · exact .inr (.inr (refutes_of_openLiterals he))
  · obtain ⟨hm, _⟩ := mem_openLiterals hfound
    obtain ⟨l, hl, hlx⟩ := ((hm x).1 hx).resolve_left List.not_mem_nil
    obtain ⟨m, hm, hmx⟩ := ((hm (-x)).1 hneg).resolve_left List.not_mem_nil
    exact .inr (.inl ⟨l, hl, m, hm, x, hlx, hmx⟩)
  · cases h

/-- A grounding is violated only when nothing is left of it. -/
theorem refutes_of_violated {c : Clause α}
    (h : p.simplify space c assignment = .ok .violated) : p.Refutes space assignment c := by
  rcases simplify_cases h with ⟨_, h⟩ | ⟨he, _⟩ | ⟨_, _, _, ⟨_, h⟩ | ⟨_, h⟩⟩
  · cases h
  · exact refutes_of_openLiterals he
  · cases h
  · cases h

end Problem

end MarkovLogic

