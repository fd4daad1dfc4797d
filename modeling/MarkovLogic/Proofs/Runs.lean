import MarkovLogic.Weight
import Mathlib.Data.List.Forall2

/-!
# Computations that may fail

When a computation built from steps succeeds, so did every step: `bind_eq_ok_iff` takes one step off
a computation, `foldlM_cons_eq_ok_iff` one off a loop and `mapM_eq_ok_iff` relates the elements of a
list to their results. A property that every successful step keeps holds after a loop
(`foldlM_invariant`), a loop fails only where a step does (`exists_of_foldlM_eq_error`), and one
whose steps succeed succeeds (`exists_foldlM_of_forall`).
-/

namespace MarkovLogic

section Steps

variable {ε ε' α β : Type}

theorem bind_eq_ok_iff {x : Except ε α} {f : α → Except ε β} {b : β} :
    (x >>= f) = .ok b ↔ ∃ a, x = .ok a ∧ f a = .ok b := by
  cases x with
  | error e => simp [bind, Except.bind]
  | ok a => simp [bind, Except.bind]

theorem bind_eq_error_iff {x : Except ε α} {f : α → Except ε β} {e : ε} :
    (x >>= f) = .error e ↔ x = .error e ∨ ∃ a, x = .ok a ∧ f a = .error e := by
  cases x with
  | error e' => simp [bind, Except.bind]
  | ok a => simp [bind, Except.bind]

theorem map_eq_ok_iff {x : Except ε α} {f : α → β} {b : β} :
    x.map f = .ok b ↔ ∃ a, x = .ok a ∧ f a = b := by
  cases x with
  | error e => simp [Except.map]
  | ok a => simp [Except.map]

theorem mapError_eq_ok_iff {x : Except ε α} {f : ε → ε'} {a : α} :
    x.mapError f = .ok a ↔ x = .ok a := by
  cases x with
  | error e => simp [Except.mapError]
  | ok b => simp [Except.mapError]

end Steps

section Loops

variable {ε α β σ : Type} (f : σ → α → Except ε σ)

theorem foldlM_cons_eq_ok_iff {a : α} {l : List α} {s t : σ} :
    (a :: l).foldlM f s = .ok t ↔ ∃ u, f s a = .ok u ∧ l.foldlM f u = .ok t := by
  rw [List.foldlM_cons, bind_eq_ok_iff]

theorem foldlM_nil_eq_ok_iff {s t : σ} :
    ([] : List α).foldlM f s = .ok t ↔ s = t := by
  rw [List.foldlM_nil]
  exact ⟨Except.ok.inj, congrArg _⟩

theorem foldlM_append_eq_ok_iff {l m : List α} {s t : σ} :
    (l ++ m).foldlM f s = .ok t ↔ ∃ u, l.foldlM f s = .ok u ∧ m.foldlM f u = .ok t := by
  rw [List.foldlM_append, bind_eq_ok_iff]

/-- A property that every successful step keeps holds after a successful loop. -/
theorem foldlM_invariant {P : σ → Prop} (hstep : ∀ s a t, P s → f s a = .ok t → P t) :
    ∀ (l : List α) {s t : σ}, P s → l.foldlM f s = .ok t → P t := by
  intro l
  induction l with
  | nil =>
    intro s t hs h
    exact (foldlM_nil_eq_ok_iff f).1 h ▸ hs
  | cons a l ih =>
    intro s t hs h
    obtain ⟨u, hu, ht⟩ := (foldlM_cons_eq_ok_iff f).1 h
    exact ih (hstep s a u hs hu) ht

/-- What a step establishes for its element holds after the loop if later steps keep it. -/
theorem foldlM_forall {Q : α → σ → Prop} (hstep : ∀ s a t, f s a = .ok t → Q a t)
    (hkeep : ∀ a s b t, Q a s → f s b = .ok t → Q a t) :
    ∀ (l : List α) {s t : σ}, l.foldlM f s = .ok t → ∀ a ∈ l, Q a t := by
  intro l
  induction l with
  | nil => intro s t _ a ha; cases ha
  | cons b l ih =>
    intro s t h a ha
    obtain ⟨u, hu, ht⟩ := (foldlM_cons_eq_ok_iff f).1 h
    rcases List.mem_cons.1 ha with rfl | ha
    · exact foldlM_invariant f (fun s b t hs ht => hkeep a s b t hs ht) l (hstep s a u hu) ht
    · exact ih ht a ha

/-- A loop whose steps all succeed is a loop that cannot fail. -/
theorem foldlM_eq_ok_of_forall {g : σ → α → σ} {l : List α}
    (h : ∀ a ∈ l, ∀ s, f s a = .ok (g s a)) : ∀ s, l.foldlM f s = .ok (l.foldl g s) := by
  induction l with
  | nil => intro s; rfl
  | cons a l ih =>
    intro s
    obtain ⟨ha, hl⟩ := List.forall_mem_cons.1 h
    exact (foldlM_cons_eq_ok_iff f).2 ⟨g s a, ha s, ih hl _⟩

/-- A loop whose steps succeed for every element, whatever the state, succeeds. -/
theorem exists_foldlM_of_forall {l : List α} (h : ∀ a ∈ l, ∀ s, ∃ t, f s a = .ok t) :
    ∀ s, ∃ t, l.foldlM f s = .ok t := by
  induction l with
  | nil => intro s; exact ⟨s, rfl⟩
  | cons a l ih =>
    intro s
    obtain ⟨ha, hl⟩ := List.forall_mem_cons.1 h
    obtain ⟨u, hu⟩ := ha s
    obtain ⟨t, ht⟩ := ih hl u
    exact ⟨t, (foldlM_cons_eq_ok_iff f).2 ⟨u, hu, ht⟩⟩

/-- A loop that fails does so at one of its elements. -/
theorem exists_of_foldlM_eq_error {e : ε} :
    ∀ {l : List α} {s : σ}, l.foldlM f s = .error e → ∃ a ∈ l, ∃ u, f u a = .error e := by
  intro l
  induction l with
  | nil => intro s h; cases h
  | cons a l ih =>
    intro s h
    rw [List.foldlM_cons] at h
    rcases bind_eq_error_iff.1 h with ha | ⟨u, -, h⟩
    · exact ⟨a, List.mem_cons_self, s, ha⟩
    · obtain ⟨b, hb, hfail⟩ := ih h
      exact ⟨b, List.mem_cons_of_mem _ hb, hfail⟩

theorem mapM_eq_ok_iff {g : α → Except ε β} :
    ∀ {l : List α} {r : List β}, l.mapM g = .ok r ↔ List.Forall₂ (fun a b => g a = .ok b) l r := by
  intro l
  induction l with
  | nil =>
    intro r
    rw [List.mapM_nil, List.forall₂_nil_left_iff]
    exact ⟨fun h => (Except.ok.inj h).symm, fun h => h ▸ rfl⟩
  | cons a l ih =>
    intro r
    rw [List.mapM_cons, bind_eq_ok_iff]
    constructor
    · rintro ⟨b, hb, h⟩
      obtain ⟨bs, hbs, h⟩ := bind_eq_ok_iff.1 h
      rw [← Except.ok.inj h]
      exact .cons hb (ih.1 hbs)
    · intro h
      cases h with
      | cons hb hbs => exact ⟨_, hb, bind_eq_ok_iff.2 ⟨_, ih.2 hbs, rfl⟩⟩

/-- Where no element fails, the results are those of a map. -/
theorem mapM_eq_ok_map {g : α → Except ε β} {f : α → β} {l : List α}
    (h : ∀ a ∈ l, g a = .ok (f a)) : l.mapM g = .ok (l.map f) :=
  mapM_eq_ok_iff.2 (List.forall₂_map_right_iff.2 (List.forall₂_same.2 h))

/-- If each result shows what its element shows, the results show what the list shows. -/
theorem mapM_eq_ok_iff_map_eq {γ : Type} {g : α → Except ε β} {k : α → γ} {f : β → γ}
    {P : β → Prop} (h : ∀ a b, g a = .ok b ↔ f b = k a ∧ P b) :
    ∀ {l : List α} {r : List β}, l.mapM g = .ok r ↔ r.map f = l.map k ∧ ∀ b ∈ r, P b := by
  intro l
  induction l with
  | nil =>
    intro r
    rw [mapM_eq_ok_iff, List.forall₂_nil_left_iff, List.map_nil, List.map_eq_nil_iff]
    exact ⟨fun hr => ⟨hr, hr ▸ nofun⟩, And.left⟩
  | cons a l ih =>
    intro r
    rw [mapM_eq_ok_iff, List.forall₂_cons_left_iff]
    constructor
    · rintro ⟨b, rest, hb, hrest, rfl⟩
      obtain ⟨hfb, hPb⟩ := (h a b).1 hb
      obtain ⟨hf, hP⟩ := ih.1 (mapM_eq_ok_iff.2 hrest)
      exact ⟨by rw [List.map_cons, hfb, hf, List.map_cons], List.forall_mem_cons.2 ⟨hPb, hP⟩⟩
    · rintro ⟨hf, hP⟩
      obtain ⟨b, rest, rfl, hfb, hfrest⟩ := List.map_eq_cons_iff.1 hf
      obtain ⟨hPb, hPrest⟩ := List.forall_mem_cons.1 hP
      exact ⟨b, rest, (h a b).2 ⟨hfb, hPb⟩, mapM_eq_ok_iff.1 (ih.2 ⟨hfrest, hPrest⟩), rfl⟩

theorem exists_mapM_of_forall {g : α → Except ε β} {l : List α}
    (h : ∀ a ∈ l, ∃ b, g a = .ok b) : ∃ r, l.mapM g = .ok r := by
  induction l with
  | nil => exact ⟨[], rfl⟩
  | cons a l ih =>
    obtain ⟨⟨b, hb⟩, hl⟩ := List.forall_mem_cons.1 h
    obtain ⟨r, hr⟩ := ih hl
    exact ⟨b :: r, mapM_eq_ok_iff.2 (.cons hb (mapM_eq_ok_iff.1 hr))⟩

theorem exists_of_forall₂_right {R : α → β → Prop} {l : List α} {r : List β}
    (h : List.Forall₂ R l r) {b : β} (hb : b ∈ r) : ∃ a ∈ l, R a b := by
  induction h with
  | nil => cases hb
  | cons hab _ ih =>
    rcases List.mem_cons.1 hb with rfl | hb
    · exact ⟨_, List.mem_cons_self, hab⟩
    · obtain ⟨a, ha, hab⟩ := ih hb
      exact ⟨a, List.mem_cons_of_mem _ ha, hab⟩

/-- Every result is that of an element. -/
theorem exists_of_mem_mapM {g : α → Except ε β} {l : List α} {r : List β} (h : l.mapM g = .ok r)
    {b : β} (hb : b ∈ r) : ∃ a ∈ l, g a = .ok b :=
  exists_of_forall₂_right (mapM_eq_ok_iff.1 h) hb

theorem exists_mapM_iff {g : α → Except ε β} {l : List α} :
    (∃ r, l.mapM g = .ok r) ↔ ∀ a ∈ l, ∃ b, g a = .ok b := by
  constructor
  · rintro ⟨r, hr⟩ a ha
    obtain ⟨b, -, hb⟩ := exists_of_forall₂_right (mapM_eq_ok_iff.1 hr).flip ha
    exact ⟨b, hb⟩
  · exact exists_mapM_of_forall

end Loops

/-! ## Loops in two parts -/

section TwoLoops

variable {ε α β σ : Type}

/-- A loop whose steps first compute something that does not depend on the state is the same as
computing all of it first. -/
theorem foldlM_bind_eq_ok_iff {g : α → Except ε β} {f : σ → β → Except ε σ} :
    ∀ {l : List α} {s t : σ}, l.foldlM (fun s a => g a >>= f s) s = .ok t ↔
      ∃ bs, l.mapM g = .ok bs ∧ bs.foldlM f s = .ok t := by
  intro l
  induction l with
  | nil => intro s t; simp [pure, Except.pure]
  | cons a l ih =>
    intro s t
    rw [foldlM_cons_eq_ok_iff]
    constructor
    · rintro ⟨u, hu, ht⟩
      obtain ⟨b, hb, hu⟩ := bind_eq_ok_iff.1 hu
      obtain ⟨bs, hbs, ht⟩ := ih.1 ht
      exact ⟨b :: bs, mapM_eq_ok_iff.2 (.cons hb (mapM_eq_ok_iff.1 hbs)),
        (foldlM_cons_eq_ok_iff f).2 ⟨u, hu, ht⟩⟩
    · rintro ⟨bs, hbs, ht⟩
      cases mapM_eq_ok_iff.1 hbs with
      | cons hb hrest =>
        obtain ⟨u, hu, ht⟩ := (foldlM_cons_eq_ok_iff f).1 ht
        exact ⟨u, bind_eq_ok_iff.2 ⟨_, hb, hu⟩, ih.2 ⟨_, mapM_eq_ok_iff.2 hrest, ht⟩⟩

theorem foldlM_mapError_eq_ok_iff {ε' : Type} {e : ε → ε'} {f : σ → α → Except ε σ} :
    ∀ {l : List α} {s t : σ},
      l.foldlM (fun s a => (f s a).mapError e) s = .ok t ↔ l.foldlM f s = .ok t := by
  intro l
  induction l with
  | nil =>
    intro s t
    rw [foldlM_nil_eq_ok_iff, foldlM_nil_eq_ok_iff]
  | cons a l ih =>
    intro s t
    rw [foldlM_cons_eq_ok_iff, foldlM_cons_eq_ok_iff]
    simp only [mapError_eq_ok_iff, ih]

end TwoLoops

end MarkovLogic
