import MarkovLogic.Proofs.Domain.Sessions

/-!
# Names and symbols with at least one character

The symbols that builders and snapshots hold are texts with at least one character, and so are the
names of domains with symbols, whatever calls are made. The name of a domain is checked along with
its symbols, so a batch without symbols makes a domain known under any name
(`keys_after_emptyBatch`). While no call brings a domain without symbols under another name
(`DomainCall.Named`), all names are texts with at least one character (`filled_of_named`), and the
first admitted call that does so ends that (`namesFilled_perform_iff`).
-/

namespace MarkovLogic

open DomainBuilder (Admits Sound)

/-! ## Names of domains -/

namespace Domains

/-- Every name is a text with at least one character. -/
def NamesFilled (d : Domains) : Prop :=
  ∀ name ∈ d.keys, name.isFilledText = true

/-- Every name and every symbol is a text with at least one character. -/
structure Filled (d : Domains) : Prop where
  names : d.NamesFilled
  symbols : ∀ e ∈ d.toList, ∀ s ∈ e.2, s ≠ ""

variable {d : Domains}

theorem NamesFilled.filled (h : d.NamesFilled) (hd : Sound d) : d.Filled where
  names := h
  symbols e he s hs := (DomainBuilder.admits_map_text.1 (hd e he) s hs).2

theorem NamesFilled.frozen (h : d.NamesFilled) : d.frozen.NamesFilled := by
  unfold NamesFilled
  rw [keys_frozen]
  exact h

end Domains

namespace DomainBuilder

/-- A domain that gets symbols is known afterwards, and it may be the only new one. -/
theorem namesFilled_add_iff {b : DomainBuilder} {domain : Scalar} {list : List String} :
    (b.add domain list).1.domains.NamesFilled ↔
      b.domains.NamesFilled ∧ domain.isFilledText = true := by
  have hname : (b.domains.recordedName domain).isFilledText = domain.isFilledText :=
    (Scalar.isFilledText_congr (Domains.same_recordedName b.domains domain)).symm
  have hkeys : ∀ name, name ∈ (b.add domain list).1.domains.keys ↔
      name ∈ b.domains.keys ∨ name = b.domains.recordedName domain :=
    fun _ => Table.mem_keys_insert b.domains
  unfold Domains.NamesFilled
  simp only [hkeys, or_imp, forall_and, forall_eq, hname]

theorem namesFilled_addEntries_iff {entries : List (Scalar × List String)} {b : DomainBuilder} :
    (b.addEntries entries).domains.NamesFilled ↔
      b.domains.NamesFilled ∧ ∀ e ∈ entries, e.1.isFilledText = true := by
  induction entries generalizing b with
  | nil => simp [addEntries]
  | cons e entries ih =>
    rw [addEntries_cons, ih, namesFilled_add_iff, List.forall_mem_cons, and_assoc]

end DomainBuilder

/-! ## Calls that name domains properly -/

namespace DomainCall

/-- A domain that the call brings without symbols has a text with at least one character as its
name. -/
def Named : DomainCall → Prop
  | .new => True
  | .seed d => ∀ e ∈ d.toList, e.2 = [] → e.1.isFilledText = true
  | .insert _ _ _ => True
  | .insertAll _ domain symbols => symbols = [] → domain.isFilledText = true
  | .snapshot _ => True

/-- Every name and every symbol that the call brings is a text with at least one character. -/
def Proper : DomainCall → Prop
  | .new => True
  | .seed d => ∀ e ∈ d.toList, e.1.isFilledText = true ∧ ∀ s ∈ e.2, s ≠ ""
  | .insert _ domain symbol => domain.isFilledText = true ∧ symbol.isFilledText = true
  | .insertAll _ domain symbols =>
    domain.isFilledText = true ∧ ∀ s ∈ symbols, s.isFilledText = true
  | .snapshot _ => True

/-- The check of the symbols has checked the name unless there is no symbol. -/
theorem filled_iff_of_admits {domain : Scalar} {symbols : List Scalar} (h : Admits domain symbols) :
    domain.isFilledText = true ↔ (symbols = [] → domain.isFilledText = true) := by
  cases symbols with
  | nil => simp
  | cons s rest => exact iff_of_true (h s List.mem_cons_self).1 nofun

theorem filled_and_iff {domain : Scalar} {symbols : List Scalar} :
    (domain.isFilledText = true ∧ ∀ s ∈ symbols, s.isFilledText = true) ↔
      Admits domain symbols ∧ (symbols = [] → domain.isFilledText = true) := by
  constructor
  · exact fun h => ⟨fun s hs => ⟨h.1, h.2 s hs⟩, fun _ => h.1⟩
  · exact fun h => ⟨(filled_iff_of_admits h.1).2 h.2, fun s hs => (h.1 s hs).2⟩

/-- **What is asked of a call is more than what is checked by the names of domains without
symbols.** -/
theorem proper_iff {call : DomainCall} : call.Proper ↔ call.Admitted ∧ call.Named := by
  cases call with
  | new => exact (and_self_iff).symm
  | seed d =>
    have hentry : ∀ e : Scalar × List String,
        (e.1.isFilledText = true ∧ ∀ s ∈ e.2, s ≠ "") ↔
          Admits e.1 (e.2.map .text) ∧ (e.2 = [] → e.1.isFilledText = true) := by
      intro e
      rw [← List.map_eq_nil_iff (f := Scalar.text), ← filled_and_iff]
      simp [Scalar.isFilledText]
    simp only [Proper, Admitted, Named, Sound, hentry, imp_and, forall_and]
  | insert i domain symbol => simp [Proper, Admitted, Named, Admits]
  | insertAll i domain symbols => exact filled_and_iff
  | snapshot i => exact (and_self_iff).symm

end DomainCall

namespace DomainSession

variable {S : DomainSession}

/-- All names in the builders and in the snapshots are texts with at least one character. -/
structure NamesFilled (S : DomainSession) : Prop where
  builders : ∀ b ∈ S.builders, b.domains.NamesFilled
  snapshots : ∀ m ∈ S.snapshots, m.domains.NamesFilled

/-- All names and symbols in the builders, in the snapshots that may be taken of them, and in those
that were taken are texts with at least one character. -/
structure Filled (S : DomainSession) : Prop where
  builders : ∀ b ∈ S.builders, b.domains.Filled ∧ b.snapshot.domains.Filled
  snapshots : ∀ m ∈ S.snapshots, m.domains.Filled

theorem NamesFilled.filled (h : S.NamesFilled) (hS : S.AllSound) : S.Filled where
  builders b hb :=
    ⟨(h.builders b hb).filled (hS.builders b hb),
      (h.builders b hb).frozen.filled (hS.builders b hb).frozen⟩
  snapshots m hm := by
    obtain ⟨d, hd, rfl⟩ := hS.snapshots m hm
    exact (h.snapshots _ hm).filled hd.frozen

theorem namesFilled_append_iff (h : S.NamesFilled) {b : DomainBuilder} :
    NamesFilled { S with builders := S.builders ++ [b] } ↔ b.domains.NamesFilled := by
  constructor
  · exact fun h' => h'.builders b (List.mem_append_right _ (List.mem_singleton_self b))
  · intro hb
    refine ⟨fun b' hb' => ?_, h.snapshots⟩
    rcases List.mem_append.1 hb' with hb' | hb'
    · exact h.builders b' hb'
    · exact List.mem_singleton.1 hb' ▸ hb

theorem namesFilled_set_iff (h : S.NamesFilled) {i : Nat} {b b' : DomainBuilder}
    (hb : S.builders[i]? = some b) :
    NamesFilled { S with builders := S.builders.set i b' } ↔ b'.domains.NamesFilled := by
  have hi : i < S.builders.length := (List.getElem?_eq_some_iff.1 hb).1
  constructor
  · exact fun h' => h'.builders b' (List.mem_set hi b')
  · intro hb'
    refine ⟨fun b'' hb'' => ?_, h.snapshots⟩
    rcases List.mem_or_eq_of_mem_set hb'' with hb'' | rfl
    · exact h.builders b'' hb''
    · exact hb'

/-- **An admitted call keeps all names filled if and only if it names domains properly.** -/
theorem namesFilled_perform_iff (h : S.NamesFilled) {call : DomainCall}
    (hi : call.Among S.builders.length) (hadmitted : call.Admitted) :
    (S.perform call).1.NamesFilled ↔ call.Named := by
  cases call with
  | new => exact iff_of_true ((namesFilled_append_iff h).2 nofun) trivial
  | seed d =>
    rw [perform_seed S hadmitted, namesFilled_append_iff h,
      DomainBuilder.namesFilled_addEntries_iff, and_iff_right nofun]
    simp only [Domains.frozen, Table.mapWithKey, List.forall_mem_map]
    refine forall₂_congr fun e he => ?_
    exact (DomainCall.filled_iff_of_admits (hadmitted e he)).trans (by rw [List.map_eq_nil_iff])
  | insert i domain symbol =>
    have hb : S.builders[i]? = some S.builders[i] := List.getElem?_eq_getElem hi
    rw [perform_insert hb hadmitted, namesFilled_set_iff h hb, DomainBuilder.namesFilled_add_iff]
    exact iff_of_true
      ⟨h.builders _ (List.getElem_mem hi), (hadmitted symbol (List.mem_singleton_self _)).1⟩ trivial
  | insertAll i domain symbols =>
    have hb : S.builders[i]? = some S.builders[i] := List.getElem?_eq_getElem hi
    rw [perform_insertAll hb hadmitted, namesFilled_set_iff h hb,
      DomainBuilder.namesFilled_add_iff, and_iff_right (h.builders _ (List.getElem_mem hi))]
    exact DomainCall.filled_iff_of_admits hadmitted
  | snapshot i =>
    have hb : S.builders[i]? = some S.builders[i] := List.getElem?_eq_getElem hi
    rw [perform_snapshot hb]
    refine iff_of_true ⟨h.builders, fun m hm => ?_⟩ trivial
    rcases List.mem_append.1 hm with hm | hm
    · exact h.snapshots m hm
    · rw [List.mem_singleton.1 hm]
      exact (h.builders _ (List.getElem_mem hi)).frozen

theorem NamesFilled.perform (h : S.NamesFilled) {call : DomainCall} (hnamed : call.Named) :
    (S.perform call).1.NamesFilled := by
  by_cases hi : call.Among S.builders.length
  · by_cases hadmitted : call.Admitted
    · exact (namesFilled_perform_iff h hi hadmitted).2 hnamed
    · obtain ⟨e, he⟩ := perform_of_not_admitted hi hadmitted
      rw [he]
      exact h
  · rw [perform_of_not_among hi]
    exact h

theorem NamesFilled.after (calls : List DomainCall) (hnamed : ∀ call ∈ calls, call.Named) :
    ∀ {S : DomainSession}, S.NamesFilled → (S.after calls).NamesFilled := by
  induction calls with
  | nil => exact id
  | cons call calls ih =>
    obtain ⟨hcall, hrest⟩ := List.forall_mem_cons.1 hnamed
    exact fun h => ih hrest (h.perform hcall)

/-- **Where no call brings a domain without symbols under a name that is not a text with at least
one character, no such name and no such symbol gets in**, and the calls that bring one are
refused. -/
theorem filled_of_named (calls : List DomainCall) (h : ∀ call ∈ calls, call.Named) :
    (start.after calls).Filled ∧
      ∀ call : DomainCall, call.Among (start.after calls).builders.length → call.Named →
        ((∃ e, ((start.after calls).perform call).2 = .refused e) ↔ ¬ call.Proper) := by
  have hnames : (start.after calls).NamesFilled := NamesFilled.after calls h ⟨nofun, nofun⟩
  refine ⟨hnames.filled (allSound_start.after calls), fun call hi hnamed => ?_⟩
  rw [refused_iff hi, DomainCall.proper_iff, and_iff_left hnamed]

/-- A builder with two symbols, to which the domain with the empty name is offered, and a known
domain without symbols. -/
def timeCalls : List DomainCall :=
  [.new, .insertAll 0 (.text "time") [.text "1", .text "2"], .insert 0 (.text "") (.text "3"),
    .insertAll 0 (.text "time") []]

theorem filled_timeCalls :
    (∀ call ∈ timeCalls, call.Named) ∧ (start.after timeCalls).Filled ∧
      ∃ e, ((start.after timeCalls).perform (.insert 0 (.text "") (.text "3"))).2 = .refused e := by
  have hnamed : ∀ call ∈ timeCalls, call.Named := by
    simp [timeCalls, DomainCall.Named, Scalar.isFilledText]
  obtain ⟨hfilled, hrefused⟩ := filled_of_named timeCalls hnamed
  have hi : (start.after timeCalls).builders.length = 1 := by decide
  refine ⟨hnamed, hfilled, (hrefused (.insert 0 (.text "") (.text "3")) ?_ trivial).2 ?_⟩
  · rw [hi]
    exact Nat.zero_lt_one
  · simp [DomainCall.Proper, Scalar.isFilledText]

/-- **A batch without symbols makes a domain known under the empty name**, and then not all names
are texts with at least one character. -/
theorem keys_after_emptyBatch :
    ((start.after [.new]).perform (.insertAll 0 (.text "") [])).2 = .added 0 ∧
      ((start.after [.new, .insertAll 0 (.text "") []]).builders.map fun b => b.domains.keys) =
        [[.text ""]] ∧
      ¬ (start.after [.new, .insertAll 0 (.text "") []]).Filled := by
  refine ⟨rfl, rfl, fun h => ?_⟩
  have hkeys := (h.builders _ List.mem_cons_self).1.names (.text "") List.mem_cons_self
  exact absurd hkeys (by decide)

end DomainSession

end MarkovLogic
