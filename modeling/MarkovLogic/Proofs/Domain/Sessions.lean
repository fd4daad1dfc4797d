import MarkovLogic.Proofs.Domain.Snapshots

/-!
# Sessions with builders

In a session builders are made, empty or from a map, are given symbols and are asked for snapshots,
all in any order, and calls may be refused (`DomainSession.perform`). Beside the session stands one
log for each builder, in which the symbols of the admitted calls are written down
(`DomainCall.log`).

A call whose symbols are admitted has its effect (`perform_insertAll` and its like) and any other
call leaves the session as it was (`perform_of_not_admitted`). So each builder follows its log
(`Follows.perform`), and as calls change a session in few ways only (`Change`), builders grow and
snapshots last (`Change.extends`). `domainSession_accounts` is what this says about a run of calls.
-/

namespace MarkovLogic

open DomainBuilder (Admits Sound logged)

/-! ## Calls -/

/-- A call that makes a builder or that concerns one of the builders, which are numbered from 0 as
they are made. -/
inductive DomainCall where
  | new
  | seed (d : Domains)
  | insert (builder : Nat) (domain symbol : Scalar)
  | insertAll (builder : Nat) (domain : Scalar) (symbols : List Scalar)
  | snapshot (builder : Nat)

/-- What a call reports. -/
inductive DomainReply where
  | made
  | inserted (new : Bool)
  | added (count : Nat)
  | taken
  | refused (e : DomainError)
  | absent
deriving DecidableEq, Repr

/-- The report of a call on a builder: what it returned, or why it was refused. -/
def DomainReply.ofResult {α : Type} (report : α → DomainReply) : Except DomainError α → DomainReply
  | .ok a => report a
  | .error e => .refused e

namespace DomainCall

/-- The builder that the call is about, if any, is one of the first `n`. -/
def Among (n : Nat) : DomainCall → Prop
  | .new => True
  | .seed _ => True
  | .insert i _ _ => i < n
  | .insertAll i _ _ => i < n
  | .snapshot i => i < n

/-- Every symbol that the call brings is admitted. -/
def Admitted : DomainCall → Prop
  | .new => True
  | .seed d => Sound d
  | .insert _ domain symbol => Admits domain [symbol]
  | .insertAll _ domain symbols => Admits domain symbols
  | .snapshot _ => True

instance : DecidablePred Admitted
  | .new => isTrue trivial
  | .seed d => inferInstanceAs (Decidable (Sound d))
  | .insert _ domain symbol => inferInstanceAs (Decidable (Admits domain [symbol]))
  | .insertAll _ domain symbols => inferInstanceAs (Decidable (Admits domain symbols))
  | .snapshot _ => isTrue trivial

/-- The symbols of a domain as a log has them. -/
def entries (domain : Scalar) (symbols : List String) : List (Scalar × String) :=
  symbols.map fun s => (domain, s)

/-- The logs of the builders with what a call brings written down. A map brings the symbols of each
of its domains in ascending order. -/
def write (logs : List (List (Scalar × String))) : DomainCall → List (List (Scalar × String))
  | .new => logs ++ [[]]
  | .seed d => logs ++ [d.toList.flatMap fun e => entries e.1 (sortSymbols e.2)]
  | .insert i domain symbol =>
    logs.modify i (· ++ entries domain ([symbol].filterMap Scalar.text?))
  | .insertAll i domain symbols =>
    logs.modify i (· ++ entries domain (symbols.filterMap Scalar.text?))
  | .snapshot _ => logs

/-- The logs of the builders after a call; a call that is not admitted leaves no trace. -/
def log (logs : List (List (Scalar × String))) (call : DomainCall) :
    List (List (Scalar × String)) :=
  if call.Admitted then call.write logs else logs

/-- There is no log for a builder that is not there. -/
theorem write_of_not_among {logs : List (List (Scalar × String))} {call : DomainCall}
    (h : ¬ call.Among logs.length) : call.write logs = logs := by
  cases call with
  | new => exact absurd trivial h
  | seed d => exact absurd trivial h
  | insert i domain symbol => exact List.modify_eq_self (Nat.le_of_not_lt h)
  | insertAll i domain symbols => exact List.modify_eq_self (Nat.le_of_not_lt h)
  | snapshot i => rfl

/-- The logs after a run of calls. -/
def logs (calls : List DomainCall) : List (List (Scalar × String)) :=
  calls.foldl log []

end DomainCall

/-- The builders and the snapshots that were taken of them, each in the order of their making. -/
structure DomainSession where
  builders : List DomainBuilder
  snapshots : List DomainMap

namespace DomainSession

/-- The session before the first call. -/
def start : DomainSession := ⟨[], []⟩

/-- The session with a builder replaced by what a call leaves of it, and the report. -/
def update {α : Type} (S : DomainSession) (i : Nat)
    (call : DomainBuilder → DomainBuilder × Except DomainError α) (report : α → DomainReply) :
    DomainSession × DomainReply :=
  match S.builders[i]? with
  | none => (S, .absent)
  | some b => ({ S with builders := S.builders.set i (call b).1 }, .ofResult report (call b).2)

/-- The session after a call, and the report. -/
def perform (S : DomainSession) : DomainCall → DomainSession × DomainReply
  | .new => ({ S with builders := S.builders ++ [.empty] }, .made)
  | .seed d =>
    match DomainBuilder.ofDomainMap (.ofDomains d) with
    | .ok b => ({ S with builders := S.builders ++ [b] }, .made)
    | .error e => (S, .refused e)
  | .insert i domain symbol =>
    S.update i (fun b => b.tryInsert domain symbol) .inserted
  | .insertAll i domain symbols =>
    S.update i (fun b => b.tryInsertAll domain symbols) .added
  | .snapshot i =>
    match S.builders[i]? with
    | none => (S, .absent)
    | some b => ({ S with snapshots := S.snapshots ++ [b.snapshot] }, .taken)

/-- The session after a run of calls. -/
def after (S : DomainSession) (calls : List DomainCall) : DomainSession :=
  calls.foldl (fun S call => (S.perform call).1) S

variable {S S' : DomainSession} {i : Nat} {b : DomainBuilder}

/-! ## What a call does -/

section Update

variable {α : Type} {call : DomainBuilder → DomainBuilder × Except DomainError α}
  {report : α → DomainReply}

theorem update_of_none (hi : S.builders[i]? = none) : S.update i call report = (S, .absent) := by
  simp only [update, hi]

theorem update_of_some (hb : S.builders[i]? = some b) : S.update i call report =
    ({ S with builders := S.builders.set i (call b).1 }, .ofResult report (call b).2) := by
  simp only [update, hb]

/-- A call that is refused and leaves its builder as it was leaves the session as it was. -/
theorem update_of_refused (hb : S.builders[i]? = some b) {e : DomainError}
    (hcall : call b = (b, .error e)) : S.update i call report = (S, .refused e) := by
  obtain ⟨hi, rfl⟩ := List.getElem?_eq_some_iff.1 hb
  rw [update_of_some hb, hcall, List.set_getElem_self]
  rfl

end Update

theorem perform_seed (S : DomainSession) {d : Domains} (h : Sound d) :
    S.perform (.seed d) =
      ({ S with builders := S.builders ++ [DomainBuilder.empty.addEntries d.frozen.toList] },
        .made) := by
  have hok : DomainBuilder.ofDomainMap (.ofDomains d) =
      .ok (DomainBuilder.empty.addEntries d.frozen.toList) :=
    DomainBuilder.ofDomainMap_eq_ok_iff.2 ⟨h.frozen, rfl⟩
  simp only [perform, hok]

theorem perform_insertAll {domain : Scalar} {symbols : List Scalar}
    (hb : S.builders[i]? = some b) (h : Admits domain symbols) :
    S.perform (.insertAll i domain symbols) =
      ({ S with builders := S.builders.set i (b.add domain (symbols.filterMap Scalar.text?)).1 },
        .added (b.add domain (symbols.filterMap Scalar.text?)).2) := by
  rw [perform, update_of_some hb, DomainBuilder.tryInsertAll_of_admits b h]
  rfl

theorem perform_insert {domain symbol : Scalar} (hb : S.builders[i]? = some b)
    (h : Admits domain [symbol]) :
    S.perform (.insert i domain symbol) =
      ({ S with builders := S.builders.set i (b.add domain ([symbol].filterMap Scalar.text?)).1 },
        .inserted (0 < (b.add domain ([symbol].filterMap Scalar.text?)).2)) := by
  rw [perform, update_of_some hb, DomainBuilder.tryInsert_eq,
    DomainBuilder.tryInsertAll_of_admits b h]
  rfl

theorem perform_snapshot (hb : S.builders[i]? = some b) :
    S.perform (.snapshot i) = ({ S with snapshots := S.snapshots ++ [b.snapshot] }, .taken) := by
  simp only [perform, hb]

/-- A call about a builder that is not there does nothing. -/
theorem perform_of_not_among {call : DomainCall} (h : ¬ call.Among S.builders.length) :
    S.perform call = (S, .absent) := by
  cases call with
  | new => exact absurd trivial h
  | seed d => exact absurd trivial h
  | insert i domain symbol =>
    exact update_of_none (List.getElem?_eq_none (Nat.le_of_not_lt h))
  | insertAll i domain symbols =>
    exact update_of_none (List.getElem?_eq_none (Nat.le_of_not_lt h))
  | snapshot i =>
    have hi : S.builders[i]? = none := List.getElem?_eq_none (Nat.le_of_not_lt h)
    simp only [perform, hi]

/-- **A call that is not admitted is refused and changes nothing.** -/
theorem perform_of_not_admitted {call : DomainCall} (hi : call.Among S.builders.length)
    (h : ¬ call.Admitted) : ∃ e, S.perform call = (S, .refused e) := by
  cases call with
  | new => exact absurd trivial h
  | seed d =>
    cases hr : DomainBuilder.ofDomainMap (.ofDomains d) with
    | error e => exact ⟨e, by simp only [perform, hr]⟩
    | ok b =>
      have hsound := (DomainBuilder.ofDomainMap_eq_ok_iff.1 hr).1
      exact absurd (DomainBuilder.sound_frozen_iff.1 hsound) h
  | insert i domain symbol =>
    obtain ⟨e, he⟩ := DomainBuilder.exists_tryInsertAll_error h
    refine ⟨e, update_of_refused (List.getElem?_eq_getElem hi) ?_⟩
    rw [DomainBuilder.tryInsert_eq, he]
    rfl
  | insertAll i domain symbols =>
    obtain ⟨e, he⟩ := DomainBuilder.exists_tryInsertAll_error h
    exact ⟨e, update_of_refused (List.getElem?_eq_getElem hi) (he _)⟩
  | snapshot i => exact absurd trivial h

/-- A call that is admitted is not refused. -/
theorem perform_ne_refused {call : DomainCall} (h : call.Admitted) (e : DomainError) :
    (S.perform call).2 ≠ .refused e := by
  by_cases hi : call.Among S.builders.length
  · cases call with
    | new => exact nofun
    | seed d =>
      rw [perform_seed S h]
      exact nofun
    | insert i domain symbol =>
      rw [perform_insert (List.getElem?_eq_getElem hi) h]
      exact nofun
    | insertAll i domain symbols =>
      rw [perform_insertAll (List.getElem?_eq_getElem hi) h]
      exact nofun
    | snapshot i =>
      rw [perform_snapshot (List.getElem?_eq_getElem hi)]
      exact nofun
  · rw [perform_of_not_among hi]
    exact nofun

/-- The ways in which calls change a session. -/
inductive Change (S : DomainSession) : DomainSession → Prop where
  | none : Change S S
  | made {b : DomainBuilder} (hb : Sound b.domains) :
      Change S { S with builders := S.builders ++ [b] }
  | grown {i : Nat} {b : DomainBuilder} {domain : Scalar} {list : List String}
      (hb : S.builders[i]? = some b) (h : Admits domain (list.map .text)) :
      Change S { S with builders := S.builders.set i (b.add domain list).1 }
  | taken {i : Nat} {b : DomainBuilder} (hb : S.builders[i]? = some b) :
      Change S { S with snapshots := S.snapshots ++ [b.snapshot] }

theorem change_perform (S : DomainSession) (call : DomainCall) : S.Change (S.perform call).1 := by
  by_cases hi : call.Among S.builders.length
  · by_cases h : call.Admitted
    · cases call with
      | new => exact .made DomainBuilder.sound_empty
      | seed d =>
        rw [perform_seed S h]
        exact .made (DomainBuilder.sound_empty.addEntries h.frozen)
      | insert i domain symbol =>
        rw [perform_insert (List.getElem?_eq_getElem hi) h]
        exact .grown (List.getElem?_eq_getElem hi) h.map_text
      | insertAll i domain symbols =>
        rw [perform_insertAll (List.getElem?_eq_getElem hi) h]
        exact .grown (List.getElem?_eq_getElem hi) h.map_text
      | snapshot i =>
        rw [perform_snapshot (List.getElem?_eq_getElem hi)]
        exact .taken (List.getElem?_eq_getElem hi)
    · obtain ⟨e, he⟩ := perform_of_not_admitted hi h
      rw [he]
      exact .none
  · rw [perform_of_not_among hi]
    exact .none

/-! ## Builders grow and snapshots last -/

/-- Every builder has grown, and the snapshots are still there. -/
structure Extends (S' S : DomainSession) : Prop where
  builders : ∀ (i : Nat) (b : DomainBuilder), S.builders[i]? = some b →
    ∃ b' : DomainBuilder, S'.builders[i]? = some b' ∧ b.Grows b'
  snapshots : S.snapshots <+: S'.snapshots

theorem Extends.refl (S : DomainSession) : S.Extends S where
  builders _ b hb := ⟨b, hb, .refl b⟩
  snapshots := List.prefix_refl _

theorem Extends.trans {S'' : DomainSession} (h' : S''.Extends S') (h : S'.Extends S) :
    S''.Extends S where
  builders i b hb := by
    obtain ⟨b', hb', hgrows⟩ := h.builders i b hb
    obtain ⟨b'', hb'', hgrows'⟩ := h'.builders i b' hb'
    exact ⟨b'', hb'', hgrows.trans hgrows'⟩
  snapshots := h.snapshots.trans h'.snapshots

/-- **A step of the session extends it.** -/
theorem Change.extends (h : S.Change S') : S'.Extends S := by
  cases h with
  | none => exact .refl S
  | @made b hb =>
    refine ⟨fun j b' hb' => ⟨b', ?_, .refl b'⟩, List.prefix_refl _⟩
    exact (List.getElem?_append_left (List.getElem?_eq_some_iff.1 hb').1).trans hb'
  | @grown i b domain list hb h =>
    refine ⟨fun j b' hb' => ?_, List.prefix_refl _⟩
    obtain ⟨hj, hget⟩ := List.getElem?_eq_some_iff.1 hb'
    by_cases hij : i = j
    · subst hij
      obtain rfl : b = b' := Option.some.inj (hb.symm.trans hb')
      exact ⟨_, List.getElem?_set_self hj, DomainBuilder.grows_add b domain list⟩
    · exact ⟨b', (List.getElem?_set_ne hij).trans hb', .refl b'⟩
  | @taken i b hb => exact ⟨fun j b' hb' => ⟨b', hb', .refl b'⟩, List.prefix_append _ _⟩

theorem extends_after (calls : List DomainCall) :
    ∀ S : DomainSession, (S.after calls).Extends S := by
  induction calls with
  | nil => exact Extends.refl
  | cons call calls ih => exact fun S => (ih _).trans (S.change_perform call).extends

/-! ## Builders follow their logs -/

/-- Every builder follows its log. -/
def Follows (S : DomainSession) (logs : List (List (Scalar × String))) : Prop :=
  List.Forall₂ DomainBuilder.Follows S.builders logs

theorem forall₂_set_modify {α β : Type} {R : α → β → Prop} {xs : List α} {ys : List β}
    (h : List.Forall₂ R xs ys) {i : Nat} {x' : α} {g : β → β}
    (hi : ∀ x y, xs[i]? = some x → R x y → R x' (g y)) :
    List.Forall₂ R (xs.set i x') (ys.modify i g) := by
  induction h generalizing i with
  | nil => simp
  | cons hxy hrest ih =>
    cases i with
    | zero => simpa using ⟨hi _ _ rfl hxy, hrest⟩
    | succ i => simpa using ⟨hxy, ih hi⟩

theorem Follows.append {logs : List (List (Scalar × String))} (h : S.Follows logs)
    {log : List (Scalar × String)} (hb : b.Follows log) :
    DomainSession.Follows { S with builders := S.builders ++ [b] } (logs ++ [log]) :=
  List.rel_append h (.cons hb .nil)

theorem Follows.grown {logs : List (List (Scalar × String))} (h : S.Follows logs)
    (hb : S.builders[i]? = some b) {domain : Scalar} {list : List String}
    (hadmits : Admits domain (list.map .text)) :
    DomainSession.Follows { S with builders := S.builders.set i (b.add domain list).1 }
      (logs.modify i (· ++ DomainCall.entries domain list)) := by
  refine forall₂_set_modify h fun b' log hb' hfollows => ?_
  obtain rfl : b = b' := Option.some.inj (hb.symm.trans hb')
  exact hfollows.add hadmits

theorem Follows.length_eq {logs : List (List (Scalar × String))} (h : S.Follows logs) :
    logs.length = S.builders.length :=
  (List.Forall₂.length_eq h).symm

/-- An admitted call and its log entries keep every builder following its log. -/
theorem Follows.write {logs : List (List (Scalar × String))} (h : S.Follows logs)
    {call : DomainCall} (hi : call.Among S.builders.length) (hadmitted : call.Admitted) :
    (S.perform call).1.Follows (call.write logs) := by
  cases call with
  | new => exact h.append DomainBuilder.follows_empty
  | seed d =>
    rw [perform_seed S hadmitted]
    refine h.append ?_
    have hsorted : ∀ e ∈ d.toList.map fun e => (e.1, sortSymbols e.2),
        Admits e.1 (e.2.map .text) := by
      intro e he
      obtain ⟨e', he', rfl⟩ := List.mem_map.1 he
      exact DomainBuilder.admits_congr (fun s => mem_sortSymbols) (hadmitted e' he')
    have hfollows := DomainBuilder.follows_empty.addEntries hsorted
    rw [List.nil_append, List.flatMap_map] at hfollows
    rw [DomainBuilder.addEntries_frozen]
    exact hfollows
  | insert i domain symbol =>
    rw [perform_insert (List.getElem?_eq_getElem hi) hadmitted]
    exact h.grown (List.getElem?_eq_getElem hi) hadmitted.map_text
  | insertAll i domain symbols =>
    rw [perform_insertAll (List.getElem?_eq_getElem hi) hadmitted]
    exact h.grown (List.getElem?_eq_getElem hi) hadmitted.map_text
  | snapshot i =>
    rw [perform_snapshot (List.getElem?_eq_getElem hi)]
    exact h

/-- **A call and what is logged of it keep every builder following its log.** -/
theorem Follows.perform {logs : List (List (Scalar × String))} (h : S.Follows logs)
    (call : DomainCall) : (S.perform call).1.Follows (call.log logs) := by
  unfold DomainCall.log
  by_cases hi : call.Among S.builders.length
  · split
    · next hadmitted => exact h.write hi hadmitted
    · next hadmitted =>
      obtain ⟨e, he⟩ := perform_of_not_admitted hi hadmitted
      rw [he]
      exact h
  · rw [perform_of_not_among hi, DomainCall.write_of_not_among (by rwa [h.length_eq]), ite_self]
    exact h

theorem Follows.after (calls : List DomainCall) :
    ∀ {S : DomainSession} {logs : List (List (Scalar × String))}, S.Follows logs →
      (S.after calls).Follows (calls.foldl DomainCall.log logs) := by
  induction calls with
  | nil => exact id
  | cons call calls ih => exact fun h => ih (h.perform call)

theorem follows_logs (calls : List DomainCall) :
    (start.after calls).Follows (DomainCall.logs calls) :=
  Follows.after calls .nil

/-- The log of a builder. -/
theorem Follows.exists_log {logs : List (List (Scalar × String))} (h : S.Follows logs)
    {log : List (Scalar × String)} (hlog : logs[i]? = some log) :
    ∃ b, S.builders[i]? = some b ∧ b.Follows log := by
  obtain ⟨hi, rfl⟩ := List.getElem?_eq_some_iff.1 hlog
  have hi' : i < S.builders.length := h.length_eq ▸ hi
  exact ⟨S.builders[i], List.getElem?_eq_getElem hi', List.Forall₂.get h hi' hi⟩

/-! ## Only admitted symbols -/

/-- The builders, and those of which the snapshots were taken, hold admitted symbols only. -/
structure AllSound (S : DomainSession) : Prop where
  builders : ∀ b ∈ S.builders, Sound b.domains
  snapshots : ∀ m ∈ S.snapshots, ∃ d, Sound d ∧ m = .ofDomains d

theorem allSound_start : start.AllSound := ⟨nofun, nofun⟩

theorem AllSound.of_change (h : S.AllSound) (hchange : S.Change S') : S'.AllSound := by
  cases hchange with
  | none => exact h
  | made hb =>
    refine ⟨fun b' hb' => ?_, h.snapshots⟩
    rcases List.mem_append.1 hb' with hb' | hb'
    · exact h.builders b' hb'
    · exact List.mem_singleton.1 hb' ▸ hb
  | grown hb hadmits =>
    refine ⟨fun b' hb' => ?_, h.snapshots⟩
    rcases List.mem_or_eq_of_mem_set hb' with hb' | rfl
    · exact h.builders b' hb'
    · exact (h.builders _ (List.mem_of_getElem? hb)).add hadmits
  | taken hb =>
    refine ⟨h.builders, fun m hm => ?_⟩
    rcases List.mem_append.1 hm with hm | hm
    · exact h.snapshots m hm
    · exact ⟨_, h.builders _ (List.mem_of_getElem? hb), List.mem_singleton.1 hm⟩

theorem AllSound.after (calls : List DomainCall) :
    ∀ {S : DomainSession}, S.AllSound → (S.after calls).AllSound := by
  induction calls with
  | nil => exact id
  | cons call calls ih => exact fun {S} h => ih (h.of_change (S.change_perform call))

/-! ## Runs of calls -/

/-- **A call is refused if and only if it is not admitted.** -/
theorem refused_iff {call : DomainCall} (hi : call.Among S.builders.length) :
    (∃ e, (S.perform call).2 = .refused e) ↔ ¬ call.Admitted := by
  constructor
  · rintro ⟨e, he⟩ h
    exact perform_ne_refused h e he
  · intro h
    obtain ⟨e, he⟩ := perform_of_not_admitted hi h
    exact ⟨e, congrArg Prod.snd he⟩

theorem fst_perform_of_refused {call : DomainCall} {e : DomainError}
    (h : (S.perform call).2 = .refused e) : (S.perform call).1 = S := by
  by_cases hi : call.Among S.builders.length
  · obtain ⟨e', he'⟩ := perform_of_not_admitted hi ((refused_iff hi).1 ⟨e, h⟩)
    rw [he']
  · rw [perform_of_not_among hi]

/-- A builder seeded from a snapshot extends it, now and later. -/
theorem AllSound.exists_seeded (h : S.AllSound) {m : DomainMap} (hm : m ∈ S.snapshots)
    (later : List DomainCall) :
    ∃ b : DomainBuilder,
      (S.after (.seed m.domains :: later)).builders[S.builders.length]? = some b ∧
        b.snapshot.Extends m := by
  obtain ⟨d, hd, rfl⟩ := h.snapshots m hm
  have hseed := perform_seed S hd.frozen
  have hlast : (S.perform (.seed d.frozen)).1.builders[S.builders.length]? =
      some (DomainBuilder.empty.addEntries d.frozen.frozen.toList) := by
    rw [hseed]
    exact List.getElem?_concat_length
  obtain ⟨b, hb, hgrows⟩ := (extends_after later _).builders _ _ hlast
  refine ⟨b, hb, hgrows.extends_snapshot.trans ?_⟩
  have hfrozen : d.frozen.frozen = d.frozen :=
    congrArg DomainMap.domains (DomainMap.ofDomains_domains d)
  rw [hfrozen]
  exact DomainBuilder.extends_addEntries _ (.ofDomains d)

/-- The builders of the session agree with their logs, and the next call and all later ones do with
them what they should. -/
structure Accounts (S : DomainSession) (logs : List (List (Scalar × String))) : Prop where
  /-- The builders tell what the logs have. -/
  agree : List.Forall₂ DomainBuilder.Agrees S.builders logs
  /-- Of one symbol it is told whether it was new. -/
  inserted : ∀ i log domain s, logs[i]? = some log → Admits domain [.text s] →
    (S.perform (.insert i domain (.text s))).2 = .inserted (decide (s ∉ logged log domain))
  /-- Of a batch it is told by how much the domain has grown. -/
  added : ∀ i log domain symbols, logs[i]? = some log → Admits domain symbols →
    ∃ n, (S.perform (.insertAll i domain symbols)).2 = .added n ∧
      (logged (log ++ DomainCall.entries domain (symbols.filterMap Scalar.text?)) domain).length =
        (logged log domain).length + n
  /-- The calls that are refused are those that bring a symbol that is not admitted. -/
  refused : ∀ call : DomainCall, call.Among S.builders.length →
    ((∃ e, (S.perform call).2 = .refused e) ↔ ¬ call.Admitted)
  /-- A refused call changes nothing. -/
  unchanged : ∀ call e, (S.perform call).2 = .refused e → (S.perform call).1 = S
  /-- A snapshot is what the builder holds. -/
  taken : ∀ (i : Nat) (b : DomainBuilder), S.builders[i]? = some b →
    (S.perform (.snapshot i)).1 = { S with snapshots := S.snapshots ++ [b.snapshot] }
  /-- Snapshots stay as they are. -/
  lasting : ∀ later, S.snapshots <+: (S.after later).snapshots
  /-- A later snapshot of a builder extends an earlier one. -/
  growing : ∀ later (i : Nat) (b : DomainBuilder), S.builders[i]? = some b →
    ∃ b' : DomainBuilder, (S.after later).builders[i]? = some b' ∧
      b'.snapshot.Extends b.snapshot
  /-- A snapshot seeds a builder, and all snapshots of that builder extend it. -/
  seeded : ∀ later, ∀ m ∈ S.snapshots,
    DomainMap.ofDomains m.domains = m ∧
      ∃ b : DomainBuilder,
        (S.after (.seed m.domains :: later)).builders[S.builders.length]? = some b ∧
          b.snapshot.Extends m

/-- **Whatever calls are made, in whatever order and with whatever arguments, the builders keep
account of what was admitted.** -/
theorem domainSession_accounts (calls : List DomainCall) :
    (start.after calls).Accounts (DomainCall.logs calls) := by
  have hfollows := follows_logs calls
  have hsound : (start.after calls).AllSound := allSound_start.after calls
  constructor
  case agree => exact List.Forall₂.imp (fun _ _ h => h.agrees) hfollows
  case inserted =>
    intro i log domain s hlog h
    obtain ⟨b, hb, hlogged⟩ := hfollows.exists_log hlog
    rw [perform_insert hb h, ← hlogged domain]
    exact congrArg DomainReply.inserted (decide_eq_decide.2 DomainBuilder.add_singleton_pos_iff)
  case added =>
    intro i log domain symbols hlog h
    obtain ⟨b, hb, hlogged⟩ := hfollows.exists_log hlog
    refine ⟨_, congrArg Prod.snd (perform_insertAll hb h), ?_⟩
    have hadded := (hlogged.add h.map_text) domain
    rw [DomainCall.entries, ← hadded, ← hlogged domain, DomainBuilder.length_symbols_add]
  case refused => exact fun call hi => refused_iff hi
  case unchanged => exact fun call e h => fst_perform_of_refused h
  case taken => exact fun i b hb => congrArg Prod.fst (perform_snapshot hb)
  case lasting => exact fun later => (extends_after later _).snapshots
  case growing =>
    intro later i b hb
    obtain ⟨b', hb', hgrows⟩ := (extends_after later _).builders i b hb
    exact ⟨b', hb', hgrows.extends_snapshot⟩
  case seeded =>
    intro later m hm
    refine ⟨?_, hsound.exists_seeded hm later⟩
    obtain ⟨d, -, rfl⟩ := hsound.snapshots m hm
    exact DomainMap.ofDomains_domains d

end DomainSession

end MarkovLogic
