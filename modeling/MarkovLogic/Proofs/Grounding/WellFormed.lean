import MarkovLogic.Proofs.AtomSpace.Existence
import MarkovLogic.Proofs.Grounding.NormalForm
import MarkovLogic.Proofs.Grounding.Valuations
import Mathlib

/-!
# Well-formed problems

A problem is well-formed when its open predicates range over known domains, its terms fit the places
they stand in, and its symbols are names of constants (`Problem.WellFormed`). Nothing is asked of
the evidence except that it is not about open predicates. A well-formed problem can always be ground
(`Problem.exists_ground_of_wellFormed`): each loop of the grounding succeeds at each of its steps,
and neither the network nor the recorded dependencies are refused.
-/

namespace MarkovLogic

/-- The symbol is one that a constant can have: an identifier that does not start lowercase. -/
def NamesConstant (s : String) : Prop :=
  ∃ i : Identifier, i.text = s ∧ i.startsLower = false

namespace Problem

/-- Whatever symbol the term takes is in the domain. -/
def Fits (domains : Domains) : Term → Option String → Prop
  | .const c, d => c.symbol.text ∈ domains.symbols (.ofOption d)
  | .var v, d =>
    ∀ s ∈ domains.symbols (.ofOption v.domain), s ∈ domains.symbols (.ofOption d)
  | .app .., _ => False

/-- The parts of the problem fit together. -/
structure WellFormed (p : Problem Number) : Prop where
  disjoint : ∀ s ∈ p.query, s ∉ p.hidden
  schema : ∀ s ∈ p.query ++ p.hidden, ∃ places, p.schema.get? s = some places ∧
    AtomSpace.KnownDomains p.domains places
  evidence : ∀ s ∈ p.evidence.keys, s ∉ p.query ∧ s ∉ p.hidden
  plain : ∀ c ∈ p.clauses, ∀ l ∈ c.literals, ∀ t ∈ l.atom.terms, ∀ f args d, t ≠ .app f args d
  ranges : ∀ c ∈ p.clauses, ∀ v ∈ c.vars, ∃ name list, v.domain = some name ∧
    p.domains.symbols? (.text name) = some list ∧ ∀ s ∈ list, NamesConstant s
  /-- The literals of open predicates fill the places of the schema. -/
  arguments : ∀ c ∈ p.clauses, ∀ l ∈ c.literals, l.atom.signature ∈ p.query ++ p.hidden →
    ∃ places, p.schema.get? l.atom.signature = some places ∧
      List.Forall₂ (Fits p.domains) l.atom.terms places
  weights : ∀ c ∈ p.clauses, ∀ w, c.weight = some w → ∃ x, w = .real x
  weightHard : ∀ w, p.options.weightHard = some w → ∃ x, w = .real x

/-! ## Terms without functions -/

theorem functions_eq_nil {a : Atom} (h : ∀ t ∈ a.terms, ∀ f args d, t ≠ .app f args d) :
    a.functions = [] := by
  unfold Atom.functions
  rw [List.filter_eq_nil_iff.2 fun u hu => ?_]
  · rfl
  · obtain ⟨t, ht, hu⟩ := List.mem_flatMap.1 hu
    cases t with
    | const c =>
      obtain rfl := List.mem_singleton.1 hu
      simp
    | var v =>
      obtain rfl := List.mem_singleton.1 hu
      simp
    | app f args d => exact absurd rfl (h _ ht f args d)

variable {α : Type}

theorem mem_vars_of_mem_terms {c : Clause α} {l : Literal} (hl : l ∈ c.literals) {v : Variable}
    (hv : Term.var v ∈ l.atom.terms) : v ∈ c.vars := by
  rw [Clause.vars, mem_distinct]
  refine List.mem_flatMap.2 ⟨l, hl, ?_⟩
  rw [Atom.vars, mem_distinct]
  exact List.mem_filterMap.2 ⟨.var v, List.mem_flatMap.2 ⟨_, hv, List.mem_singleton_self _⟩, rfl⟩

/-! ## Assignments -/

theorem exists_constant {s : String} (h : NamesConstant s) (domain : Option String) :
    ∃ c, Term.constant (.text s) domain = .ok c := by
  obtain ⟨i, hi, hlower⟩ := h
  exact ⟨_, hi ▸ Term.constant_text hlower domain⟩

theorem exists_assign {vars : List Variable} {tuple : List String}
    (h : ∀ s ∈ tuple, NamesConstant s) :
    ∃ assignment, assign (α := α) vars tuple = .ok assignment := by
  refine exists_mapM_of_forall fun e he => ?_
  obtain ⟨c, hc⟩ := exists_constant (h e.2 (List.of_mem_zip he).2) e.1.domain
  exact ⟨(e.1, c), map_eq_ok_iff.2 ⟨c, mapError_eq_ok_iff.2 hc, rfl⟩⟩

theorem exists_variablePools {p : Problem α} {c : Clause α}
    (hplain : ∀ l ∈ c.literals, ∀ t ∈ l.atom.terms, ∀ f args d, t ≠ .app f args d)
    (hknown : ∀ v ∈ c.vars, ∃ name list, v.domain = some name ∧
      p.domains.symbols? (.text name) = some list) :
    ∃ pools, p.variablePools c = .ok pools := by
  have hfunctions : c.literals.find? (fun l => !l.atom.functions.isEmpty) = none := by
    rw [List.find?_eq_none]
    intro l hl
    simp [functions_eq_nil (hplain l hl)]
  unfold variablePools
  rw [hfunctions]
  refine exists_mapM_of_forall fun v hv => ?_
  obtain ⟨name, list, hname, hlist⟩ := hknown v (c.orderedVariables_perm.mem_iff.1 hv)
  rw [pool?, hname]
  simp only [hlist, Option.map_some]
  exact ⟨_, rfl⟩

theorem exists_symbolOf? {domains : Domains} {vars : List Variable} {tuple : List String}
    {assignment : Assignment} (h : assign (α := α) vars tuple = .ok assignment)
    (htuple : List.Forall₂ (fun s v => s ∈ domains.symbols (.ofOption v.domain)) tuple vars)
    {v : Variable} (hv : v ∈ vars) :
    ∃ s ∈ domains.symbols (.ofOption v.domain), symbolOf? assignment (.var v) = some s := by
  -- the assignment pairs variables and symbols, so no variable is left without an entry
  have hpairs := assign_eq h
  rw [symbolOf?]
  cases he : assignment.find? (fun e => e.1 = v) with
  | none =>
    have hfst : assignment.map Prod.fst = vars := by
      have hmap := congrArg (List.map Prod.fst) hpairs
      rw [List.map_map, List.map_fst_zip htuple.length_eq.ge] at hmap
      exact hmap
    rw [← hfst] at hv
    obtain ⟨e, hmem, rfl⟩ := List.mem_map.1 hv
    exact absurd (List.find?_eq_none.1 he e hmem) (by simp)
  | some e =>
    have hev : e.1 = v := by simpa using List.find?_some he
    have hzip : (v, e.2.symbol.text) ∈ vars.zip tuple := by
      rw [← hpairs, ← hev]
      exact List.mem_map_of_mem (List.mem_of_find?_eq_some he)
    exact ⟨_, List.forall₂_zip htuple.flip hzip, rfl⟩

/-- Each term takes a symbol, and those of a fitting term lie in the domain of its place. -/
theorem exists_tuple {domains : Domains} {assignment : Assignment} {terms : List Term}
    (hplain : ∀ t ∈ terms, ∀ f args d, t ≠ .app f args d)
    (hassigned : ∀ v, .var v ∈ terms → ∃ s ∈ domains.symbols (.ofOption v.domain),
      symbolOf? assignment (.var v) = some s) :
    ∃ tuple, terms.mapM (symbolOf? assignment) = some tuple ∧
      ∀ {places}, List.Forall₂ (Fits domains) terms places →
        List.Forall₂ (fun s d => s ∈ domains.symbols (.ofOption d)) tuple places := by
  induction terms with
  | nil =>
    refine ⟨[], rfl, fun hfit => ?_⟩
    cases hfit
    exact .nil
  | cons t terms ih =>
    obtain ⟨ht, hplain⟩ := List.forall_mem_cons.1 hplain
    obtain ⟨tuple, htuple, hrest⟩ := ih hplain fun v hv => hassigned v (List.mem_cons_of_mem _ hv)
    obtain ⟨s, hs, hfit⟩ : ∃ s, symbolOf? assignment t = some s ∧
        ∀ d, Fits domains t d → s ∈ domains.symbols (.ofOption d) := by
      cases t with
      | const c => exact ⟨_, rfl, fun d hd => hd⟩
      | var v =>
        obtain ⟨s, hmem, hs⟩ := hassigned v List.mem_cons_self
        exact ⟨s, hs, fun d hd => hd s hmem⟩
      | app f args d => exact absurd rfl (ht f args d)
    refine ⟨s :: tuple, ?_, fun hfits => ?_⟩
    · rw [List.mapM_cons, hs, htuple]
      rfl
    · cases hfits with
      | cons hd hfits => exact .cons (hfit _ hd) (hrest hfits)

/-! ## One grounding -/

theorem exists_openLiterals {p : Problem α} {space : AtomSpace} {assignment : Assignment}
    {ls : List Literal}
    (h : ∀ l ∈ ls, ∃ tuple, l.atom.terms.mapM (symbolOf? assignment) = some tuple ∧
      (space.isOpen l.atom.signature = true →
        ∃ id, space.encode l.atom.signature tuple = .ok id)) :
    ∀ found, ∃ result, p.openLiterals space assignment found ls = .ok result := by
  induction ls with
  | nil => exact fun found => ⟨_, rfl⟩
  | cons l ls ih =>
    intro found
    obtain ⟨⟨tuple, htuple, hid⟩, hrest⟩ := List.forall_mem_cons.1 h
    simp only [openLiterals, tupleOf_eq_ok_iff.2 htuple, bind, Except.bind]
    -- an open literal needs a number, any other one is decided by the evidence
    split
    · next hopen =>
      obtain ⟨id, hid⟩ := hid hopen
      rw [mapError_eq_ok_iff.2 hid]
      exact ih hrest _
    · split
      · exact ⟨none, rfl⟩
      · exact ih hrest found

theorem exists_simplify {p : Problem α} {space : AtomSpace} {assignment : Assignment}
    {c : Clause α}
    (h : ∀ l ∈ c.literals, ∃ tuple, l.atom.terms.mapM (symbolOf? assignment) = some tuple ∧
      (space.isOpen l.atom.signature = true →
        ∃ id, space.encode l.atom.signature tuple = .ok id)) :
    ∃ outcome, p.simplify space c assignment = .ok outcome := by
  obtain ⟨result, hresult⟩ := exists_openLiterals (p := p) h []
  simp only [simplify, hresult, bind, Except.bind]
  split
  · exact ⟨_, rfl⟩
  · exact ⟨_, rfl⟩
  · split
    · exact ⟨_, rfl⟩
    · exact ⟨_, rfl⟩

/-! ## All groundings -/

variable {p : Problem Number} {space : AtomSpace}

/-- **Every grounding of a well-formed problem can be simplified.** -/
theorem exists_instanceAt (h : p.WellFormed)
    (hb : AtomSpace.build p.schema p.domains p.query p.hidden = .ok space) {c : Clause Number}
    (hc : c ∈ p.clauses) {tuple : List String}
    (htuple : List.Forall₂ (fun s v => s ∈ p.domains.symbols (.ofOption v.domain)) tuple
      c.orderedVariables) (formula : Nat) :
    ∃ inst, p.instanceAt space formula c c.orderedVariables tuple = .ok inst := by
  have hnames : ∀ s ∈ tuple, NamesConstant s := by
    intro s hs
    obtain ⟨v, hv, hsv⟩ := exists_of_forall₂_right htuple.flip hs
    obtain ⟨name, list, hname, hlist, hvalid⟩ :=
      h.ranges c hc v (c.orderedVariables_perm.mem_iff.1 hv)
    rw [hname, Scalar.ofOption, Domains.symbols, hlist] at hsv
    exact hvalid s hsv
  obtain ⟨assignment, hassign⟩ : ∃ assignment,
      assign (α := Number) c.orderedVariables tuple = .ok assignment := exists_assign hnames
  obtain ⟨outcome, houtcome⟩ : ∃ outcome, p.simplify space c assignment = .ok outcome := by
    refine exists_simplify fun l hl => ?_
    obtain ⟨symbols, hsymbols, hfit⟩ := exists_tuple (h.plain c hc l hl) fun v hv =>
      exists_symbolOf? hassign htuple
        (c.orderedVariables_perm.mem_iff.2 (mem_vars_of_mem_terms hl hv))
    refine ⟨symbols, hsymbols, fun hopen => ?_⟩
    have hs := ((hasSpace_of_layout hb).isOpen_iff _).1 hopen
    obtain ⟨places, hplaces, hfits⟩ := h.arguments c hc l hl hs
    exact AtomSpace.exists_encode hb hs hplaces (hfit hfits)
  exact ⟨_, bind_eq_ok_iff.2 ⟨assignment, hassign, bind_eq_ok_iff.2 ⟨outcome, houtcome, rfl⟩⟩⟩

theorem exists_instances (h : p.WellFormed)
    (hb : AtomSpace.build p.schema p.domains p.query p.hidden = .ok space) :
    ∃ ins, p.instances space = .ok ins := by
  obtain ⟨groups, hgroups⟩ := exists_mapM_of_forall (g := p.instancesOf space)
    (l := p.clauses.zipIdx) fun ⟨c, formula⟩ hentry => by
      have hc : c ∈ p.clauses := List.mem_of_getElem? (List.mem_zipIdx_iff_getElem?.1 hentry)
      obtain ⟨pools, hpools⟩ := exists_variablePools (h.plain c hc) fun v hv => by
        obtain ⟨name, list, hname, hlist, -⟩ := h.ranges c hc v hv
        exact ⟨name, list, hname, hlist⟩
      have hvars := map_fst_pools hpools
      obtain ⟨own, hown⟩ := exists_mapM_of_forall
        (g := p.instanceAt space formula c (pools.map Prod.fst))
        (l := tuples (pools.map Prod.snd)) fun tuple htuple => by
          rw [hvars]
          exact exists_instanceAt h hb hc ((mem_tuples_pools_iff hpools).1 htuple) formula
      exact ⟨own, bind_eq_ok_iff.2 ⟨pools, hpools, hown⟩⟩
  exact ⟨_, bind_eq_ok_iff.2 ⟨groups, hgroups, rfl⟩⟩

/-- **Well-formed problems can be ground**, whatever the evidence says about closed predicates, and
what is recorded about the constraints passes the check for dependencies. -/
theorem exists_ground_of_wellFormed (h : p.WellFormed) :
    ∃ g, p.ground = .ok g ∧ (p.options.trackDependencies = true → ∃ deps,
      g.network.dependencies = some deps ∧ DependencyMap.ofEntries deps.pairs = .ok deps) := by
  obtain ⟨space, hb⟩ := AtomSpace.exists_build h.disjoint h.schema
  obtain ⟨ins, hi⟩ := exists_instances h hb
  obtain ⟨g, hg, -⟩ := exists_ground_of_instances h.evidence hb hi
    (fun e he w hw => exists_toReal_of_mem_contributions h.weights hi he hw) fun w hw => by
      obtain ⟨x, rfl⟩ := h.weightHard w hw
      exact ⟨x, rfl⟩
  refine ⟨g, hg, fun htrack => ?_⟩
  obtain ⟨ins, merged, hi, hm, hn⟩ := p.merged_of_ground hg
  exact ⟨_, (p.constraints_of_networkOf hn).2 htrack, (records_of_networkOf hi hm hn).accepted⟩

/-! ## A well-formed problem -/

/-- The domain of beings holds that of persons. -/
def personsAndBeings : Domains :=
  (DomainMap.ofDomains (Domains.ofList [(.text "person", ["Bob", "Anna"]),
    (.text "being", ["Rex", "Bob", "Anna"])])).domains

/-- Rules about who knows whom and about happiness of all beings. -/
def acquaintances : Problem Number :=
  let u : Term := .var ⟨⟨"u", by decide⟩, some "person", by decide⟩
  let w : Term := .var ⟨⟨"w", by decide⟩, some "person", by decide⟩
  let anna : Term := .const ⟨⟨"Anna", by decide⟩, none, by decide⟩
  let knows (s t : Term) : Atom := ⟨⟨"Knows", by decide⟩, [s, t]⟩
  let shy (s : Term) : Atom := ⟨⟨"Shy", by decide⟩, [s]⟩
  let happy (s : Term) : Atom := ⟨⟨"Happy", by decide⟩, [s]⟩
  { clauses := [
      ⟨[⟨knows u w, true⟩, ⟨shy u, true⟩], some (.real (-1.5)), "", by simp⟩,
      ⟨[⟨knows anna u, false⟩, ⟨happy u, true⟩], none, "", by simp⟩,
      ⟨[⟨happy anna, true⟩], some (.real 0.25), "", by simp⟩]
    schema := Table.ofList [(⟨"Knows", 2⟩, [some "person", some "person"]),
      (⟨"Happy", 1⟩, [some "being"])]
    domains := personsAndBeings
    query := [⟨"Knows", 2⟩]
    hidden := [⟨"Happy", 1⟩]
    evidence := Table.ofList [(⟨"Shy", 1⟩, [["Anna"], [], ["Nobody", "2"]])]
    options := { trackDependencies := true, noNegativeWeights := true } }

theorem symbols_personsAndBeings :
    personsAndBeings.symbols? (.text "person") = some ["Anna", "Bob"] ∧
      personsAndBeings.symbols? (.text "being") = some ["Anna", "Bob", "Rex"] := by
  cbv

theorem wellFormed_acquaintances : acquaintances.WellFormed := by
  obtain ⟨hperson, hbeing⟩ := symbols_personsAndBeings
  have hknows : acquaintances.schema.get? ⟨"Knows", 2⟩ =
      some [some "person", some "person"] := rfl
  have hhappy : acquaintances.schema.get? ⟨"Happy", 1⟩ = some [some "being"] := rfl
  constructor
  case disjoint => decide
  case schema =>
    have hopen : ∀ s ∈ acquaintances.query ++ acquaintances.hidden,
        s = ⟨"Knows", 2⟩ ∨ s = ⟨"Happy", 1⟩ := by decide
    intro s hs
    rcases hopen s hs with rfl | rfl
    · exact ⟨_, hknows, by simpa [AtomSpace.KnownDomains] using ⟨_, hperson⟩⟩
    · exact ⟨_, hhappy, by simpa [AtomSpace.KnownDomains] using ⟨_, hbeing⟩⟩
  case evidence => decide
  case plain =>
    intro c hc
    simp only [acquaintances, List.mem_cons, List.not_mem_nil, or_false] at hc
    rcases hc with rfl | rfl | rfl <;> simp
  case ranges =>
    have hdomain : ∀ c ∈ acquaintances.clauses, ∀ v ∈ c.vars, v.domain = some "person" := by decide
    have hnames : ∀ s ∈ ["Anna", "Bob"], NamesConstant s := by
      have hanna : NamesConstant "Anna" := ⟨⟨"Anna", by decide⟩, rfl, by decide⟩
      have hbob : NamesConstant "Bob" := ⟨⟨"Bob", by decide⟩, rfl, by decide⟩
      simp [hanna, hbob]
    exact fun c hc v hv => ⟨_, _, hdomain c hc v hv, hperson, hnames⟩
  case arguments =>
    have hpersons : personsAndBeings.symbols (.ofOption (some "person")) = ["Anna", "Bob"] :=
      congrArg (·.getD []) hperson
    have hbeings : personsAndBeings.symbols (.ofOption (some "being")) = ["Anna", "Bob", "Rex"] :=
      congrArg (·.getD []) hbeing
    intro c hc l hl hs
    simp only [acquaintances, List.mem_cons, List.not_mem_nil, or_false] at hc
    rcases hc with rfl | rfl | rfl
    · simp only [List.mem_cons, List.not_mem_nil, or_false] at hl
      rcases hl with rfl | rfl
      · exact ⟨_, hknows, .cons (fun _ h => h) (.cons (fun _ h => h) .nil)⟩
      · exact absurd hs (by decide)
    · simp only [List.mem_cons, List.not_mem_nil, or_false] at hl
      rcases hl with rfl | rfl
      · refine ⟨_, hknows, .cons ?_ (.cons (fun _ h => h) .nil)⟩
        simp [Fits, acquaintances, hpersons]
      · refine ⟨_, hhappy, .cons ?_ .nil⟩
        simp [Fits, acquaintances, hpersons, hbeings]
    · obtain rfl := List.mem_singleton.1 hl
      refine ⟨_, hhappy, .cons ?_ .nil⟩
      simp [Fits, acquaintances, hbeings]
  case weights =>
    intro c hc w hw
    simp only [acquaintances, List.mem_cons, List.not_mem_nil, or_false] at hc
    rcases hc with rfl | rfl | rfl
    · exact ⟨_, (Option.some.inj hw).symm⟩
    · cases hw
    · exact ⟨_, (Option.some.inj hw).symm⟩
  case weightHard =>
    intro w hw
    cases hw

theorem exists_ground_of_wellFormed_acquaintances :
    acquaintances.WellFormed ∧ ∃ g, acquaintances.ground = .ok g ∧
      (acquaintances.options.trackDependencies = true → ∃ deps,
        g.network.dependencies = some deps ∧ DependencyMap.ofEntries deps.pairs = .ok deps) :=
  ⟨wellFormed_acquaintances, exists_ground_of_wellFormed wellFormed_acquaintances⟩

end Problem

end MarkovLogic
