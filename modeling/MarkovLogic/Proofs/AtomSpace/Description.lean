import MarkovLogic.Proofs.AtomSpace.Numbering
import MarkovLogic.Proofs.Reading.RoundTrip
import Mathlib

/-!
# Descriptions of numbered literals

The description of a signed number is put together from the decoded atom and not through literals.
Still it is the text of a literal over constants (`AtomSpace.describe_of_spells`), if the names of
predicates and symbols are such that there is one (`AtomSpace.Readable`). This literal conforms to
the schema of the space, so its text is read back to a literal that spells the same atom
(`Literal.Spells.of_same`), and encoding that one gives the number again
(`AtomSpace.readsBack_of_build`).
-/

namespace MarkovLogic

/-! ## Literals over constants -/

/-- The literal applies the predicate to constants with the given symbols. -/
structure Literal.Spells (l : Literal) (s : Signature) (tuple : List String) : Prop where
  signature : l.atom.signature = s
  symbols : ∃ constants : List Constant,
    l.atom.terms = constants.map .const ∧ constants.map (·.symbol.text) = tuple

theorem Term.charsList_map_const (constants : List Constant) :
    charsList (constants.map .const) = [','].intercalate (constants.map (·.symbol.chars)) := by
  induction constants with
  | nil => rfl
  | cons c rest ih =>
    cases rest with
    | nil => simp [charsList, chars]
    | cons d rest =>
      rw [List.map_cons, List.map_cons, charsList, ← List.map_cons, ih]
      simp [chars, List.intercalate_cons_cons]

theorem Term.conformsList_map_const {functions : FunctionSchema} (constants : List Constant) :
    ∀ {places : List (Option String)}, places.length = constants.length →
      ConformsList functions places (constants.map .const) := by
  induction constants with
  | nil =>
    intro places h
    obtain rfl := List.length_eq_zero_iff.1 h
    trivial
  | cons c rest ih =>
    intro places h
    cases places with
    | nil => cases h
    | cons d places => exact ⟨trivial, ih (Nat.succ.inj h)⟩

/-- What is equal to constants is constants with the same symbols. -/
theorem Term.exists_constants_of_sameList (constants : List Constant) :
    ∀ {terms : List Term}, sameList terms (constants.map .const) = true →
      ∃ constants' : List Constant, terms = constants'.map .const ∧
        constants'.map (·.symbol.text) = constants.map (·.symbol.text) := by
  induction constants with
  | nil =>
    intro terms h
    cases terms with
    | nil => exact ⟨[], rfl, rfl⟩
    | cons t terms => cases h
  | cons c rest ih =>
    intro terms h
    cases terms with
    | nil => cases h
    | cons t terms =>
      rw [List.map_cons, sameList, Bool.and_eq_true] at h
      obtain ⟨hhead, hrest⟩ := h
      obtain ⟨constants', rfl, hsymbols⟩ := ih hrest
      cases t with
      | const d =>
        have hsymbol : d.symbol = c.symbol := of_decide_eq_true hhead
        exact ⟨d :: constants', rfl, by rw [List.map_cons, List.map_cons, hsymbol, hsymbols]⟩
      | var v => cases hhead
      | app f args value => cases hhead

namespace Literal

variable {l l' : Literal} {s : Signature} {tuple : List String}

namespace Spells

theorem predicate_eq (h : l.Spells s tuple) : l.atom.predicate.text = s.name :=
  congrArg Signature.name h.signature

/-- The text of a literal over constants. -/
theorem text_eq (h : l.Spells s tuple) :
    l.text = (if l.positive then "" else "!") ++ s.name ++ "(" ++ Text.joined "," tuple ++ ")" := by
  obtain ⟨constants, hterms, rfl⟩ := h.symbols
  have hatom : l.atom.chars =
      s.name.toList ++ '(' :: [','].intercalate (constants.map (·.symbol.chars)) ++ [')'] := by
    rw [Atom.chars, hterms, Term.charsList_map_const, Identifier.chars, h.predicate_eq]
  apply String.toList_injective
  rw [text, String.toList_ofList, chars]
  cases l.positive <;>
    simp [hatom, Text.joined, String.toList_intercalate, Identifier.chars, Function.comp_def]

/-- A literal over constants conforms when its predicate has a place for each. -/
theorem conforms (h : l.Spells s tuple) {v : Vocabulary} {places : List (Option String)}
    (hplaces : v.predicates.get? s = some places) (hlength : s.arity = places.length) :
    l.Conforms v := by
  obtain ⟨constants, hterms, -⟩ := h.symbols
  have harity : s.arity = constants.length := by
    rw [← h.signature, Atom.signature, Atom.arity, hterms, List.length_map]
  refine ⟨places, by rw [h.signature, hplaces], ?_⟩
  rw [hterms]
  exact Term.conformsList_map_const constants (by omega)

/-- An equal literal spells the same atom. -/
theorem of_same (h : l.Spells s tuple) (hsame : l'.same l = true) :
    l'.Spells s tuple ∧ l'.positive = l.positive := by
  simp only [same, Atom.same, Bool.and_eq_true, decide_eq_true_eq] at hsame
  obtain ⟨⟨hpredicate, hterms⟩, hpositive⟩ := hsame
  obtain ⟨constants, hconstants, rfl⟩ := h.symbols
  rw [hconstants] at hterms
  obtain ⟨constants', hterms', hsymbols⟩ := Term.exists_constants_of_sameList constants hterms
  have hlength : constants'.length = constants.length := by
    simpa using congrArg List.length hsymbols
  refine ⟨⟨?_, constants', hterms', hsymbols⟩, hpositive⟩
  rw [← h.signature, Atom.signature, Atom.signature, Atom.arity, Atom.arity, hpredicate, hterms',
    hconstants, List.length_map, List.length_map, hlength]

end Spells

/-- Symbols that constants can have, applied to by a predicate that an identifier names. -/
theorem exists_spells (positive : Bool) (hname : Text.isWordRun s.name.toList = true)
    (harity : s.arity = tuple.length)
    (hsymbols : ∀ x ∈ tuple, ∃ c : Constant, c.symbol.text = x) :
    ∃ l : Literal, l.positive = positive ∧ l.Spells s tuple := by
  have hconstants : ∃ constants : List Constant, constants.map (·.symbol.text) = tuple := by
    clear harity
    induction tuple with
    | nil => exact ⟨[], rfl⟩
    | cons x rest ih =>
      obtain ⟨⟨c, hc⟩, hrest⟩ := List.forall_mem_cons.1 hsymbols
      obtain ⟨constants, hconstants⟩ := ih hrest
      exact ⟨c :: constants, by rw [List.map_cons, hc, hconstants]⟩
  obtain ⟨constants, rfl⟩ := hconstants
  refine ⟨⟨⟨⟨s.name, hname⟩, constants.map .const⟩, positive⟩, rfl, ?_, constants, rfl, rfl⟩
  rw [List.length_map] at harity
  rw [Atom.signature, Atom.arity, List.length_map, ← harity]

end Literal

/-! ## Descriptions -/

namespace AtomSpace

/-- The listed predicates are named by identifiers and have a place for each argument, and every
symbol is one that a constant can have. -/
structure Readable (schema : PredicateSchema) (domains : Domains) (listed : List Signature) :
    Prop where
  names : ∀ s ∈ listed, Text.isWordRun s.name.toList = true
  arities : ∀ s ∈ listed, ∀ places, schema.get? s = some places → s.arity = places.length
  symbols : ∀ domain, ∀ x ∈ domains.symbols domain, ∃ c : Constant, c.symbol.text = x

/-- The signed number stands for the atom with the given predicate and symbols or its negation. Its
description is the text of such a literal, and is read back to one. -/
structure ReadsBack (space : AtomSpace) (schema : PredicateSchema) (number : Int) (s : Signature)
    (tuple : List String) : Prop where
  decode_eq : space.decode number.natAbs = .ok (s, tuple)
  encode_eq : space.encode s tuple = .ok number.natAbs
  spelled : ∃ l : Literal, l.positive = decide (0 < number) ∧ l.Spells s tuple
  describe_eq : ∀ l : Literal, l.positive = decide (0 < number) → l.Spells s tuple →
    space.describe number = .ok l.text
  read_describe : ∀ functions text, space.describe number = .ok text →
    ∃ l : Literal, (Vocabulary.mk schema functions).readLiteral text = .ok l ∧
      l.positive = decide (0 < number) ∧ l.Spells s tuple

variable {space : AtomSpace} {s : Signature} {tuple : List String} {number : Int}

/-- The description is the text of the literal over the decoded symbols. -/
theorem describe_of_spells (hdecode : space.decode number.natAbs = .ok (s, tuple)) {l : Literal}
    (hpositive : l.positive = decide (0 < number)) (h : l.Spells s tuple) :
    space.describe number = .ok l.text := by
  unfold describe
  refine bind_eq_ok_iff.2 ⟨(s, tuple), hdecode, ?_⟩
  rw [h.text_eq, hpositive]
  by_cases hsign : 0 < number
  · simp [hsign, pure, Except.pure]
  · simp [hsign, pure, Except.pure, String.append_assoc]

/-- **Descriptions are read back.** Every signed number up to the size of a space over distinct
predicates and duplicate-free domains of constant symbols is described by the text of its literal,
and reading the text gives a literal with the same sign whose atom has the number. -/
theorem readsBack_of_build {schema : PredicateSchema} {domains : Domains}
    {query hidden : List Signature} (hb : build schema domains query hidden = .ok space)
    (hd : domains.DuplicateFree) (hq : query.Nodup) (hh : hidden.Nodup)
    (hreadable : Readable schema domains (query ++ hidden)) (hne : number ≠ 0)
    (hsize : number.natAbs ≤ space.size) :
    ∃ s tuple, space.ReadsBack schema number s tuple := by
  have hnumbering := isNumbering_of_build hb hd hq hh
  obtain ⟨s, tuple, hdecode, hs, hranges, hencode⟩ :=
    hnumbering.encode_of_decode number.natAbs (by omega) hsize
  obtain ⟨places, hplaces, htuple⟩ := hranges
  have harity := hreadable.arities s hs places hplaces
  have hsymbols : ∀ x ∈ tuple, ∃ c : Constant, c.symbol.text = x := by
    intro x hx
    obtain ⟨d, -, hd⟩ := exists_of_forall₂_right htuple.flip hx
    exact hreadable.symbols _ x hd
  obtain ⟨l, hpositive, hspells⟩ := Literal.exists_spells (decide (0 < number))
    (hreadable.names s hs) (by rw [harity, htuple.length_eq]) hsymbols
  refine ⟨s, tuple, {
    decode_eq := hdecode
    encode_eq := hencode
    spelled := ⟨l, hpositive, hspells⟩
    describe_eq := fun l hpositive h => describe_of_spells hdecode hpositive h
    read_describe := ?_ }⟩
  intro functions text htext
  rw [describe_of_spells hdecode hpositive hspells] at htext
  obtain rfl := Except.ok.inj htext
  have hconforms : l.Conforms ⟨schema, functions⟩ := hspells.conforms hplaces harity
  obtain ⟨l', hread, hsame⟩ := Vocabulary.readLiteral_text hconforms
  obtain ⟨hspells', hpositive'⟩ := hspells.of_same hsame
  exact ⟨l', hread, hpositive'.trans hpositive, hspells'⟩

/-- A predicate called like the separator of clauses, and one without arguments that is called like
a number. -/
def ticketSchema : PredicateSchema :=
  Table.ofList [(⟨"v", 2⟩, [some "ticket", none]), (⟨"10", 0⟩, [])]

def ticketDomains : DomainMap :=
  .ofDomains (Domains.ofList [(.text "ticket", ["V", "7"]), (.nothing, ["_"])])

theorem mem_symbols_ticketDomains {domain : Scalar} {x : String}
    (hx : x ∈ ticketDomains.domains.symbols domain) : x ∈ ["7", "V", "_"] := by
  have hlist : ticketDomains.domains.toList =
      [(.text "ticket", ["7", "V"]), (.nothing, ["_"])] := by cbv
  have hall : ∀ e ∈ ticketDomains.domains.toList, ∀ x ∈ e.2, x ∈ ["7", "V", "_"] := by
    rw [hlist]
    decide
  unfold Domains.symbols Domains.symbols? at hx
  cases h : ticketDomains.domains.get? (ticketDomains.domains.recordedName domain) with
  | none =>
    rw [h] at hx
    cases hx
  | some symbols =>
    rw [h] at hx
    exact hall _ ((Table.get?_eq_some_iff _).1 h) x hx

theorem readable_ticketSchema :
    Readable ticketSchema ticketDomains.domains ([⟨"v", 2⟩] ++ [⟨"10", 0⟩]) where
  names := by decide
  arities := by
    have hfirst : ticketSchema.get? ⟨"v", 2⟩ = some [some "ticket", none] := rfl
    have hsecond : ticketSchema.get? ⟨"10", 0⟩ = some [] := rfl
    intro s hs places hplaces
    rcases List.mem_cons.1 hs with rfl | hs
    · obtain rfl := Option.some.inj (hfirst.symm.trans hplaces)
      rfl
    · obtain rfl := List.mem_singleton.1 hs
      obtain rfl := Option.some.inj (hsecond.symm.trans hplaces)
      rfl
  symbols := by
    intro domain x hx
    have hsymbols : ∀ x ∈ ["7", "V", "_"], Text.isWordRun x.toList = true ∧
        x.toList.head?.any Text.isLower = false := by decide
    obtain ⟨hword, hlower⟩ := hsymbols x (mem_symbols_ticketDomains hx)
    exact ⟨⟨⟨x, hword⟩, none, hlower⟩, rfl⟩

theorem readsBack_ticket : ticketDomains.domains.DuplicateFree ∧
    ([⟨"v", 2⟩] : List Signature).Nodup ∧ ([⟨"10", 0⟩] : List Signature).Nodup ∧
    Readable ticketSchema ticketDomains.domains ([⟨"v", 2⟩] ++ [⟨"10", 0⟩]) ∧
    ∃ space, build ticketSchema ticketDomains.domains [⟨"v", 2⟩] [⟨"10", 0⟩] = .ok space ∧
      (-2 : Int).natAbs ≤ space.size ∧ space.describe (-2) = .ok "!v(V,_)" ∧
      space.describe 3 = .ok "10()" ∧
      (∃ s tuple, space.ReadsBack ticketSchema (-2) s tuple) ∧
      ∃ s tuple, space.ReadsBack ticketSchema 3 s tuple := by
  have hd : ticketDomains.domains.DuplicateFree := DomainMap.ofDomains_duplicateFree _
  have hq : ([⟨"v", 2⟩] : List Signature).Nodup := by decide
  have hh : ([⟨"10", 0⟩] : List Signature).Nodup := by decide
  have hshape : (build ticketSchema ticketDomains.domains [⟨"v", 2⟩] [⟨"10", 0⟩]).map
      (fun space => (space.size, space.describe (-2), space.describe 3)) =
        .ok (3, .ok "!v(V,_)", .ok "10()") := by cbv
  obtain ⟨space, hb, hspace⟩ := map_eq_ok_iff.1 hshape
  simp only [Prod.mk.injEq] at hspace
  obtain ⟨hsize, hsecond, hthird⟩ := hspace
  exact ⟨hd, hq, hh, readable_ticketSchema, space, hb, by rw [hsize]; decide, hsecond, hthird,
    readsBack_of_build hb hd hq hh readable_ticketSchema (by decide) (by rw [hsize]; decide),
    readsBack_of_build hb hd hq hh readable_ticketSchema (by decide) (by rw [hsize]; decide)⟩

end AtomSpace

end MarkovLogic
