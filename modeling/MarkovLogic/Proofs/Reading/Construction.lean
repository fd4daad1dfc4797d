import MarkovLogic.Proofs.Reading.Acceptance
import MarkovLogic.Proofs.Term.Construction

/-!
# Construction of what is read

Reading makes terms of names without a check, because a name that was read passes every check of the
constructors. Building the same terms through the constructors succeeds with the same terms and
fails with the same errors (`Phrase.construct_eq`, `Vocabulary.construct_eq`).
-/

namespace MarkovLogic

/-- Why nothing is built from a phrase: it is misread, or a constructor refuses its parts. -/
inductive BuildFault where
  | misread (m : Misread)
  | refused (e : ExpressionError)

namespace Phrase

/-- The variable or constant of a name, from the constructor for its first character. -/
def constructName (word : Identifier) (domain : Option String) : Except ExpressionError Term :=
  if word.startsLower then .var <$> Term.variableOf (.text word.text) domain
  else .const <$> Term.constant (.text word.text) domain

mutual

/-- The term that a phrase denotes in a place of the given domain, built by the constructors. -/
def construct (functions : FunctionSchema) (domain : Option String) :
    Phrase → Except BuildFault Term
  | .name word _ => (constructName word domain).mapError .refused
  | .call word position args =>
    let signature : Signature := ⟨word.text, args.length⟩
    match functions.get? signature with
    | none => .error (.misread ⟨.unknownFunction signature, some position⟩)
    | some (value, places) =>
      if domain.isSome && value != domain then
        .error (.misread ⟨.returnDomain signature value domain, some position⟩)
      else do
        let terms ← constructAll functions places args
        (Term.application (.text word.text) (terms.map .proper) value).mapError .refused

/-- The terms that phrases denote in the places of the given domains, built by the constructors. -/
def constructAll (functions : FunctionSchema) (places : List (Option String)) :
    List Phrase → Except BuildFault (List Term)
  | [] => .ok []
  | phrase :: rest =>
    match places with
    | [] => .ok []
    | domain :: places => do
      let term ← construct functions domain phrase
      let terms ← constructAll functions places rest
      return term :: terms

end

theorem constructName_eq (word : Identifier) (domain : Option String) :
    constructName word domain = .ok (.ofIdentifier word domain) := by
  unfold constructName Term.ofIdentifier
  by_cases h : word.startsLower = true
  · rw [if_pos h, dif_pos h, Term.variableOf_text h]
    rfl
  · rw [if_neg h, dif_neg h, Term.constant_text (by simpa using h)]
    rfl

variable {functions : FunctionSchema}

theorem constructAll_eq {args : List Phrase}
    (h : ∀ φ ∈ args, ∀ d, construct functions d φ = (toTerm functions d φ).mapError .misread) :
    ∀ places : List (Option String),
      constructAll functions places args = (toTerms functions places args).mapError .misread := by
  induction args with
  | nil =>
    intro places
    rfl
  | cons φ args ih =>
    intro places
    obtain ⟨hφ, hargs⟩ := List.forall_mem_cons.1 h
    cases places with
    | nil => rfl
    | cons d places =>
      rw [constructAll, toTerms, hφ d, ih hargs places]
      cases toTerm functions d φ with
      | error m => rfl
      | ok t => cases toTerms functions places args <;> rfl

/-- No constructor refuses what is built from a phrase. -/
theorem construct_eq (φ : Phrase) : ∀ domain : Option String,
    construct functions domain φ = (toTerm functions domain φ).mapError .misread := by
  induction φ using Phrase.induction with
  | name w p =>
    intro domain
    rw [construct, constructName_eq, toTerm]
    rfl
  | call w p args ih =>
    intro domain
    rw [construct, toTerm]
    cases functions.get? ⟨w.text, args.length⟩ with
    | none => rfl
    | some entry =>
      obtain ⟨value, places⟩ := entry
      simp only
      cases domain.isSome && value != domain with
      | true => rfl
      | false =>
        simp only [Bool.false_eq_true, if_false, constructAll_eq ih places]
        cases toTerms functions places args with
        | error m => rfl
        | ok ts =>
          have happlication := Term.application_text w ts value
          simp only [Except.mapError, bind, Except.bind, happlication]
          rfl

end Phrase

namespace Vocabulary

/-- The literal that a phrase denotes, built by the constructors. -/
def construct (v : Vocabulary) (phrase : LiteralPhrase) : Except BuildFault Literal :=
  let signature : Signature := ⟨phrase.predicate.text, phrase.args.length⟩
  match v.predicates.get? signature with
  | none => .error (.misread ⟨.unknownPredicate signature, some phrase.position⟩)
  | some places => do
    let terms ← Phrase.constructAll v.functions places phrase.args
    let atom ← (Atom.ofGiven (.text phrase.predicate.text) (terms.map .proper)).mapError .refused
    return ⟨atom, phrase.positive⟩

/-- **No constructor refuses what is read.** -/
theorem construct_eq (v : Vocabulary) (φ : LiteralPhrase) :
    v.construct φ = (v.literal φ).mapError .misread := by
  rw [construct, literal]
  cases v.predicates.get? ⟨φ.predicate.text, φ.args.length⟩ with
  | none => rfl
  | some places =>
    simp only [Phrase.constructAll_eq fun ψ _ => Phrase.construct_eq ψ]
    cases Phrase.toTerms v.functions places φ.args with
    | error m => rfl
    | ok ts =>
      have hatom := Atom.ofGiven_text φ.predicate ts
      simp only [Except.mapError, bind, Except.bind, hatom]
      rfl

end Vocabulary

end MarkovLogic
