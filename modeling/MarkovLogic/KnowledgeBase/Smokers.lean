import MarkovLogic.KnowledgeBase.Basic

/-!
# Friends and smokers

Friendship is evidence; who smokes and who gets cancer is queried. Friendship is symmetric, so the
first two rules ground to the same constraints and merge.
-/

namespace MarkovLogic.RuleBook

/-- Smoking spreads along friendship. -/
def smokers : RuleBook :=
  let friends : Signature := ⟨"Friends", 2⟩
  let smokes : Signature := ⟨"Smokes", 1⟩
  let cancer : Signature := ⟨"Cancer", 1⟩
  let person := some "person"
  { description := "Friends & Smokers: smoking spreads along friendship"
    rules := [
      "2.0 !Friends(x,y) v !Smokes(x) v Smokes(y)",
      "0.8 !Friends(x,y) v !Smokes(y) v Smokes(x)",
      "1.5 !Smokes(x) v Cancer(x)",
      "-0.5 Cancer(x)",
      "!Cancer(x) v Smokes(x)."]
    schema := Table.ofList [(friends, [person, person]), (smokes, [person]), (cancer, [person])]
    domains := .ofDomains (Domains.ofList [(.text "person", ["Anna", "Bob", "Edward", "Frank"])])
    query := [smokes, cancer]
    hidden := []
    evidence := Table.ofList [(friends,
      [["Anna", "Bob"], ["Bob", "Anna"], ["Anna", "Edward"], ["Edward", "Anna"]])] }

end MarkovLogic.RuleBook
