import MarkovLogic.KnowledgeBase.Basic

/-!
# Advisors and co-authors

Who is a professor and who is a student is evidence, who advises whom is queried, and co-authorship
is open without being queried. Under the evidence the hard rules become hard negative constraints
for every pair that breaks them.
-/

namespace MarkovLogic.RuleBook

/-- Advisors are professors of students, and tend to be their co-authors. -/
def university : RuleBook :=
  let professor : Signature := ⟨"Professor", 1⟩
  let student : Signature := ⟨"Student", 1⟩
  let advisedBy : Signature := ⟨"AdvisedBy", 2⟩
  let coAuthor : Signature := ⟨"CoAuthor", 2⟩
  let person := some "person"
  { description := "Advisors: hard typing rules plus soft co-authorship links"
    rules := [
      "!AdvisedBy(s,p) v Professor(p).",
      "!AdvisedBy(s,p) v Student(s).",
      "1.2 !CoAuthor(s,p) v AdvisedBy(s,p)",
      "0.7 !AdvisedBy(s,p) v CoAuthor(s,p)",
      "-0.3 AdvisedBy(s,p)"]
    schema := Table.ofList [(professor, [person]), (student, [person]),
      (advisedBy, [person, person]), (coAuthor, [person, person])]
    domains := .ofDomains (Domains.ofList [(.text "person", ["Ada", "Ben", "Cleo"])])
    query := [advisedBy]
    hidden := [coAuthor]
    evidence := Table.ofList [(professor, [["Ada"]]), (student, [["Ben"], ["Cleo"]])] }

end MarkovLogic.RuleBook
