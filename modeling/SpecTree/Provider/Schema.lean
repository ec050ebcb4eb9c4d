import SpecTree.Context.Schema
import SpecTree.Provider.Answer

/-!
# Answers as JSON

The form of answers in artifacts and in the responses of a provider.
-/

namespace SpecTree

open Json (text? flag? list?)

def textOrNull (s : Option String) : Json := s.elim .null Json.str

namespace Declaration

def toJson (d : Declaration) : Json :=
  .obj [("name", .str d.name), ("definition", .str d.definition), ("source", .str d.source)]

def ofJson? (j : Json) : Option Declaration := do
  return ⟨← j.member? "name" text?, ← j.member? "definition" text?, ← j.memberOr "source" text? ""⟩

end Declaration

namespace QuestionOption

def toJson (o : QuestionOption) : Json :=
  .obj [("label", .str o.label), ("description", textOrNull o.description)]

def ofJson? (j : Json) : Option QuestionOption := do
  return ⟨← j.member? "label" text?, ← j.optional? "description" text?⟩

end QuestionOption

namespace Question

def toJson (q : Question) : Json :=
  .obj [("id", .str q.id), ("question", .str q.question), ("context", .str q.context),
    ("assumption", .str q.assumption), ("impact", .str q.impact),
    ("options", q.options.elim .null fun os => .arr (os.map QuestionOption.toJson)),
    ("answer", textOrNull q.answer)]

def ofJson? (j : Json) : Option Question := do
  return {
    id := ← j.memberOr "id" text? ""
    question := ← j.member? "question" text?
    context := ← j.memberOr "context" text? ""
    assumption := ← j.memberOr "assumption" text? ""
    impact := ← j.memberOr "impact" text? ""
    options := ← j.optional? "options" (list? QuestionOption.ofJson?)
    answer := ← j.optional? "answer" text? }

end Question

namespace Consideration

def toJson (c : Consideration) : Json :=
  .obj [("id", .str c.id), ("note", .str c.note), ("blocking", .bool c.blocking)]

def ofJson? (j : Json) : Option Consideration := do
  return ⟨← j.memberOr "id" text? "", ← j.member? "note" text?, ← j.memberOr "blocking" flag? false⟩

end Consideration

namespace Questionnaire

def toJson (q : Questionnaire) : Json :=
  .obj [("module", .str q.module), ("questions", .arr (q.questions.map Question.toJson)),
    ("considerations", .arr (q.considerations.map Consideration.toJson))]

def ofJson? (j : Json) : Option Questionnaire := do
  return ⟨← j.member? "module" text?, ← j.memberOr "questions" (list? Question.ofJson?) [],
    ← j.memberOr "considerations" (list? Consideration.ofJson?) []⟩

end Questionnaire

namespace ChildSpec

def toJson (c : ChildSpec) : Json :=
  .obj [("name", .str c.name), ("spec", .str c.spec), ("context", c.context.toJson),
    ("is_leaf", .bool c.isLeaf), ("tags", .arr (c.tags.map Json.str))]

def ofJson? (j : Json) : Option ChildSpec := do
  return ⟨← j.member? "name" text?, ← j.memberOr "spec" text? "",
    ← j.memberOr "context" Context.ofJson? {}, ← j.memberOr "is_leaf" flag? false,
    ← j.memberOr "tags" (list? text?) []⟩

end ChildSpec

namespace Expansion

def toJson (e : Expansion) : Json :=
  .obj [("children", .arr (e.children.map ChildSpec.toJson)),
    ("interfaces", .arr (e.interfaces.map Declaration.toJson)),
    ("constraints", .arr (e.constraints.map Constraint.toJson)),
    ("suggestions", .arr (e.suggestions.map Suggestion.toJson)),
    ("utilities", .arr (e.utilities.map Utility.toJson)),
    ("questions", .arr (e.questions.map Question.toJson)),
    ("considerations", .arr (e.considerations.map Consideration.toJson))]

def ofJson? (j : Json) : Option Expansion := do
  return {
    children := ← j.memberOr "children" (list? ChildSpec.ofJson?) []
    interfaces := ← j.memberOr "interfaces" (list? Declaration.ofJson?) []
    constraints := ← j.memberOr "constraints" (list? Constraint.ofJson?) []
    suggestions := ← j.memberOr "suggestions" (list? Suggestion.ofJson?) []
    utilities := ← j.memberOr "utilities" (list? Utility.ofJson?) []
    questions := ← j.memberOr "questions" (list? Question.ofJson?) []
    considerations := ← j.memberOr "considerations" (list? Consideration.ofJson?) [] }

end Expansion

namespace GeneratedFile

def toJson (f : GeneratedFile) : Json := .obj [("path", .str f.path), ("content", .str f.content)]

def ofJson? (j : Json) : Option GeneratedFile := do
  return ⟨← j.member? "path" text?, ← j.member? "content" text?⟩

end GeneratedFile

namespace Production

def toJson (p : Production) : Json :=
  .obj [("files", .arr (p.files.map GeneratedFile.toJson)),
    ("questions", .arr (p.questions.map Question.toJson)),
    ("considerations", .arr (p.considerations.map Consideration.toJson))]

def ofJson? (j : Json) : Option Production := do
  return {
    files := ← j.memberOr "files" (list? GeneratedFile.ofJson?) []
    questions := ← j.memberOr "questions" (list? Question.ofJson?) []
    considerations := ← j.memberOr "considerations" (list? Consideration.ofJson?) [] }

end Production

end SpecTree
