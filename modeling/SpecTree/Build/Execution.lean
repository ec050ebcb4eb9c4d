import SpecTree.Build.Claims
import SpecTree.Build.Discovery
import SpecTree.Build.Header
import SpecTree.Build.OutputPath
import SpecTree.Plan.Artifacts
import SpecTree.Provider.Failure

/-!
# Carrying out one leaf

A leaf's spec and context are read and its provider is asked. Of the files in the answer, those
with an acceptable path are claimed, all before the first is written, and written with a header.
Questions go back to the plan.
-/

namespace SpecTree.Build

/-- What came of one leaf. -/
structure LeafResult where
  nodePath : String
  /-- The files as they were written. -/
  files : List GeneratedFile := []
  questions : List Question := []
  considerations : List Consideration := []
  errors : List String := []
  success : Bool := false
  skipped : Bool := false
  deriving DecidableEq

/-- How a leaf ends. -/
inductive LeafEnding where
  | completed (result : LeafResult)
  /-- The provider failed, or there was nothing to ask it about. -/
  | failed (message : String)
  | overlapping (overlap : Overlap)
  | broken (failure : FileError)

namespace LeafEnding

def isOverlap : LeafEnding → Bool
  | overlapping _ => true
  | _ => false

def result (node : String) : LeafEnding → LeafResult
  | completed r => r
  | failed message => { nodePath := node, errors := [message] }
  | overlapping o => { nodePath := node, errors := [o.message] }
  | broken e =>
    { nodePath := node, errors := ["Unexpected error generating " ++ node ++ ": " ++ e.message] }

end LeafEnding

/-- What a provider is asked about a leaf; without a spec there is nothing to ask. -/
def requestFor (s : Store) (plan node : String) : Except FileError (Option Request) := do
  match ← Plan.readSpec s plan node with
  | none => return none
  | some spec =>
    let (context, _) ← Plan.readContext s plan node
    return some ⟨node, spec, context.getD {}⟩

/-- The files under the one spelling of their paths, and complaints about the paths refused. -/
def accept : List GeneratedFile → List GeneratedFile × List String
  | [] => ([], [])
  | f :: rest =>
    let (files, errors) := accept rest
    match OutputPath.normalize f.path with
    | .ok path => (⟨path, f.content⟩ :: files, errors)
    | .error refusal =>
      (files, ("Failed to write " ++ f.path ++ ": " ++ refusal.message) :: errors)

/-- What has been written of a leaf so far. -/
structure Progress where
  store : Store
  files : List GeneratedFile := []
  errors : List String := []

/-- Writes files below the output root. The system's refusals are noted; another failure ends the
leaf. -/
def writeFiles (output : String) : Progress → List GeneratedFile → Progress × Option FileError
  | p, [] => (p, none)
  | p, f :: rest =>
    match p.store.writeDeep (Path.assemble [output, f.path]) (.text f.content) with
    | (store, none) => writeFiles output { p with store, files := p.files ++ [f] } rest
    | (store, some e) =>
      if e.isSystem then
        let message := "Failed to write " ++ f.path ++ ": " ++ e.message
        writeFiles output { p with store, errors := p.errors ++ [message] } rest
      else ({ p with store }, some e)

/-- Writes the questions of a leaf, if it has any. -/
def writeQuestions (plan node : String) (answer : Production) (p : Progress) :
    Progress × Option FileError :=
  if answer.questions.isEmpty && answer.considerations.isEmpty then (p, none)
  else
    let q : Questionnaire := ⟨node, answer.questions, answer.considerations⟩
    match Plan.writeQuestions p.store plan node q with
    | (store, none) => ({ p with store }, none)
    | (store, some e) =>
      if e.isSystem then
        let message := "Failed to write questions for " ++ node ++ ": " ++ e.message
        ({ p with store, errors := p.errors ++ [message] }, none)
      else ({ p with store }, some e)

/-- Where a build reads and writes. -/
structure Site where
  plan : String
  output : String
  addHeaders : Bool := true

/-- The file as it is written. -/
def Site.finalFile (b : Site) (node : String) (f : GeneratedFile) : GeneratedFile :=
  if b.addHeaders then { f with content := Header.add f.content f.path node } else f

/-- Claims and writes what a provider answered. -/
def deliver (b : Site) (s : Store) (c : Claims) (node : String) (answer : Production) :
    Store × Claims × LeafEnding :=
  let (files, refused) := accept answer.files
  match c.registerAll node (files.map GeneratedFile.path) with
  | (c, some overlap) => (s, c, .overlapping overlap)
  | (c, none) =>
    match writeFiles b.output { store := s, errors := refused } (files.map (b.finalFile node)) with
    | (p, some e) => (p.store, c, .broken e)
    | (p, none) =>
      match writeQuestions b.plan node answer p with
      | (p, some e) => (p.store, c, .broken e)
      | (p, none) =>
        (p.store, c, .completed {
          nodePath := node
          files := p.files
          questions := answer.questions
          considerations := answer.considerations
          errors := p.errors
          success := p.errors.isEmpty })

end SpecTree.Build
