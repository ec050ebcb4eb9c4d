import SpecTree.Plan.Artifacts
import SpecTree.Plan.Tree
import SpecTree.Settings.Coerce

/-!
# Plans under options

Policies with values under option names in place of their defaults, and several artifacts of a node
at once.
-/

namespace SpecTree.Plan

def NodePolicy.under (options : Json) (p : NodePolicy) : NodePolicy :=
  { p with
    smallSpec := options.option "small_spec_threshold" Settings.whole? p.smallSpec
    useCache := options.option "use_cache" Json.flag? p.useCache }

def TreePolicy.under (options : Json) (p : TreePolicy) : TreePolicy :=
  { p with
    maxNodes := options.option "max_nodes" Settings.whole? p.maxNodes
    maxCalls := options.option "max_calls" Settings.whole? p.maxCalls
    concurrency := options.option "concurrency" Settings.whole? p.concurrency
    node := p.node.under options }

/-- Writes the artifacts of a node that are given, up to the first failure; the paths written. -/
def writeGiven (s : Store) (directory node : String) (spec : Option String)
    (context : Option Context) (questions : Option Questionnaire) :
    Store × Except FileError (List String) :=
  let given {α : Type} (value : Option α)
      (write : Store → String → String → α → Store × Option FileError) (path : String)
      (done : Store × Except FileError (List String)) : Store × Except FileError (List String) :=
    match done, value with
    | (s, .ok paths), some a =>
      match write s directory node a with
      | (s, none) => (s, .ok (paths ++ [path]))
      | (s, some e) => (s, .error e)
    | done, _ => done
  given questions writeQuestions (questionsPath directory node)
    (given context writeContext (contextPath directory node)
      (given spec writeSpec (planPath directory node) (s, .ok [])))

/-- The artifacts of a node, each as far as it can be read. -/
structure Artifacts where
  spec : Except FileError (Option String)
  context : Except FileError (Option Context)
  questions : Except FileError (Option Questionnaire)
  record : Except FileError (Option Record)

/-- What is kept of a node. -/
def artifacts (s : Store) (directory node : String) : Artifacts where
  spec := readSpec s directory node
  context := (readContext s directory node).map (·.1)
  questions := (readQuestions s directory node).map (·.1)
  record := (readRecord s directory node).map (·.1)

end SpecTree.Plan
