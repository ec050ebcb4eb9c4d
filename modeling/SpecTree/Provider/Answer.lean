import SpecTree.Context.Basic

/-!
# Requests and answers

A provider breaks a spec down into children, or generates the files of a leaf. Either way it may
raise questions and considerations.
-/

namespace SpecTree

/-- An interface that a compiled node declares. -/
structure Declaration where
  name : String
  definition : String
  source : String := ""
  deriving DecidableEq, Inhabited

structure QuestionOption where
  label : String
  description : Option String := none
  deriving DecidableEq, Inhabited

/-- Something unclear, with the assumption that was made. -/
structure Question where
  id : String := ""
  question : String
  context : String := ""
  assumption : String := ""
  impact : String := ""
  options : Option (List QuestionOption) := none
  answer : Option String := none
  deriving DecidableEq, Inhabited

/-- A note; a blocking one needs attention. -/
structure Consideration where
  id : String := ""
  note : String
  blocking : Bool := false
  deriving DecidableEq, Inhabited

/-- What a provider asks about one node. -/
structure Questionnaire where
  module : String
  questions : List Question := []
  considerations : List Consideration := []
  deriving DecidableEq, Inhabited

/-- A child as its parent describes it. -/
structure ChildSpec where
  name : String
  spec : String := ""
  context : Context := {}
  isLeaf : Bool := false
  tags : List String := []
  deriving DecidableEq, Inhabited

/-- A node broken down; without children it is a leaf. -/
structure Expansion where
  children : List ChildSpec := []
  interfaces : List Declaration := []
  constraints : List Constraint := []
  suggestions : List Suggestion := []
  utilities : List Utility := []
  questions : List Question := []
  considerations : List Consideration := []
  deriving DecidableEq, Inhabited

/-- A file, by its path below the output root. -/
structure GeneratedFile where
  path : String
  content : String
  deriving DecidableEq, Inhabited

/-- A leaf carried out. -/
structure Production where
  files : List GeneratedFile := []
  questions : List Question := []
  considerations : List Consideration := []
  deriving DecidableEq, Inhabited

/-- What a provider is told about a node. -/
structure Request where
  nodePath : String
  spec : String
  context : Context
  deriving DecidableEq, Inhabited

end SpecTree
