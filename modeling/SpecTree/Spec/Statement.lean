import SpecTree.Spec.Position

/-!
# Statements

The tree of a spec file. A document holds statements, and a module holds further ones; every node
keeps the stretch of text it came from.
-/

namespace SpecTree.Spec

/-- How a module relates to the one before it; without one it is an ordinary descendant. -/
inductive Combinator where
  | child
  | adjacent
  | general
  deriving Repr, DecidableEq

namespace Combinator

def name : Combinator → String
  | child => "child"
  | adjacent => "adjacent"
  | general => "general"

def symbol : Combinator → String
  | child => ">"
  | adjacent => "+"
  | general => "~"

end Combinator

/-- A suffix `:name(args)` of a module header. -/
structure Pseudo where
  name : String
  args : List String := []
  deriving Repr, DecidableEq

/-- What stands before a module's opening brace: `[combinator] name.tags:pseudos(args)`. -/
structure Header where
  name : String
  tags : List String := []
  pseudos : List Pseudo := []
  combinator : Option Combinator := none
  deriving Repr, DecidableEq

inductive Statement where
  | module (header : Header) (children : List Statement) (span : Span)
  | prose (text : String) (important : Bool) (span : Span)
  | constraint (text : String) (important : Bool) (span : Span)
  | inclusion (path : String) (span : Span)
  | param (name value : String) (span : Span)
  | comment (text : String) (span : Span)
  deriving Repr, BEq, Inhabited

namespace Statement

def span : Statement → Span
  | module _ _ s | prose _ _ s | constraint _ _ s | inclusion _ s | param _ _ s | comment _ s => s

/-- The statements inside a module; all others have none. -/
def children : Statement → List Statement
  | module _ cs _ => cs
  | _ => []

def isModule : Statement → Bool
  | module .. => true
  | _ => false

def param? : Statement → Option (String × String)
  | param name value _ => some (name, value)
  | _ => none

end Statement

/-- A whole file. -/
structure Document where
  children : List Statement
  span : Span
  deriving Repr, BEq, Inhabited

/-- A document, or one statement of it. -/
inductive Node where
  | document (d : Document)
  | statement (s : Statement)
  deriving Repr, BEq, Inhabited

namespace Node

def children : Node → List Statement
  | document d => d.children
  | statement s => s.children

def span : Node → Span
  | document d => d.span
  | statement s => s.span

/-- Documents and modules hold statements. -/
def isContainer : Node → Bool
  | document _ => true
  | statement s => s.isModule

def hasNestedModules (n : Node) : Bool := n.children.any Statement.isModule

/-- The parameters directly inside a node, in source order. -/
def params (n : Node) : List (String × String) := n.children.filterMap Statement.param?

/-- The value of a parameter; a later statement overrides an earlier one. -/
def param? (n : Node) (name : String) : Option String := n.params.reverse.lookup name

end Node

end SpecTree.Spec
