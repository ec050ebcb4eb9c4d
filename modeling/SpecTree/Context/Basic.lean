import SpecTree.Table

/-!
# Contexts

What a parent hands to one child: the interfaces, rules, advice and helpers that the child needs.
A child sees its own context and nothing of its ancestors'.
-/

namespace SpecTree

/-- An interface under its name in a context. -/
structure Interface where
  source : String
  definition : String
  deriving DecidableEq, Inhabited

/-- A rule; an important one must be kept, any other should be. -/
structure Constraint where
  rule : String
  source : String := ""
  important : Bool := false
  deriving DecidableEq, Inhabited

structure Suggestion where
  rule : String
  source : String := ""
  deriving DecidableEq, Inhabited

/-- A helper that some other node provides. -/
structure Utility where
  name : String
  signature : String := ""
  location : String := ""
  source : String := ""
  deriving DecidableEq, Inhabited

structure Context where
  interfaces : Table Interface := {}
  constraints : List Constraint := []
  suggestions : List Suggestion := []
  utilities : List Utility := []
  /-- The names that the child is to pass further down. -/
  forwarding : Option (List String) := none
  deriving DecidableEq, Inhabited

namespace Context

/-- The root has no parent. -/
def empty : Context := {}

/-- The names to forward, none if nothing is said. -/
def forwarded (c : Context) : List String := c.forwarding.getD []

/-- One line on what a context holds. -/
def summary (c : Context) : String :=
  let count (n : Nat) (noun : String) := toString n ++ " " ++ noun
  let list (names : List String) := ": " ++ String.intercalate ", " names
  let parts :=
    (if c.interfaces.isEmpty then []
      else [count c.interfaces.size "interface(s)" ++ list c.interfaces.names])
    ++ (if c.constraints.isEmpty then [] else [count c.constraints.length "constraint(s)"])
    ++ (if c.suggestions.isEmpty then [] else [count c.suggestions.length "suggestion(s)"])
    ++ (if c.utilities.isEmpty then []
      else [count c.utilities.length "utility(s)" ++ list (c.utilities.map Utility.name)])
    ++ (if c.forwarded.isEmpty then [] else ["forwarding" ++ list c.forwarded])
  if parts.isEmpty then "(empty context)" else String.intercalate "; " parts

end Context

end SpecTree
