import SpecTree.Provider.Answer
import SpecTree.Spec.Parser

/-!
# Children as nodes

The spec of a child is text that its parent's provider wrote. It becomes a module under the
child's name: parsed where it is well-formed, as one prose statement otherwise, and unwrapped
where it is nothing but a module with the child's own name.
-/

namespace SpecTree.Plan

open Spec

def isComment : Statement → Bool
  | .comment .. => true
  | _ => false

/-- The statements inside a module that stands for the child itself. -/
def unwrap (name : String) (statements : List Statement) : List Statement :=
  match statements.filter (!isComment ·) with
  | [.module header children _] =>
    if header.name = name && header.combinator.isNone then children else statements
  | _ => statements

/-- The statements of a child's spec. -/
def childStatements (child : ChildSpec) (file : String) : List Statement :=
  let parsed := parseSource file child.spec
  if parsed.problems.any Diagnostic.isError then
    let text := Text.strip child.spec
    if text.isEmpty then [] else [.prose text false (Span.empty file)]
  else unwrap child.name parsed.document.children

/-- A child as a module under the name it was given among its siblings. -/
def childNode (child : ChildSpec) (name path : String) : Statement :=
  let file := "<" ++ path ++ ">"
  .module { name, tags := child.tags } (childStatements child file) (Span.empty file)

end SpecTree.Plan
