import SpecTree.Spec.Position

/-!
# Diagnostics

What can be wrong with a spec, as causes; the wording and the severity of each cause are decided
here once.
-/

namespace SpecTree.Spec

/-- What is wrong with a spec. -/
inductive Problem where
  | unclosedBlockComment
  | unclosedFence
  | unclosedInlineCode
  | unclosedString
  | missingBrace
  | strayCloseBrace
  | strayOpenBrace
  | missingPath
  | missingValue (parameter : String)
  | remoteImport
  | circularImport (path : String)
  | unreadableImport (path : String)
  | unreadableFile (path : String)
  | remark (text : String)
  deriving Repr, DecidableEq

inductive Severity where
  | error
  | warning
  deriving Repr, DecidableEq

def Severity.name : Severity → String
  | .error => "error"
  | .warning => "warning"

namespace Problem

def message : Problem → String
  | unclosedBlockComment => "Unclosed block comment"
  | unclosedFence => "Unclosed fenced code block"
  | unclosedInlineCode => "Unclosed inline code"
  | unclosedString => "Unclosed string"
  | missingBrace => "Expected '\x7d'"
  | strayCloseBrace => "Unexpected '\x7d'"
  | strayOpenBrace => "Unexpected '\x7b' without a module name"
  | missingPath => "Expected path after 'include'"
  | missingValue parameter => "Expected value for parameter '" ++ parameter ++ "'"
  | remoteImport => "URL imports not yet supported"
  | circularImport path => "Circular import detected: " ++ path
  | unreadableImport path => "Failed to read import: " ++ path
  | unreadableFile path => "Failed to read file: " ++ path
  | remark text => text

/-- A stray brace can be skipped without losing a statement; all else is an error. -/
def severity : Problem → Severity
  | strayCloseBrace | strayOpenBrace => .warning
  | _ => .error

end Problem

/-- A problem and the stretch of text that shows it. -/
structure Diagnostic where
  problem : Problem
  span : Span
  deriving Repr, DecidableEq

namespace Diagnostic

def message (d : Diagnostic) : String := d.problem.message

def severity (d : Diagnostic) : Severity := d.problem.severity

def isError (d : Diagnostic) : Bool := d.severity = .error

/-- One line for a reader: place, severity and message. -/
def format (d : Diagnostic) : String :=
  d.span.file ++ ":" ++ toString d.span.start.line ++ ":" ++ toString d.span.start.column
    ++ ": " ++ d.severity.name ++ ": " ++ d.message

end Diagnostic

end SpecTree.Spec
