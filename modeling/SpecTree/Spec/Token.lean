import SpecTree.Spec.Position

/-!
# Tokens

The kinds of tokens of a spec file, and a token as a kind with its text and where it starts.
-/

namespace SpecTree.Spec

inductive TokenKind where
  | identifier
  | includeWord
  | string
  | number
  | braceOpen
  | braceClose
  | parenOpen
  | parenClose
  | semicolon
  | equals
  | dot
  | colon
  | greater
  | plus
  | tilde
  | important
  | comment
  | codeBlock
  | inlineCode
  | text
  | newline
  | whitespace
  | eof
  deriving Repr, DecidableEq, Inhabited

structure Token where
  kind : TokenKind
  text : String
  start : Position
  deriving Repr, DecidableEq, Inhabited

namespace Token

/-- The position just past the token, counted along its first line. -/
def stop (t : Token) : Position := t.start.along t.text.length

def span (file : String) (t : Token) : Span := ⟨file, t.start, t.stop⟩

end Token

end SpecTree.Spec
