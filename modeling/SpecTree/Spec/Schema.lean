import SpecTree.Json.Decode
import SpecTree.Spec.Diagnostic
import SpecTree.Spec.Lexer
import SpecTree.Spec.Statement

/-!
# Specs as JSON

The form in which tools see tokens, statements and diagnostics. Statements can be read back, but
for the places where they stood.
-/

namespace SpecTree.Spec

def natural (n : Nat) : Json := .int n

/-- Line, column and offset. -/
def Position.numbers (p : Position) : List Json :=
  [natural p.line, natural p.column, natural p.offset]

def Span.toJson (s : Span) : Json := .arr (.str s.file :: s.start.numbers ++ s.stop.numbers)

/-! ## Tokens -/

/-- The kinds of tokens with their names. -/
def TokenKind.named : List (TokenKind × String) :=
  [(.identifier, "identifier"), (.includeWord, "include"), (.string, "string"),
   (.number, "number"), (.braceOpen, "brace_open"), (.braceClose, "brace_close"),
   (.parenOpen, "paren_open"), (.parenClose, "paren_close"), (.semicolon, "semicolon"),
   (.equals, "equals"), (.dot, "dot"), (.colon, "colon"), (.greater, "gt"), (.plus, "plus"),
   (.tilde, "tilde"), (.important, "important"), (.comment, "comment"),
   (.codeBlock, "code_block"), (.inlineCode, "inline_code"), (.text, "text"),
   (.newline, "newline"), (.whitespace, "whitespace"), (.eof, "eof")]

def TokenKind.name (k : TokenKind) : String := (named.lookup k).getD ""

def TokenKind.ofName? (name : String) : Option TokenKind :=
  (named.find? fun entry => entry.2 == name).map Prod.fst

def natural? : Json → Option Nat
  | .int (.ofNat n) => some n
  | _ => none

/-- A token as its kind, its text and where it starts. -/
def Token.ofJson? : Json → Option Token
  | .arr [kind, text, line, column, offset] => do
    let kind ← TokenKind.ofName? (← kind.text?)
    return ⟨kind, ← text.text?, ⟨← natural? line, ← natural? column, ← natural? offset⟩⟩
  | _ => none

def Token.toJson (t : Token) : Json :=
  .arr (.str t.kind.name :: .str t.text :: t.start.numbers ++ t.stop.numbers)

def LexError.toJson (e : LexError) : Json := .arr (.str e.problem.message :: e.position.numbers)

/-! ## Statements -/

def Pseudo.toJson (p : Pseudo) : Json := .obj [("name", .str p.name), ("args", .texts p.args)]

/-- A node of some type, with the place where it stands. -/
def nodeJson (type : String) (fields : List (String × Json)) (span : Span) : Json :=
  .obj (("type", .str type) :: fields ++ [("src", span.toJson)])

def Header.fields (h : Header) : List (String × Json) :=
  [("name", .str h.name), ("tags", .texts h.tags), ("pseudos", .arr (h.pseudos.map Pseudo.toJson)),
   ("combinator", h.combinator.elim .null fun c => .str c.name)]

mutual

def Statement.toJson : Statement → Json
  | .module h children span =>
    nodeJson "module" (h.fields ++ [("children", .arr (statementsJson children))]) span
  | .prose text important span =>
    nodeJson "prose" [("text", .str text), ("important", .bool important)] span
  | .constraint text important span =>
    nodeJson "constraint" [("text", .str text), ("important", .bool important)] span
  | .inclusion path span => nodeJson "include" [("path", .str path)] span
  | .param name value span => nodeJson "param" [("name", .str name), ("value", .str value)] span
  | .comment text span => nodeJson "comment" [("text", .str text)] span

def statementsJson : List Statement → List Json
  | [] => []
  | s :: rest => s.toJson :: statementsJson rest

end

def Document.toJson (d : Document) : Json :=
  nodeJson "root" [("children", .arr (statementsJson d.children))] d.span

def Diagnostic.toJson (d : Diagnostic) : Json :=
  .obj [("message", .str d.message), ("severity", .str d.severity.name), ("src", d.span.toJson),
    ("format", .str d.format)]

/-! ## Reading statements -/

open Json (text? flag? list?)

/-- Why a node cannot be read. -/
inductive Refusal where
  /-- A field is missing or of the wrong kind. -/
  | invalid
  /-- A document stands inside another node. -/
  | nested
  deriving Repr, DecidableEq

/-- Two results together. What is invalid anywhere outweighs what is nested. -/
def joined {α β : Type} (a : Except Refusal α) (b : Except Refusal β) : Except Refusal (α × β) :=
  match a, b with
  | .ok a, .ok b => .ok (a, b)
  | .error .invalid, _ | _, .error .invalid => .error .invalid
  | _, _ => .error .nested

def Pseudo.ofJson? (j : Json) : Option Pseudo := do
  return ⟨← j.member? "name" text?, ← j.memberOr "args" (list? text?) []⟩

def Combinator.ofName? (name : String) : Option Combinator :=
  [child, adjacent, general].find? fun c => c.name == name

def Combinator.ofJson? (j : Json) : Option Combinator := j.text? >>= ofName?

def Header.ofJson? (j : Json) : Option Header := do
  return {
    name := ← j.member? "name" text?
    tags := ← j.memberOr "tags" (list? text?) []
    pseudos := ← j.memberOr "pseudos" (list? Pseudo.ofJson?) []
    combinator := ← j.optional? "combinator" Combinator.ofJson? }

/-- A statement but for the statements in it. -/
def statement? (j : Json) : Option (List Statement → Statement) := do
  let span := Span.empty ""
  let text := j.member? "text" text?
  let important := j.memberOr "important" flag? false
  match ← j.member? "type" text? with
  | "module" => do
    let header ← Header.ofJson? j
    return fun children => .module header children span
  | "prose" => return Function.const _ (.prose (← text) (← important) span)
  | "constraint" => return Function.const _ (.constraint (← text) (← important) span)
  | "include" => return Function.const _ (.inclusion (← j.member? "path" text?) span)
  | "param" =>
    return Function.const _ (.param (← j.member? "name" text?) (← j.member? "value" text?) span)
  | "comment" => return Function.const _ (.comment (← text) span)
  | _ => none

def isDocument (j : Json) : Bool := j.member? "type" text? == some "root"

/-- Whether a node of a kind has children. -/
def hasChildren (j : Json) : Bool := isDocument j || j.member? "type" text? == some "module"

mutual

def Statement.ofJson : Json → Except Refusal Statement
  | .obj members =>
    let j := Json.obj members
    let children := if hasChildren j then childrenOfJson members else .ok []
    if isDocument j then (joined children (.error .nested)).map (·.2)
    else
      let made : Except Refusal (List Statement → Statement) :=
        match statement? j with
        | some make => .ok make
        | none => .error .invalid
      (joined made children).map fun (make, children) => make children
  | _ => .error .invalid

/-- The statements under the name for children. -/
def childrenOfJson : List (String × Json) → Except Refusal (List Statement)
  | [] => .ok []
  | (name, j) :: rest =>
    if name = "children" then
      match j with
      | .arr items => statementsOfJson items
      | _ => .error .invalid
    else childrenOfJson rest

def statementsOfJson : List Json → Except Refusal (List Statement)
  | [] => .ok []
  | j :: rest =>
    (joined (Statement.ofJson j) (statementsOfJson rest)).map fun (s, others) => s :: others

end

/-- A document stands by itself only; inside another node it is no statement. -/
def Node.ofJson (j : Json) : Except Refusal Node :=
  match j with
  | .obj members =>
    if isDocument j then
      (childrenOfJson members).map fun children => .document ⟨children, Span.empty ""⟩
    else (Statement.ofJson j).map .statement
  | _ => .error .invalid

end SpecTree.Spec
