import SpecTree.Spec.Lexer
import SpecTree.Spec.Statement
import SpecTree.Text.Digit

/-!
# Printer

The canonical text of a tree, from which parsing recovers it. Every module goes on lines of its
own, indented by its depth; only the first line of a statement is indented, since the further
lines of code, strings and prose belong to their text.
-/

namespace SpecTree.Spec

/-! ## Parameter values -/

/-- The text between the quotes of a string token whose value is `value`. -/
def escapeChars : List Char → List Char
  | [] => []
  | '\\' :: cs => '\\' :: '\\' :: escapeChars cs
  | '"' :: cs => '\\' :: '"' :: escapeChars cs
  | c :: cs => c :: escapeChars cs

def escape (value : String) : String := String.ofList (escapeChars value.toList)

/-- Digits, with or without a point and further digits. -/
def isPlainNumber (cs : List Char) : Bool :=
  let (whole, rest) := cs.span Text.isDecimalDigit
  match rest with
  | [] => !whole.isEmpty
  | '.' :: decimals => !whole.isEmpty && !decimals.isEmpty && decimals.all Text.isDecimalDigit
  | _ => false

def isPlainName : List Char → Bool
  | [] => false
  | c :: cs => isNameStart c && cs.all isNameChar

/-- Values that need no quotes, with or without a final line end. -/
def isBareValue (cs : List Char) : Bool :=
  let body := if cs.getLast? = some '\n' then cs.dropLast else cs
  isPlainNumber body || isPlainName body

/-- Bare numbers and names stay as they are; everything else is quoted. -/
def paramValueText (value : String) : String :=
  if isBareValue value.toList then value else "\"" ++ escape value ++ "\""

/-! ## Statements -/

def Pseudo.text (p : Pseudo) : String :=
  if p.args.isEmpty then ":" ++ p.name
  else ":" ++ p.name ++ "(" ++ String.intercalate ", " p.args ++ ")"

def Header.text (h : Header) : String :=
  (match h.combinator with
    | some c => c.symbol ++ " "
    | none => "")
  ++ h.name ++ String.join (h.tags.map ("." ++ ·)) ++ String.join (h.pseudos.map Pseudo.text)

def withImportance (text : String) (important : Bool) : String :=
  if important then text ++ " !important" else text

def indentation (depth : Nat) : String := "".pushn ' ' (2 * depth)

/-- The lines that are not empty, each but the last followed by a line end. -/
def joinLines (lines : List String) : String :=
  String.intercalate "\n" (lines.filter (!·.isEmpty))

/-- A text at the given depth; an empty one stays empty. -/
def indented (depth : Nat) (text : String) : String :=
  if text.isEmpty then "" else indentation depth ++ text

namespace Statement

mutual

/-- The text of a statement `depth` modules deep. -/
def render (depth : Nat) : Statement → String
  | module header children _ =>
    let head := indentation depth ++ header.text ++ " \x7b\n"
    let body := renderAll (depth + 1) children
    let foot := indentation depth ++ "\x7d"
    if body.isEmpty then head ++ foot else head ++ body ++ "\n" ++ foot
  | prose text important _ => indented depth (withImportance text important)
  | constraint text important _ => indented depth (withImportance text important ++ ";")
  | inclusion path _ => indented depth ("include " ++ path ++ ";")
  | param name value _ => indented depth (name ++ "=" ++ paramValueText value ++ ";")
  | comment text _ => indented depth text

/-- The texts of statements in a row, one under another. -/
def renderAll (depth : Nat) (statements : List Statement) : String :=
  joinLines (renderEach depth statements)

def renderEach (depth : Nat) : List Statement → List String
  | [] => []
  | s :: rest => s.render depth :: renderEach depth rest

end

end Statement

/-- The canonical text of a document. -/
def Document.render (d : Document) : String := Statement.renderAll 0 d.children

namespace Node

/-- The canonical text of a node. -/
def render : Node → String
  | document d => d.render
  | statement s => s.render 0

/-- The text inside a container, without its own header; the text of any other node. -/
def renderBody : Node → String
  | document d => d.render
  | statement (.module _ children _) => Statement.renderAll 0 children
  | statement s => s.render 0

end Node

end SpecTree.Spec
