import SpecTree.Decimal.Limit
import SpecTree.Yaml.Block
import SpecTree.Yaml.Plain

/-!
# Layout

A file is a row of tokens: the marks of documents, lists and mappings, the names and tags of
values, and texts. Blocks are told apart by indentation: a dash or a key in a column further
right than the block around it opens a block, one further left closes it. Whether a value is a key
shows only at the colon after it, on the same line and not too far away; a token that may turn out
to start a key is therefore remembered, for each depth of brackets, and the key's mark is put in
front of it later.
-/

namespace SpecTree.Yaml

/-! ## Tokens -/

/-- What a line that starts with a percent sign says. -/
inductive Directive where
  | version (major minor : Nat)
  /-- A tag that starts with the handle starts with the text instead. -/
  | handle (name text : String)
  | other
  deriving Repr, DecidableEq

inductive Token where
  | directive (d : Directive)
  | documentStart
  | documentEnd
  | fileEnd
  /-- A list whose items stand below each other. -/
  | listBlock
  /-- A mapping whose keys stand below each other. -/
  | mapBlock
  | blockEnd
  | openList
  | closeList
  | openMap
  | closeMap
  | dash
  | comma
  | key
  | value
  | anchor (name : String)
  | alias (name : String)
  | tag (handle : Option String) (suffix : String)
  | text (plain : Bool) (s : String)
  deriving Repr, DecidableEq

/-! ## Finding them -/

/-- A token that a key may start with. -/
structure Candidate where
  /-- Brackets around it. -/
  depth : Nat
  /-- Tokens before it. -/
  number : Nat
  place : Place
  /-- A value that stands where only a key may. -/
  required : Bool

structure Layout where
  place : Place
  tokens : Array Token := #[]
  depth : Nat := 0
  /-- The column of the innermost block, and those of the blocks around it. -/
  indent : Int := -1
  outer : List Int := []
  mayStartKey : Bool := true
  candidates : List Candidate := []

/-- The characters between the start of a key and its colon are at most these. -/
def maxKeyLength : Nat := 1024

namespace Layout

def push (l : Layout) (t : Token) : Layout := { l with tokens := l.tokens.push t }

/-- Puts a token in front of the one of a number. -/
def insert (l : Layout) (number : Nat) (t : Token) : Layout :=
  { l with tokens := (l.tokens.extract 0 number).push t ++ l.tokens.extract number l.tokens.size }

/-- A token of some characters that stands here. -/
def mark (l : Layout) (length : Nat) (t : Token) : Layout :=
  { l with place := l.place.advance length }.push t

def inBrackets (l : Layout) : Bool := l.depth != 0

/-- The column from which a text belongs to the innermost block. -/
def least (l : Layout) : Nat := (l.indent + 1).toNat

/-! ## Candidates -/

/-- Whether a token can no longer start a key: the line has ended, or it lies too far back. -/
def isStale (l : Layout) (c : Candidate) : Bool :=
  c.place.line != l.place.line || maxKeyLength < l.place.index - c.place.index

/-- Without the candidates that are none any more; a required one has to stay. -/
def dropStale (l : Layout) : Except Problem Layout :=
  if l.candidates.any fun c => l.isStale c && c.required then .error .malformed
  else .ok { l with candidates := l.candidates.filter fun c => !l.isStale c }

def candidate? (l : Layout) : Option Candidate := l.candidates.find? (·.depth == l.depth)

def forget (l : Layout) : Layout :=
  { l with candidates := l.candidates.filter (·.depth != l.depth) }

/-- Without the candidate between the innermost brackets, unless it is required. -/
def dropCandidate (l : Layout) : Except Problem Layout :=
  if (l.candidate?.map (·.required)).getD false then .error .malformed else .ok l.forget

/-- The next token may start a key if one may start here. -/
def addCandidate (l : Layout) : Except Problem Layout :=
  if l.mayStartKey then do
    let l ← l.dropCandidate
    let required := !l.inBrackets && l.indent == l.place.column
    return { l with candidates := ⟨l.depth, l.tokens.size, l.place, required⟩ :: l.candidates }
  else .ok l

/-- The tokens that nothing can be put in front of any more. -/
def settled (l : Layout) : List Token :=
  let first := (l.candidates.map (·.number)).foldl min l.tokens.size
  (l.tokens.extract 0 first).toList

/-! ## Indentation -/

/-- Whether a block has to be opened for a column. -/
def isDeeper (l : Layout) (column : Nat) : Bool := l.indent < column

def indented (l : Layout) (column : Nat) : Layout :=
  { l with outer := l.indent :: l.outer, indent := column }

/-- Opens a block where a dash, or the mark of a key or value, stands further right. -/
def openBlock (l : Layout) (t : Token) : Layout :=
  if l.isDeeper l.place.column then (l.indented l.place.column).push t else l

/-- Closes the blocks that lie further right than a column. -/
def closeBlocks (column : Int) (indent : Int) (outer : List Int) (l : Layout) : Layout :=
  if column < indent then
    match outer with
    | [] => { l with indent, outer }
    | next :: outer => closeBlocks column next outer (l.push .blockEnd)
  else { l with indent, outer }

def dedent (l : Layout) (column : Int) : Layout :=
  if l.inBrackets then l else l.closeBlocks column l.indent l.outer

/-! ## Directives -/

def isNameChar (c : Char) : Bool :=
  ('0' ≤ c && c ≤ '9') || ('A' ≤ c && c ≤ 'Z') || ('a' ≤ c && c ≤ 'z') || c == '-' || c == '_'

/-- A name, which is not empty. -/
def name (p : Place) : Except Problem (String × Place) :=
  let (cs, p) := p.take isNameChar
  if cs.isEmpty then .error .malformed else .ok (String.ofList cs, p)

def versionNumber (p : Place) : Except Problem (Nat × Place) :=
  let (ds, p) := p.take fun c => '0' ≤ c && c ≤ '9'
  if ds.isEmpty then .error .malformed
  else if Decimal.maxDigits < ds.length then .error (.longNumber ds.length)
  else .ok (ds.foldl (fun n d => 10 * n + (d.toNat - '0'.toNat)) 0, p)

/-- What a tag may consist of. -/
def isTagChar (c : Char) : Bool :=
  isNameChar c || ";/?:@&=+$,.!~*\x27()[]".toList.contains c

/-- Bytes written as percent signs with two hexadecimal digits each. -/
def escapedBytes (fuel : Nat) (p : Place) : Except Problem (List UInt8 × Place) :=
  match fuel, p.rest with
  | fuel + 1, '%' :: a :: b :: _ =>
    match Text.hexValue? a, Text.hexValue? b with
    | some a, some b => do
      let (bytes, p) ← escapedBytes fuel (p.advance 3)
      return (UInt8.ofNat (16 * a + b) :: bytes, p)
    | _, _ => .error .malformed
  | _, '%' :: _ => .error .malformed
  | _, _ => .ok ([], p)

/-- The characters of a tag from here on. -/
def tagChars (fuel : Nat) (p : Place) : Except Problem (List Char × Place) :=
  match fuel with
  | 0 => .error .malformed
  | fuel + 1 =>
    let (cs, p) := p.take isTagChar
    if p.rest.head? == some '%' then do
      let (bytes, p) ← escapedBytes p.rest.length p
      match String.fromUTF8? ⟨bytes.toArray⟩ with
      | some s => do
        let (more, p) ← tagChars fuel p
        return (cs ++ s.toList ++ more, p)
      | none => .error .malformed
    else .ok (cs, p)

/-- The text of a tag; it is not missing. -/
def tagText (p : Place) : Except Problem (String × Place) := do
  let (cs, after) ← tagChars (p.rest.length + 1) p
  if after.index = p.index then .error .malformed else return (String.ofList cs, after)

/-- A handle of tags: a name between exclamation marks, or nothing between or after them. -/
def handle (p : Place) : Except Problem (String × Place) :=
  match p.rest with
  | '!' :: cs =>
    if cs.head? == some ' ' then .ok ("!", p.step)
    else
      let (name, p) := p.step.take isNameChar
      if p.rest.head? == some '!' then .ok (String.ofList ('!' :: name ++ ['!']), p.step)
      else .error .malformed
  | _ => .error .malformed

def versionDirective (p : Place) : Except Problem (Directive × Place) := do
  let (major, p) ← versionNumber (p.skip isSpace)
  if p.rest.head? ≠ some '.' then .error .malformed
  let (minor, p) ← versionNumber p.step
  if atStop p.rest then return (.version major minor, p) else .error .malformed

def handleDirective (p : Place) : Except Problem (Directive × Place) := do
  let (name, p) ← handle (p.skip isSpace)
  if p.rest.head? ≠ some ' ' then .error .malformed
  let (text, p) ← tagText (p.skip isSpace)
  if atStop p.rest then return (.handle name text, p) else .error .malformed

/-- A directive after its percent sign, with the rest of its line. -/
def directive (p : Place) : Except Problem (Directive × Place) := do
  let (word, p) ← name p
  if !atStop p.rest then .error .malformed
  let (d, p) ←
    if word = "YAML" then versionDirective p
    else if word = "TAG" then handleDirective p
    else pure (Directive.other, p.skip fun c => !isBreak c)
  let p := p.skipComment
  if atLineEnd p.rest then return (d, (p.lineBreak?.map (·.2)).getD p) else .error .malformed

/-! ## Tokens -/

/-- The end of a block structure, before a document mark, a directive or the end of the file. -/
def closeAll (l : Layout) : Except Problem Layout := do
  let l ← (l.dedent (-1)).dropCandidate
  return { l with mayStartKey := false }

def openBracket (l : Layout) (t : Token) : Except Problem Layout := do
  let l ← l.addCandidate
  return { l with depth := l.depth + 1, mayStartKey := true }.mark 1 t

/-- A closing bracket; whether it was opened is seen when the tokens are read. -/
def closeBracket (l : Layout) (t : Token) : Except Problem Layout := do
  let l ← l.dropCandidate
  return { l with depth := l.depth - 1, mayStartKey := false }.mark 1 t

def comma (l : Layout) : Except Problem Layout := do
  let l ← l.dropCandidate
  return { l with mayStartKey := true }.mark 1 .comma

def dash (l : Layout) : Except Problem Layout := do
  if !l.inBrackets && !l.mayStartKey then .error .malformed
  let l := if l.inBrackets then l else l.openBlock .listBlock
  let l ← l.dropCandidate
  return { l with mayStartKey := true }.mark 1 .dash

/-- A question mark, which marks a key. -/
def questionMark (l : Layout) : Except Problem Layout := do
  if !l.inBrackets && !l.mayStartKey then .error .malformed
  let l := if l.inBrackets then l else l.openBlock .mapBlock
  let l ← l.dropCandidate
  return { l with mayStartKey := !l.inBrackets }.mark 1 .key

/-- A colon: what started with the candidate was a key, if there is one. -/
def colon (l : Layout) : Except Problem Layout :=
  match l.candidate? with
  | some c =>
    let l := l.forget.insert c.number .key
    let l :=
      if !l.inBrackets && l.isDeeper c.place.column then
        (l.indented c.place.column).insert c.number .mapBlock
      else l
    .ok ({ l with mayStartKey := false }.mark 1 .value)
  | none => do
    if !l.inBrackets && !l.mayStartKey then .error .malformed
    let l := if l.inBrackets then l else l.openBlock .mapBlock
    let l ← { l with mayStartKey := !l.inBrackets }.dropCandidate
    return l.mark 1 .value

/-- The name of an anchor or of the alias for one. -/
def anchorName (l : Layout) (token : String → Token) : Except Problem Layout := do
  let l ← l.addCandidate
  let (name, place) ← name l.place.step
  let ends := atGap place.rest || (place.rest.head?.map "?:,]\x7d%@\x60".toList.contains).getD false
  if ends then return { l with place, mayStartKey := false }.push (token name)
  else .error .malformed

/-- A tag after its exclamation mark: in angle brackets, alone, or after a handle. -/
def tag (p : Place) : Except Problem (Token × Place) :=
  match p.step.rest with
  | '<' :: _ => do
    let (text, p) ← tagText (p.advance 2)
    if p.rest.head? == some '>' then return (.tag none text, p.step) else .error .malformed
  | rest =>
    if atGap rest then .ok (.tag none "!", p.step)
    else do
      let word := rest.takeWhile fun c => !isSpace c && !isBreak c
      let (h, p) ← if word.contains '!' then handle p else pure ("!", p.step)
      let (text, p) ← tagText p
      return (.tag (some h) text, p)

def addTag (l : Layout) : Except Problem Layout := do
  let l ← l.addCandidate
  let (token, place) ← tag l.place
  if atStop place.rest then return { l with place, mayStartKey := false }.push token
  else .error .malformed

def block (l : Layout) (folds : Bool) : Except Problem Layout := do
  let l ← { l with mayStartKey := true }.dropCandidate
  let (text, place) ← blockText folds l.least l.place.step
  return { l with place }.push (.text false (String.ofList text))

def quoted (l : Layout) (double : Bool) : Except Problem Layout := do
  let l ← l.addCandidate
  let (text, place) ← quotedText (l.place.rest.length + 1) double l.place.step
  return { l with place, mayStartKey := false }.push (.text false (String.ofList text))

def plain (l : Layout) : Except Problem Layout := do
  let l ← l.addCandidate
  let (text, place, lineEnded) :=
    plainText (l.place.rest.length + 1) l.inBrackets l.least l.place [] [] false
  return { l with place, mayStartKey := lineEnded }.push (.text true (String.ofList text))

/-- What a plain text does not start with. -/
def isIndicator (c : Char) : Bool := "-?:,[]\x7b\x7d#&*!|>\x27\"%@\x60".toList.contains c

/-- Whether a plain text may start with a character. -/
def startsPlain (inBrackets : Bool) (c : Char) (after : List Char) : Bool :=
  !(isBlank c || isBreak c || isIndicator c)
    || (!atGap after && (c == '-' || (!inBrackets && (c == '?' || c == ':'))))

/-- Past spaces, comments and the ends of lines; on a new line outside brackets a key may start. -/
def skipBlanks (fuel : Nat) (l : Layout) : Layout :=
  match fuel with
  | 0 => l
  | fuel + 1 =>
    let place := l.place.skipComment
    match place.lineBreak? with
    | some (_, place) =>
      skipBlanks fuel { l with place, mayStartKey := l.mayStartKey || !l.inBrackets }
    | none => { l with place }

/-- The token that starts with a character. -/
def fetch (l : Layout) (c : Char) (after : List Char) : Except Problem Layout :=
  let standsAlone := l.inBrackets || atGap after
  if c = '%' ∧ l.place.column = 0 then do
    let l ← l.closeAll
    let (d, place) ← directive l.place.step
    return { l with place }.push (.directive d)
  else if l.place.column = 0 ∧ atDocumentMark l.place.rest then do
    return (← l.closeAll).mark 3 (if c = '-' then .documentStart else .documentEnd)
  else if c = '[' then l.openBracket .openList
  else if c = '{' then l.openBracket .openMap
  else if c = ']' then l.closeBracket .closeList
  else if c = '}' then l.closeBracket .closeMap
  else if c = ',' then l.comma
  else if c = '-' ∧ atGap after then l.dash
  else if c = '?' ∧ standsAlone then l.questionMark
  else if c = ':' ∧ standsAlone then l.colon
  else if c = '*' then l.anchorName .alias
  else if c = '&' then l.anchorName .anchor
  else if c = '!' then l.addTag
  else if c = '|' ∧ !l.inBrackets then l.block false
  else if c = '>' ∧ !l.inBrackets then l.block true
  else if c = '\x27' then l.quoted false
  else if c = '"' then l.quoted true
  else if startsPlain l.inBrackets c after then l.plain
  else .error .malformed

/-- The next tokens, and whether they are the last ones. -/
def step (l : Layout) : Except Problem (Layout × Bool) := do
  let l ← (l.skipBlanks (l.place.rest.length + 1)).dropStale
  let l := l.dedent l.place.column
  match l.place.rest with
  | [] => return ((← l.closeAll).push .fileEnd, true)
  | c :: after => return (← l.fetch c after, false)

/-- The tokens up to the end of the file or up to a problem. -/
def run (fuel : Nat) (l : Layout) : List Token × Option Problem :=
  match fuel with
  | 0 => (l.settled, some .malformed)
  | fuel + 1 =>
    match l.step with
    | .error e => (l.settled, some e)
    | .ok (l, true) => (l.tokens.toList, none)
    | .ok (l, false) => l.run fuel

end Layout

/-- The tokens of a text and why there are no more of them. A mark of the byte order may come
first. -/
def tokensOf (cs : List Char) : List Token × Option Problem :=
  let start := Place.start cs
  let place := if cs.head? == some '\uFEFF' then start.step else start
  Layout.run (cs.length + 1) { place }

end SpecTree.Yaml
