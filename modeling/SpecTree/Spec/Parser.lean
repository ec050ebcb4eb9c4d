import SpecTree.Spec.Diagnostic
import SpecTree.Spec.Lexer
import SpecTree.Spec.Statement
import SpecTree.Text.Blank
import SpecTree.Text.Pieces

/-!
# Parser

Any list of tokens is a document, with diagnostics where its braces, includes and parameters are
broken.

1. Look-ahead: `header?` recognises a module header up to its brace, `startsParam` and
   `startsInclude` the two kinds of short statement.
2. One reader per kind of statement. `readStatement_rest_length` says that a statement takes at
   least one token.
3. `readBlock` reads statements up to the end or, inside braces, up to the closing brace.

All readers take the tokens ahead and give back those that remain; the end token, or the lack of
one, is never passed.
-/

namespace SpecTree.Spec

open Text (strip isBlankText splitWhile splitWhile_append splitWhile_snd_length)

/-! ## The tokens ahead -/

/-- The kind of the next token; the end of the list counts as the end token. -/
def nextKind : List Token → TokenKind
  | [] => .eof
  | t :: _ => t.kind

def skipKinds (p : TokenKind → Bool) (ts : List Token) : List Token :=
  ts.dropWhile fun t => p t.kind

def skipBlanks (ts : List Token) : List Token := skipKinds (· == .whitespace) ts

def skipLines (ts : List Token) : List Token :=
  skipKinds (fun k => k == .whitespace || k == .newline) ts

def skipBlanksAndComments (ts : List Token) : List Token :=
  skipKinds (fun k => k == .whitespace || k == .comment) ts

/-- Skips everything that may stand between a module header and its brace. -/
def skipInsignificant (ts : List Token) : List Token :=
  skipKinds (fun k => k == .whitespace || k == .newline || k == .comment) ts

/-- Tokens that end a statement without being part of it, the semicolon included. -/
def endsStatement (k : TokenKind) : Bool :=
  k == .semicolon || k == .newline || k == .braceOpen || k == .braceClose || k == .eof

/-- Tokens that a path is made of. -/
def isPathToken (k : TokenKind) : Bool :=
  k == .identifier || k == .text || k == .dot || k == .number || k == .string || k == .colon
    || k == .includeWord

def combinator? : TokenKind → Option Combinator
  | .greater => some .child
  | .plus => some .adjacent
  | .tilde => some .general
  | _ => none

def joinTexts (ts : List Token) : String := String.join (ts.map Token.text)

/-- The stretch from the first token of `before` to the end of the last one that `after` lacks. -/
def spanBetween (file : String) (before after : List Token) : Span :=
  let used := before.take (before.length - after.length)
  ⟨file, (used.head?.map Token.start).getD .origin, (used.getLast?.map Token.stop).getD .origin⟩

/-! ## Quoted text -/

/-- `old` replaced by `new` wherever it occurs, from left to right. -/
def replacePair (a b new : Char) : List Char → List Char
  | [] => []
  | [c] => [c]
  | c :: d :: cs =>
    if c = a ∧ d = b then new :: replacePair a b new cs else c :: replacePair a b new (d :: cs)

/-- The text between the quotes of a string token, which may lack the closing one. -/
def stripQuotes (cs : List Char) : List Char :=
  match cs with
  | '"' :: body => if body.getLast? = some '"' then body.dropLast else body
  | _ => cs

/-- The value that a string token stands for: escaped quotes first, then escaped backslashes. -/
def unquote (text : String) : String :=
  String.ofList (replacePair '\\' '\\' '\\' (replacePair '\\' '"' '"' (stripQuotes text.toList)))

/-! ## Module headers -/

/-- Tokens that a parenthesised argument list stops at. -/
def endsArguments (k : TokenKind) : Bool := k == .parenClose || k == .eof || k == .braceOpen

/-- The arguments in parentheses, if there are any; `none` when the parenthesis is not closed. -/
def readArguments (ts : List Token) : Option (List String × List Token) :=
  match ts with
  | [] => some ([], [])
  | t :: rest =>
    if t.kind = .parenOpen then
      let (inner, after) := splitWhile (fun t => !endsArguments t.kind) rest
      match after with
      | close :: after =>
        if close.kind = .parenClose then
          some (((Text.splitAt ',' (joinTexts inner)).map strip).filter (!·.isEmpty), after)
        else none
      | [] => none
    else some ([], ts)

theorem readArguments_length {ts rest : List Token} {args : List String}
    (h : readArguments ts = some (args, rest)) : rest.length ≤ ts.length := by
  unfold readArguments at h
  split at h
  · cases h; simp
  · next t r =>
    split at h
    · dsimp only at h
      split at h
      · next close after hs =>
        split at h
        · cases h
          have := splitWhile_snd_length (fun t : Token => !endsArguments t.kind) r
          rw [hs] at this
          simp only [List.length_cons] at this ⊢
          omega
        · cases h
      · cases h
    · cases h; simp

/-- Tags and pseudo selectors in a row; `none` when a parenthesis is not closed. -/
def readSuffixes (ts : List Token) : Option (List String × List Pseudo × List Token) :=
  match ts with
  | mark :: name :: rest =>
    if name.kind ≠ .identifier then some ([], [], ts)
    else if mark.kind = .dot then
      (readSuffixes rest).map fun (tags, pseudos, after) => (name.text :: tags, pseudos, after)
    else if mark.kind = .colon then
      match _h : readArguments rest with
      | none => none
      | some (args, after) =>
        (readSuffixes after).map fun (tags, pseudos, after) =>
          (tags, ⟨name.text, args⟩ :: pseudos, after)
    else some ([], [], ts)
  | _ => some ([], [], ts)
termination_by ts.length
decreasing_by
  · simp only [List.length_cons]; omega
  · have := readArguments_length ‹_›
    simp only [List.length_cons]; omega

/-- A module header with its opening brace, and the tokens after the brace. -/
def header? (ts : List Token) : Option (Header × List Token) := do
  let combinator := combinator? (nextKind ts)
  match if combinator.isSome then skipBlanks ts.tail else ts with
  | [] => none
  | name :: rest =>
    guard (name.kind = .identifier)
    let (tags, pseudos, after) ← readSuffixes rest
    match skipInsignificant after with
    | [] => none
    | brace :: body =>
      guard (brace.kind = .braceOpen)
      return (⟨name.text, tags, pseudos, combinator⟩, body)

/-! ## Other statement starts -/

/-- `name =`, blanks allowed between. -/
def startsParam (ts : List Token) : Bool :=
  nextKind ts == .identifier && nextKind (skipBlanks ts.tail) == .equals

/-- Whether the word `include` at the head starts a statement: a path without blanks follows, and
nothing else before the statement's end. `include unit tests` is prose. -/
def startsInclude (ts : List Token) : Bool :=
  let path := skipBlanks ts.tail
  let after := skipBlanksAndComments (skipKinds isPathToken path)
  isPathToken (nextKind path) && nextKind path != .colon && endsStatement (nextKind after)

/-! ## Statements -/

/-- What a reader took from the tokens ahead. -/
structure Reading (α : Type) where
  value : α
  rest : List Token
  problems : List Diagnostic := []

def skipSemicolon (ts : List Token) : List Token :=
  if nextKind ts = .semicolon then ts.tail else ts

/-- The diagnostic of a problem shown by the next token. -/
def problemAt (file : String) (problem : Problem) : List Token → Diagnostic
  | [] => ⟨problem, .empty file⟩
  | t :: _ => ⟨problem, t.span file⟩

/-- The text that a token contributes to a path. -/
def pathText (t : Token) : String := if t.kind = .string then unquote t.text else t.text

/-- `include path` with an optional semicolon, from the word `include` on. -/
def readInclude (file : String) (ts : List Token) : Reading (Option Statement) :=
  let (run, after) := splitWhile (fun t => isPathToken t.kind) (skipBlanks ts.tail)
  let path := strip (String.join (run.map pathText))
  let rest := skipSemicolon (skipBlanksAndComments after)
  if path.isEmpty then ⟨none, rest, [problemAt file .missingPath ts]⟩
  else ⟨some (.inclusion path (spanBetween file ts rest)), rest, []⟩

/-- The value of a quoted parameter, if the string is all that the statement still has. -/
def quotedValue? (ts : List Token) : Option (String × List Token) :=
  match ts with
  | [] => none
  | t :: rest =>
    let after := skipBlanks rest
    if t.kind = .string ∧ (endsStatement (nextKind after) ∨ nextKind after = .comment) then
      some (unquote t.text, after)
    else none

/-- `name = value` with an optional semicolon, from the name on. -/
def readParam (file : String) (ts : List Token) : Reading (Option Statement) :=
  let name := (ts.head?.map Token.text).getD ""
  let start := skipBlanks (skipBlanks ts.tail).tail
  match quotedValue? start with
  | some (value, after) =>
    let rest := skipSemicolon after
    ⟨some (.param name value (spanBetween file ts rest)), rest, []⟩
  | none =>
    let (run, after) := splitWhile (fun t => !(endsStatement t.kind || t.kind == .comment)) start
    let value := strip (joinTexts run)
    let rest := skipSemicolon after
    ⟨some (.param name value (spanBetween file ts rest)), rest,
      if value.isEmpty then [problemAt file (.missingValue name) after] else []⟩

/-- A run of free text: its parts, last one first, and how it ended. -/
structure ProseRun where
  parts : List String
  important : Bool
  terminated : Bool
  rest : List Token

/-- Tokens that free text never contains. -/
def endsProse (k : TokenKind) : Bool :=
  k == .eof || k == .braceOpen || k == .braceClose || k == .comment

/-- Whether another statement starts here in the middle of free text: a module anywhere, the rest
only at the start of a line. -/
def interruptsProse (lineStart : Bool) (ts : List Token) : Bool :=
  (nextKind ts == .identifier && (header? ts).isSome)
    || (lineStart
      && (((combinator? (nextKind ts)).isSome && (header? ts).isSome)
        || startsParam ts || (nextKind ts == .includeWord && startsInclude ts)))

/-- The important marker takes the blank before it with it. -/
def dropBlankPart : List String → List String
  | [] => []
  | p :: ps => if isBlankText p then ps else p :: ps

/-- Reads on in free text whose parts so far are `parts`. -/
def readRun (parts : List String) (important lineStart : Bool) : List Token → ProseRun
  | [] => ⟨parts, important, false, []⟩
  | t :: ts =>
    if endsProse t.kind || (!parts.isEmpty && interruptsProse lineStart (t :: ts)) then
      ⟨parts, important, false, t :: ts⟩
    else if t.kind = .semicolon then ⟨parts, important, true, ts⟩
    else if t.kind = .important then readRun (dropBlankPart parts) true false ts
    else
      readRun (t.text :: parts) important
        (t.kind == .newline || (lineStart && t.kind == .whitespace)) ts

/-- Free text: a constraint when a semicolon ends it, prose otherwise. -/
def readProse (file : String) (ts : List Token) : Reading (Option Statement) :=
  let run := readRun [] false true ts
  let text := strip (String.join run.parts.reverse)
  let span := spanBetween file ts run.rest
  if text.isEmpty then ⟨none, run.rest, []⟩
  else if run.terminated then ⟨some (.constraint text run.important span), run.rest, []⟩
  else ⟨some (.prose text run.important span), run.rest, []⟩

/-- One statement that is not a module. -/
def readStatement (file : String) (ts : List Token) : Reading (Option Statement) :=
  match ts with
  | [] => ⟨none, [], []⟩
  | t :: rest =>
    if t.kind = .comment then ⟨some (.comment t.text (spanBetween file ts rest)), rest, []⟩
    else if t.kind = .includeWord
        ∧ (nextKind (skipBlanks rest) = .semicolon ∨ startsInclude ts = true) then
      readInclude file ts
    else if startsParam ts then readParam file ts
    else readProse file ts

/-! ## Every statement takes a token -/

theorem skipKinds_length (p : TokenKind → Bool) (ts : List Token) :
    (skipKinds p ts).length ≤ ts.length :=
  (List.dropWhile_suffix _).length_le

theorem skipSemicolon_length (ts : List Token) : (skipSemicolon ts).length ≤ ts.length := by
  unfold skipSemicolon
  split <;> simp

theorem readSuffixes_length {ts rest : List Token} {tags : List String} {pseudos : List Pseudo}
    (h : readSuffixes ts = some (tags, pseudos, rest)) : rest.length ≤ ts.length := by
  fun_induction readSuffixes ts generalizing tags pseudos rest with
  | case1 => cases h; simp
  | case2 mark name r _ _ ih =>
    obtain ⟨⟨tags', pseudos', rest'⟩, h', heq⟩ := Option.map_eq_some_iff.1 h
    cases heq
    have := ih h'
    simp only [List.length_cons]; omega
  | case3 => cases h
  | case4 mark name r _ _ _ args after ha ih =>
    obtain ⟨⟨tags', pseudos', rest'⟩, h', heq⟩ := Option.map_eq_some_iff.1 h
    cases heq
    have := ih h'
    have := readArguments_length ha
    simp only [List.length_cons]; omega
  | case5 => cases h; simp
  | case6 => cases h; simp

theorem header?_length {ts body : List Token} {header : Header}
    (h : header? ts = some (header, body)) : body.length < ts.length := by
  unfold header? at h
  dsimp only at h
  split at h
  · cases h
  · next name rest hs =>
    have h1 : (name :: rest).length ≤ ts.length := by
      rw [← hs]
      split
      · exact Nat.le_trans (skipKinds_length _ _) (by simp)
      · exact Nat.le_refl _
    delta guard at h
    simp only [bind, Option.bind] at h
    split at h
    · cases h
    · split at h
      · cases h
      · next r hr =>
        obtain ⟨tags, pseudos, after⟩ := r
        have h2 := readSuffixes_length hr
        dsimp only at h
        split at h
        · cases h
        · next brace b hb =>
          have h3 := skipKinds_length
            (fun k => k == .whitespace || k == .newline || k == .comment) after
          change skipKinds _ after = _ at hb
          rw [hb] at h3
          split at h
          · cases h
          · cases h
            simp only [List.length_cons] at h1 h3 ⊢
            omega

theorem quotedValue?_length {ts after : List Token} {value : String}
    (h : quotedValue? ts = some (value, after)) : after.length ≤ ts.length := by
  unfold quotedValue? at h
  split at h
  · cases h
  · dsimp only at h
    split at h
    · cases h
      exact Nat.le_trans (skipKinds_length _ _) (by simp)
    · cases h

theorem readRun_length (parts : List String) (important lineStart : Bool) (ts : List Token) :
    (readRun parts important lineStart ts).rest.length ≤ ts.length := by
  fun_induction readRun parts important lineStart ts <;> simp_all <;> omega

theorem readInclude_length (file : String) (t : Token) (ts : List Token) :
    (readInclude file (t :: ts)).rest.length ≤ ts.length := by
  have h1 := skipKinds_length (· == .whitespace) ts
  have h2 := splitWhile_snd_length (fun t => isPathToken t.kind) (skipBlanks ts)
  have h3 := skipKinds_length (fun k => k == .whitespace || k == .comment)
    (splitWhile (fun t => isPathToken t.kind) (skipBlanks ts)).2
  have h4 := skipSemicolon_length
    (skipBlanksAndComments (splitWhile (fun t => isPathToken t.kind) (skipBlanks ts)).2)
  unfold readInclude
  dsimp only [List.tail_cons]
  unfold skipBlanks skipBlanksAndComments at *
  split <;> dsimp only <;> omega

theorem readParam_length (file : String) (t : Token) (ts : List Token) :
    (readParam file (t :: ts)).rest.length ≤ ts.length := by
  have h0 : (skipBlanks ts).length ≤ ts.length := skipKinds_length _ _
  have h1 : (skipBlanks (skipBlanks ts).tail).length ≤ ts.length :=
    Nat.le_trans (skipKinds_length _ _) (by rw [List.length_tail]; omega)
  unfold readParam
  dsimp only [List.tail_cons]
  split
  · next value after h =>
    exact Nat.le_trans (skipSemicolon_length _) (Nat.le_trans (quotedValue?_length h) h1)
  · exact Nat.le_trans (skipSemicolon_length _) (Nat.le_trans (splitWhile_snd_length _ _) h1)

theorem readProse_length (file : String) (t : Token) (ts : List Token)
    (h : endsProse t.kind = false) : (readProse file (t :: ts)).rest.length ≤ ts.length := by
  have hrun : (readRun [] false true (t :: ts)).rest.length ≤ ts.length := by
    rw [readRun]
    simp only [h, List.isEmpty_nil, Bool.not_true, Bool.false_and, Bool.or_self,
      Bool.false_eq_true, if_false]
    split
    · exact Nat.le_refl _
    · split
      · exact readRun_length _ _ _ _
      · exact readRun_length _ _ _ _
  unfold readProse
  dsimp only
  split
  · exact hrun
  · split <;> exact hrun

/-- A statement takes its first token, unless that is a brace or the end. -/
theorem readStatement_rest_length (file : String) (t : Token) (ts : List Token)
    (h : t.kind ≠ .eof ∧ t.kind ≠ .braceOpen ∧ t.kind ≠ .braceClose) :
    (readStatement file (t :: ts)).rest.length ≤ ts.length := by
  unfold readStatement
  dsimp only
  split
  · exact Nat.le_refl _
  · next hc =>
    split
    · exact readInclude_length file t ts
    · split
      · exact readParam_length file t ts
      · exact readProse_length file t ts (by simp [endsProse, h, hc])

/-! ## Blocks -/

/-- Statements in a row, read from `ts`. -/
structure Block (ts : List Token) where
  children : List Statement
  rest : List Token
  problems : List Diagnostic
  rest_length : rest.length ≤ ts.length

/-- Takes the closing brace; says so when it is missing. -/
def closeBrace (file : String) (ts : List Token) : Reading Unit :=
  if nextKind ts = .braceClose then ⟨(), ts.tail, []⟩
  else ⟨(), ts, [problemAt file .missingBrace ts]⟩

theorem closeBrace_length (file : String) (ts : List Token) :
    (closeBrace file ts).rest.length ≤ ts.length := by
  unfold closeBrace
  split <;> simp

/-- Statements up to the end or, when `nested`, up to the closing brace, which remains. A stray
closing brace is passed over; the statements of a block without a header belong to the block
around it. -/
def readBlock (file : String) (nested : Bool) (ts : List Token) : Block ts :=
  have hskip : (skipLines ts).length ≤ ts.length := skipKinds_length _ _
  match h : skipLines ts with
  | [] => ⟨[], [], [], Nat.zero_le _⟩
  | t :: rest =>
    have hrest : rest.length < ts.length := by rw [h] at hskip; exact hskip
    if hend : t.kind = .eof then ⟨[], t :: rest, [], hrest⟩
    else if hclose : t.kind = .braceClose then
      if nested then ⟨[], t :: rest, [], hrest⟩
      else
        let later := readBlock file nested rest
        ⟨later.children, later.rest, ⟨.strayCloseBrace, t.span file⟩ :: later.problems,
          Nat.le_trans later.rest_length (Nat.le_of_lt hrest)⟩
    else if hopen : t.kind = .braceOpen then
      let inner := readBlock file true rest
      let close := closeBrace file inner.rest
      have hafter : close.rest.length < ts.length :=
        Nat.lt_of_le_of_lt (Nat.le_trans (closeBrace_length file inner.rest) inner.rest_length)
          hrest
      let later := readBlock file nested close.rest
      ⟨inner.children ++ later.children, later.rest,
        ⟨.strayOpenBrace, t.span file⟩ :: (inner.problems ++ close.problems ++ later.problems),
        Nat.le_trans later.rest_length (Nat.le_of_lt hafter)⟩
    else
      match hm : header? (t :: rest) with
      | some (header, body) =>
        have hbody : body.length < ts.length := Nat.lt_of_lt_of_le (header?_length hm) hrest
        let inner := readBlock file true body
        let close := closeBrace file inner.rest
        have hafter : close.rest.length < ts.length :=
          Nat.lt_of_le_of_lt (Nat.le_trans (closeBrace_length file inner.rest) inner.rest_length)
            hbody
        let later := readBlock file nested close.rest
        ⟨.module header inner.children (spanBetween file (t :: rest) close.rest) :: later.children,
          later.rest, inner.problems ++ close.problems ++ later.problems,
          Nat.le_trans later.rest_length (Nat.le_of_lt hafter)⟩
      | none =>
        let one := readStatement file (t :: rest)
        have hafter : one.rest.length < ts.length :=
          Nat.lt_of_le_of_lt (readStatement_rest_length file t rest ⟨hend, hopen, hclose⟩) hrest
        let later := readBlock file nested one.rest
        ⟨one.value.toList ++ later.children, later.rest, one.problems ++ later.problems,
          Nat.le_trans later.rest_length (Nat.le_of_lt hafter)⟩
termination_by ts.length
decreasing_by all_goals assumption

/-! ## Documents -/

/-- A document and what is wrong with it. -/
structure Parsed where
  document : Document
  problems : List Diagnostic

/-- The document that the tokens of a file make up. -/
def parse (file : String) (tokens : List Token) : Parsed :=
  match tokens with
  | [] => ⟨⟨[], .empty file⟩, []⟩
  | first :: _ =>
    let block := readBlock file false tokens
    let last := block.rest.headD (tokens.getLastD first)
    ⟨⟨block.children, ⟨file, first.start, last.start⟩⟩, block.problems⟩

/-- The document of a source text; what is wrong with its tokens comes first. -/
def parseSource (file source : String) : Parsed :=
  let lexed := tokenize source
  let parsed := parse file lexed.tokens
  { parsed with problems := lexed.errors.map (·.diagnostic file) ++ parsed.problems }

end SpecTree.Spec
