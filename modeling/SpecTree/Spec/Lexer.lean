import SpecTree.Spec.Cursor
import SpecTree.Spec.Diagnostic
import SpecTree.Spec.Token
import SpecTree.Text.Pieces

/-!
# Lexer

Every text splits into tokens; nothing is dropped and nothing fails.

1. Character classes and the look-ahead tests that open a comment or the important marker.
2. A splitter per kind of token, from a nonempty text to its first token and the rest.
3. `scan` chooses the splitter by the first characters; `scan_append` says that token and rest
   make up the text, `scan_text_ne_nil` that the token is not empty.
4. `tokenize` repeats `scan` and records where each token starts.

A token that lacks its closing mark runs as far as its splitter reached and carries a fault.
-/

namespace SpecTree.Spec

open Text (splitWhile splitWhile_append splitWhile_fst_ne_nil)

/-! ## Character classes -/

/-- A blank that does not end the line. -/
def isInlineBlank (c : Char) : Bool := c == ' ' || c == '\t' || c == '\r'

def isDigit (c : Char) : Bool := '0' ≤ c && c ≤ '9'

def isNameStart (c : Char) : Bool :=
  c == '_' || ('a' ≤ c && c ≤ 'z') || ('A' ≤ c && c ≤ 'Z')

/-- Hyphens stand inside names, as in `email-service`. -/
def isNameChar (c : Char) : Bool := isNameStart c || isDigit c || c == '-'

/-- Characters that no run of free text contains. -/
def isTextStop (c : Char) : Bool :=
  c == '{' || c == '}' || c == ';' || c == '=' || c == '"' || c == '\x60' || c == '\n'
    || isInlineBlank c

/-- The single characters that are tokens by themselves. -/
def punctuation? : Char → Option TokenKind
  | '{' => some .braceOpen
  | '}' => some .braceClose
  | '(' => some .parenOpen
  | ')' => some .parenClose
  | ';' => some .semicolon
  | '=' => some .equals
  | '.' => some .dot
  | ':' => some .colon
  | '>' => some .greater
  | '+' => some .plus
  | '~' => some .tilde
  | _ => none

def fence : List Char := ['\x60', '\x60', '\x60']

def importantMarker : List Char := ['!', 'i', 'm', 'p', 'o', 'r', 't', 'a', 'n', 't']

def includeName : List Char := ['i', 'n', 'c', 'l', 'u', 'd', 'e']

/-! ## Look-ahead -/

def startsBlockComment (cs : List Char) : Bool := ['/', '*'].isPrefixOf cs

/-- `//` unless a colon precedes it, and `#` at the start of a line or after a blank. -/
def startsLineComment (previous : Option Char) (cs : List Char) : Bool :=
  (['/', '/'].isPrefixOf cs && previous != some ':')
    || (['#'].isPrefixOf cs && previous.all fun p => p == '\n' || isInlineBlank p)

def startsComment (previous : Option Char) (cs : List Char) : Bool :=
  startsBlockComment cs || startsLineComment previous cs

/-- The marker as a whole word; `!importantly` is free text. -/
def startsImportant (cs : List Char) : Bool :=
  importantMarker.isPrefixOf cs && (cs.drop importantMarker.length).head?.all (!isNameChar ·)

/-! ## Splitters -/

/-- A token's kind and text, the text that follows, and what is missing at its end. -/
structure Lexeme where
  kind : TokenKind
  text : List Char
  rest : List Char
  fault : Option Problem := none

/-- The text up to and with the first occurrence of `mark`, and what follows it. -/
def splitAfter? (mark : List Char) : List Char → Option (List Char × List Char)
  | [] => none
  | c :: cs =>
    if mark.isPrefixOf (c :: cs) then some (mark, (c :: cs).drop mark.length)
    else (splitAfter? mark cs).map fun (run, rest) => (c :: run, rest)

/-- A run that `opening` starts and the first `mark` after it ends. -/
def scanDelimited (kind : TokenKind) (opening mark : List Char) (fault : Problem)
    (cs : List Char) : Lexeme :=
  match splitAfter? mark cs with
  | some (run, rest) => ⟨kind, opening ++ run, rest, none⟩
  | none => ⟨kind, opening ++ cs, [], some fault⟩

/-- A block comment from what follows its `/*`. -/
def scanBlockComment (cs : List Char) : Lexeme :=
  scanDelimited .comment ['/', '*'] ['*', '/'] .unclosedBlockComment cs

/-- A code block from what follows its opening fence: the rest of that line is its tag. -/
def scanCodeBlock (cs : List Char) : Lexeme :=
  let (tag, body) := splitWhile (· != '\n') cs
  scanDelimited .codeBlock (fence ++ tag) fence .unclosedFence body

/-- Inline code from what follows its backtick; it ends on its line. -/
def scanInlineCode (cs : List Char) : Lexeme :=
  let (run, rest) := splitWhile (fun c => c != '\x60' && c != '\n') cs
  match rest with
  | '\x60' :: after => ⟨.inlineCode, '\x60' :: run ++ ['\x60'], after, none⟩
  | _ => ⟨.inlineCode, '\x60' :: run, rest, some .unclosedInlineCode⟩

/-- What follows an opening quote, up to and with the closing one, what follows that, and whether
there is one; a backslash protects the next character. -/
def splitString : List Char → List Char × List Char × Bool
  | [] => ([], [], false)
  | '"' :: cs => (['"'], cs, true)
  | '\\' :: c :: cs =>
    let (run, rest, closed) := splitString cs
    ('\\' :: c :: run, rest, closed)
  | c :: cs =>
    let (run, rest, closed) := splitString cs
    (c :: run, rest, closed)

/-- A string from what follows its opening quote; it may span lines. -/
def scanString (cs : List Char) : Lexeme :=
  let (run, rest, closed) := splitString cs
  ⟨.string, '"' :: run, rest, if closed then none else some .unclosedString⟩

/-- Digits, and a point with more digits if digits follow it. -/
def scanNumber (cs : List Char) : Lexeme :=
  let (whole, rest) := splitWhile isDigit cs
  match rest with
  | '.' :: d :: after =>
    if isDigit d then
      let (decimals, rest) := splitWhile isDigit (d :: after)
      ⟨.number, whole ++ '.' :: decimals, rest, none⟩
    else ⟨.number, whole, rest, none⟩
  | _ => ⟨.number, whole, rest, none⟩

def scanName (cs : List Char) : Lexeme :=
  let (run, rest) := splitWhile isNameChar cs
  ⟨if run = includeName then .includeWord else .identifier, run, rest, none⟩

/-- The rest of a run of free text after its character `previous`. -/
def splitTextTail (previous : Char) : List Char → List Char × List Char
  | [] => ([], [])
  | c :: cs =>
    if isTextStop c || startsComment (some previous) (c :: cs) then ([], c :: cs)
    else
      let (run, rest) := splitTextTail c cs
      (c :: run, rest)

/-- The longest run of free text, up to a structural character or the start of a comment; its
first character may look like the start of one. -/
def splitText : List Char → List Char × List Char
  | [] => ([], [])
  | c :: cs =>
    if isTextStop c then ([], c :: cs)
    else
      let (run, rest) := splitTextTail c cs
      (c :: run, rest)

/-- A run of free text, of one character at least. -/
def scanText (c : Char) (cs : List Char) : Lexeme :=
  match splitText (c :: cs) with
  | ([], _) => ⟨.text, [c], cs, none⟩
  | (run, rest) => ⟨.text, run, rest, none⟩

/-! ## Scanning -/

/-- The first token of the text `c :: cs`, which follows the character `previous`. -/
def scan (previous : Option Char) (c : Char) (cs : List Char) : Lexeme :=
  if isInlineBlank c then
    let (run, rest) := splitWhile isInlineBlank (c :: cs)
    ⟨.whitespace, run, rest, none⟩
  else if c = '\n' then ⟨.newline, [c], cs, none⟩
  else if startsBlockComment (c :: cs) then scanBlockComment (cs.drop 1)
  else if startsLineComment previous (c :: cs) then
    let (run, rest) := splitWhile (· != '\n') (c :: cs)
    ⟨.comment, run, rest, none⟩
  else if fence.isPrefixOf (c :: cs) then scanCodeBlock (cs.drop 2)
  else if c = '\x60' then scanInlineCode cs
  else if c = '"' then scanString cs
  else
    match punctuation? c with
    | some kind => ⟨kind, [c], cs, none⟩
    | none =>
      if startsImportant (c :: cs) then
        ⟨.important, importantMarker, (c :: cs).drop importantMarker.length, none⟩
      else if isDigit c then scanNumber (c :: cs)
      else if isNameStart c then scanName (c :: cs)
      else scanText c cs

/-! ## Token and rest make up the text -/

theorem append_drop_of_isPrefixOf {m cs : List Char} (h : m.isPrefixOf cs = true) :
    m ++ cs.drop m.length = cs := by
  obtain ⟨t, rfl⟩ := List.isPrefixOf_iff_prefix.1 h
  simp

theorem splitAfter?_append {mark cs run rest : List Char}
    (h : splitAfter? mark cs = some (run, rest)) : run ++ rest = cs := by
  induction cs generalizing run rest with
  | nil => simp [splitAfter?] at h
  | cons c cs ih =>
    rw [splitAfter?] at h
    split at h
    · next hp =>
      cases h
      exact append_drop_of_isPrefixOf hp
    · obtain ⟨⟨r, s⟩, hrs, heq⟩ := Option.map_eq_some_iff.1 h
      cases heq
      simp [ih hrs]

theorem scanDelimited_append (kind : TokenKind) (opening mark : List Char) (fault : Problem)
    (cs : List Char) :
    (scanDelimited kind opening mark fault cs).text
      ++ (scanDelimited kind opening mark fault cs).rest = opening ++ cs := by
  unfold scanDelimited
  split
  · next h => simp [splitAfter?_append h]
  · simp

theorem splitString_append (cs : List Char) :
    (splitString cs).1 ++ (splitString cs).2.1 = cs := by
  fun_induction splitString cs <;> simp_all

theorem scanCodeBlock_append (cs : List Char) :
    (scanCodeBlock cs).text ++ (scanCodeBlock cs).rest = fence ++ cs := by
  rw [scanCodeBlock, scanDelimited_append, List.append_assoc, splitWhile_append]

theorem scanInlineCode_append (cs : List Char) :
    (scanInlineCode cs).text ++ (scanInlineCode cs).rest = '\x60' :: cs := by
  have h := splitWhile_append (fun c => c != '\x60' && c != '\n') cs
  unfold scanInlineCode
  dsimp only
  split
  · next after hr =>
    rw [hr] at h
    simpa using h
  · simp

theorem scanString_append (cs : List Char) :
    (scanString cs).text ++ (scanString cs).rest = '"' :: cs := by
  simp [scanString, splitString_append]

theorem scanNumber_append (cs : List Char) :
    (scanNumber cs).text ++ (scanNumber cs).rest = cs := by
  have h := splitWhile_append isDigit cs
  unfold scanNumber
  dsimp only
  split
  · next d after hr =>
    split
    · rw [hr] at h
      simpa using h
    · exact h
  · exact h

theorem splitTextTail_append (p : Char) (cs : List Char) :
    (splitTextTail p cs).1 ++ (splitTextTail p cs).2 = cs := by
  fun_induction splitTextTail p cs <;> simp_all

theorem splitText_append (cs : List Char) : (splitText cs).1 ++ (splitText cs).2 = cs := by
  unfold splitText
  split
  · rfl
  · split
    · rfl
    · simp [splitTextTail_append]

theorem scanText_append (c : Char) (cs : List Char) :
    (scanText c cs).text ++ (scanText c cs).rest = c :: cs := by
  have h := splitText_append (c :: cs)
  unfold scanText
  split
  · rfl
  · next hr => simpa [hr] using h

/-- A token and what follows it make up the text. -/
theorem scan_append (previous : Option Char) (c : Char) (cs : List Char) :
    (scan previous c cs).text ++ (scan previous c cs).rest = c :: cs := by
  fun_cases scan previous c cs with
  | case1 _ run rest hrun =>
    have h := splitWhile_append isInlineBlank (c :: cs)
    rwa [hrun] at h
  | case4 _ _ _ _ run rest hrun =>
    have h := splitWhile_append (· != '\n') (c :: cs)
    rwa [hrun] at h
  | case2 | case8 => rfl
  | case3 _ _ h =>
    cases cs with
    | nil => simp [startsBlockComment, List.isPrefixOf] at h
    | cons d cs =>
      simp [startsBlockComment, List.isPrefixOf] at h
      simp [scanBlockComment, scanDelimited_append, ← h]
  | case5 _ _ _ _ h =>
    have := append_drop_of_isPrefixOf h
    rw [scanCodeBlock_append]
    simpa [fence] using this
  | case6 _ _ _ _ _ h =>
    rw [h]
    exact scanInlineCode_append cs
  | case7 _ _ _ _ _ _ h =>
    rw [h]
    exact scanString_append cs
  | case9 _ _ _ _ _ _ _ _ h =>
    simp only [startsImportant, Bool.and_eq_true] at h
    exact append_drop_of_isPrefixOf h.1
  | case10 => exact scanNumber_append _
  | case11 => simp [scanName, splitWhile_append]
  | case12 => exact scanText_append c cs

/-! ## No token is empty -/

theorem scanDelimited_text_ne_nil (kind : TokenKind) {opening : List Char} (mark : List Char)
    (fault : Problem) (cs : List Char) (h : opening ≠ []) :
    (scanDelimited kind opening mark fault cs).text ≠ [] := by
  unfold scanDelimited
  split <;> simp [h]

theorem scanNumber_text_ne_nil {c : Char} (cs : List Char) (h : isDigit c = true) :
    (scanNumber (c :: cs)).text ≠ [] := by
  have h' := splitWhile_fst_ne_nil cs h
  unfold scanNumber
  dsimp only
  split
  · split
    · simp
    · exact h'
  · exact h'

theorem scanText_text_ne_nil (c : Char) (cs : List Char) : (scanText c cs).text ≠ [] := by
  unfold scanText
  split
  · simp
  · next run rest hne _ => exact fun h' => hne h'

theorem scan_text_ne_nil (previous : Option Char) (c : Char) (cs : List Char) :
    (scan previous c cs).text ≠ [] := by
  fun_cases scan previous c cs with
  | case1 h run rest hrun =>
    have hne := splitWhile_fst_ne_nil cs h
    rwa [hrun] at hne
  | case2 | case7 | case8 => simp [scanString]
  | case3 => exact scanDelimited_text_ne_nil _ _ _ _ (by simp)
  | case4 _ _ _ h run rest hrun =>
    have hc : (c != '\n') = true := by
      simp only [startsLineComment, List.isPrefixOf, Bool.or_eq_true, Bool.and_eq_true,
        beq_iff_eq] at h
      rcases h with ⟨⟨rfl, _⟩, _⟩ | ⟨⟨rfl, _⟩, _⟩ <;> rfl
    have hne := splitWhile_fst_ne_nil cs (p := fun x => x != '\n') hc
    rwa [hrun] at hne
  | case5 => exact scanDelimited_text_ne_nil _ _ _ _ (by simp [fence])
  | case6 =>
    unfold scanInlineCode
    dsimp only
    split <;> simp
  | case9 => simp [importantMarker]
  | case10 _ _ _ _ _ _ _ _ _ h => exact scanNumber_text_ne_nil cs h
  | case11 _ _ _ _ _ _ _ _ _ _ h =>
    have hc : isNameChar c = true := by simp [isNameChar, h]
    simpa [scanName] using splitWhile_fst_ne_nil cs hc
  | case12 => exact scanText_text_ne_nil c cs

theorem scan_rest_length (previous : Option Char) (c : Char) (cs : List Char) :
    (scan previous c cs).rest.length < (c :: cs).length := by
  have h := congrArg List.length (scan_append previous c cs)
  have hne := List.length_pos_iff.2 (scan_text_ne_nil previous c cs)
  rw [List.length_append] at h
  omega

/-! ## Tokenizing -/

/-- A missing closing mark: found at `place`, in the token that starts at `offset`. -/
structure LexError where
  problem : Problem
  place : Position
  offset : Nat
  deriving Repr, DecidableEq

namespace LexError

/-- The place where scanning stopped, under the offset where the token starts. -/
def position (e : LexError) : Position := { e.place with offset := e.offset }

def diagnostic (file : String) (e : LexError) : Diagnostic :=
  ⟨e.problem, .at file e.position⟩

end LexError

structure Lexed where
  tokens : List Token
  errors : List LexError

/-- The tokens of `cs`, which stands at `p` after the character `previous`. -/
def tokenizeFrom (previous : Option Char) (p : Position) : List Char → Lexed
  | [] => ⟨[⟨.eof, "", p⟩], []⟩
  | c :: cs =>
    let lexeme := scan previous c cs
    let stop := p.after lexeme.text
    let later := tokenizeFrom lexeme.text.getLast? stop lexeme.rest
    ⟨⟨lexeme.kind, String.ofList lexeme.text, p⟩ :: later.tokens,
      (lexeme.fault.map fun fault => ⟨fault, stop, p.offset⟩).toList ++ later.errors⟩
termination_by cs => cs.length
decreasing_by exact scan_rest_length previous c cs

/-- The tokens of a text, an end token last, and the tokens that lack their closing mark. -/
def tokenize (source : String) : Lexed :=
  tokenizeFrom none .origin source.toList

end SpecTree.Spec
