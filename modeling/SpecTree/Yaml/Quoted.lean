import SpecTree.Text.Digit
import SpecTree.Yaml.Place
import SpecTree.Yaml.Problem

/-!
# Quoted texts

A text in single quotes, where a quote is written twice, or in double quotes, where a backslash
starts an escape. It may go on over lines: a single line end counts as a space, of several all but
the first are kept, and blanks around them are not. A document mark may not stand in a text.
-/

namespace SpecTree.Yaml

/-- The character that a backslash and one character stand for. -/
def escape? : Char → Option Char
  | '0' => some '\x00'
  | 'a' => some '\x07'
  | 'b' => some '\x08'
  | 't' | '\t' => some '\t'
  | 'n' => some '\n'
  | 'v' => some '\x0b'
  | 'f' => some '\x0c'
  | 'r' => some '\r'
  | 'e' => some '\x1b'
  | ' ' => some ' '
  | '"' => some '"'
  | '\\' => some '\\'
  | '/' => some '/'
  | 'N' => some '\u0085'
  | '_' => some '\u00a0'
  | 'L' => some '\u2028'
  | 'P' => some '\u2029'
  | _ => none

/-- How many hexadecimal digits follow an escape of a code point. -/
def escapeWidth? : Char → Option Nat
  | 'x' => some 2
  | 'u' => some 4
  | 'U' => some 8
  | _ => none

/-- The character of a code point; half a pair of units is no character. -/
def ofCodePoint (n : Nat) : Except Problem Char :=
  if 0x7FFFFFFF < n then .error .beyondWord
  else if 0x10FFFF < n then .error .beyondUnicode
  else if 0xD800 ≤ n ∧ n ≤ 0xDFFF then .ok '\uFFFD'
  else .ok (Char.ofNat n)

/-- The character of the code point that a number of hexadecimal digits stands for. -/
def codePoint (width : Nat) (cs : List Char) : Except Problem Char :=
  match (cs.take width).mapM Text.hexValue? with
  | some ns => if ns.length = width then ofCodePoint (ns.foldl (16 * · + ·) 0) else .error .malformed
  | none => .error .malformed

/-- Past blanks and the ends of lines, and the ends as characters. -/
def breaks (fuel : Nat) (p : Place) (sofar : List Char) : Except Problem (List Char × Place) :=
  match fuel with
  | 0 => .error .malformed
  | fuel + 1 =>
    if atDocumentMark p.rest then .error .malformed
    else
      let p := p.skip isBlank
      match p.lineBreak? with
      | some (c, p) => breaks fuel p (sofar ++ [c])
      | none => .ok (sofar, p)

/-- What line ends between words count for: the first one is a space if no other follows. -/
def folded (first : Char) (others : List Char) : List Char :=
  if first ≠ '\n' then first :: others else if others.isEmpty then [' '] else others

/-- Blanks inside a text: kept within a line, replaced at its end. -/
def quotedGap (p : Place) : Except Problem (List Char × Place) :=
  let (blanks, p) := p.take isBlank
  match p.lineBreak? with
  | some (c, p) => do
    let (others, p) ← breaks (p.rest.length + 1) p []
    return (folded c others, p)
  | none => .ok (blanks, p)

/-- An escape after its backslash. -/
def escaped (p : Place) : Except Problem (List Char × Place) :=
  match p.rest with
  | [] => .error .malformed
  | c :: cs =>
    match escape? c, escapeWidth? c, p.lineBreak? with
    | some e, _, _ => .ok ([e], p.step)
    | none, some width, _ => do
      let e ← codePoint width cs
      return ([e], p.advance (width + 1))
    | none, none, some (_, p) => breaks (p.rest.length + 1) p []
    | none, none, none => .error .malformed

/-- A text after its opening quote up to the closing one. -/
def quotedText (fuel : Nat) (double : Bool) (p : Place) : Except Problem (List Char × Place) :=
  match fuel with
  | 0 => .error .malformed
  | fuel + 1 =>
    let goOn (piece : List Char) (p : Place) := do
      let (text, p) ← quotedText fuel double p
      return (piece ++ text, p)
    match p.rest with
    | [] => .error .malformed
    | c :: cs =>
      if isBlank c || isBreak c then do
        let (gap, p) ← quotedGap p
        goOn gap p
      else if double && c == '\\' then do
        let (piece, p) ← escaped p.step
        goOn piece p
      else if c == (if double then '"' else '\x27') then
        if !double && cs.head? == some '\x27' then goOn ['\x27'] (p.advance 2) else .ok ([], p.step)
      else goOn [c] p.step

end SpecTree.Yaml
