import Mathlib.Algebra.Group.Nat.Even
import Mathlib.Data.List.DropRight
import Mathlib.Data.List.Infix
import SpecTree.Proofs.Spec.Tiling

/-!
# Tokens that are not closed

1. `Unclosed`: the text from the start of a token on has no closing mark for it. What counts as one is
   said of the text, not of where the lexer stops.
2. `scan_tells`: the lexer misses a closing mark exactly where there is none.
3. `tokenize_errors`: the errors are the unclosed tokens in their order, and such a token takes the rest of
   the text, unless it is inline code.
-/

namespace SpecTree.Spec

open Text (splitWhile)

/-! ## Closing marks -/

/-- A quote stands in the text behind an even number of backslashes in a row, so that none of them
protects it. -/
def HasFreeQuote (cs : List Char) : Prop :=
  ∃ before after, cs = before ++ '"' :: after ∧ Even (before.rtakeWhile (· == '\\')).length

/-- A token of the kind starts at the front of the text, and the text has no closing mark for it: for a
string no quote that is free, for a block comment no mark behind the opening one, for a code block no fence
behind its first line, for inline code no backtick before the end of the line. -/
def Unclosed (kind : TokenKind) (cs : List Char) : Prop :=
  match kind with
  | .string => ¬ HasFreeQuote (cs.drop 1)
  | .comment => ['/', '*'] <+: cs ∧ ¬ ['*', '/'] <:+: cs.drop 2
  | .codeBlock => ¬ fence <:+: cs.dropWhile (· != '\n')
  | .inlineCode => '\x60' ∉ (cs.drop 1).takeWhile (· != '\n')
  | _ => False

/-- What an unclosed token of the kind lacks. -/
def missingMark : TokenKind → Problem
  | .string => .unclosedString
  | .comment => .unclosedBlockComment
  | .codeBlock => .unclosedFence
  | _ => .unclosedInlineCode

theorem splitAfter?_eq_none_iff {mark : List Char} (hm : mark ≠ []) (cs : List Char) :
    splitAfter? mark cs = none ↔ ¬ mark <:+: cs := by
  induction cs with
  | nil => simp [splitAfter?, hm]
  | cons c cs ih =>
    rw [splitAfter?, List.infix_cons_iff, ← List.isPrefixOf_iff_prefix]
    split
    · next h => simp [h]
    · next h => simp [h, ih]

theorem length_rtakeWhile_cons {α : Type} (p : α → Bool) (x : α) (xs : List α) :
    ((x :: xs).rtakeWhile p).length =
      if (xs.rtakeWhile p).length = xs.length ∧ p x = true then xs.length + 1
      else (xs.rtakeWhile p).length := by
  simp only [List.rtakeWhile, List.reverse_cons, List.takeWhile_append, List.length_reverse]
  by_cases hall : (xs.reverse.takeWhile p).length = xs.length
  · by_cases hx : p x = true <;> simp [hall, hx]
  · simp [hall]

/-- A character that is no backslash protects nothing behind it. -/
theorem hasFreeQuote_cons {c : Char} (hb : c ≠ '\\') (hq : c ≠ '"') (cs : List Char) :
    HasFreeQuote (c :: cs) ↔ HasFreeQuote cs := by
  have hlength (before : List Char) : ((c :: before).rtakeWhile (· == '\\')).length =
      (before.rtakeWhile (· == '\\')).length := by simp [length_rtakeWhile_cons, hb]
  constructor
  · rintro ⟨before, after, heq, heven⟩
    cases before with
    | nil => exact absurd (List.cons.inj heq).1 hq
    | cons b before =>
      obtain ⟨rfl, rfl⟩ := List.cons.inj heq
      exact ⟨before, after, rfl, hlength before ▸ heven⟩
  · rintro ⟨before, after, rfl, heven⟩
    exact ⟨c :: before, after, rfl, (hlength before).symm ▸ heven⟩

/-- A backslash protects the next character, and both together protect nothing behind them. -/
theorem hasFreeQuote_escape (c : Char) (cs : List Char) :
    HasFreeQuote ('\\' :: c :: cs) ↔ HasFreeQuote cs := by
  have heven_iff (before : List Char) : Even (('\\' :: c :: before).rtakeWhile (· == '\\')).length ↔
      Even (before.rtakeWhile (· == '\\')).length := by
    have hle : (before.rtakeWhile (· == '\\')).length ≤ before.length :=
      (List.rtakeWhile_suffix _ _).length_le
    rw [length_rtakeWhile_cons, length_rtakeWhile_cons]
    grind
  constructor
  · rintro ⟨before, after, heq, heven⟩
    match before, heq, heven with
    | [b], heq, heven =>
      cases heq
      exact absurd heven (by decide)
    | b :: d :: before, heq, heven =>
      cases heq
      exact ⟨before, after, rfl, (heven_iff before).1 heven⟩
  · rintro ⟨before, after, rfl, heven⟩
    exact ⟨'\\' :: c :: before, after, rfl, (heven_iff before).2 heven⟩

theorem HasFreeQuote.mem {cs : List Char} (h : HasFreeQuote cs) : '"' ∈ cs := by
  obtain ⟨before, after, rfl, -⟩ := h
  simp

/-- **A string is closed by a free quote**, and by no other one. -/
theorem splitString_closed_iff (cs : List Char) : (splitString cs).2.2 = true ↔ HasFreeQuote cs := by
  fun_induction splitString cs with
  | case1 => exact iff_of_false Bool.false_ne_true fun h => List.not_mem_nil h.mem
  | case2 cs => exact iff_of_true rfl ⟨[], cs, rfl, by decide⟩
  | case3 c cs _ _ _ hsplit ih => rw [hasFreeQuote_escape, ← ih, hsplit]
  | case4 c cs hq hb _ _ _ hsplit ih =>
    by_cases hc : c = '\\'
    · -- A backslash at the end of the text: there is nothing behind it, and so no quote.
      subst hc
      cases cs with
      | nil =>
        cases hsplit
        exact iff_of_false Bool.false_ne_true fun h => by simpa using h.mem
      | cons d cs => exact absurd rfl (hb d cs rfl)
    · rw [hasFreeQuote_cons hc hq, ← ih, hsplit]

instance (cs : List Char) : Decidable (HasFreeQuote cs) :=
  decidable_of_iff _ (splitString_closed_iff cs)

instance (kind : TokenKind) (cs : List Char) : Decidable (Unclosed kind cs) := by
  unfold Unclosed
  split <;> infer_instance

/-! ## What the lexer misses -/

/-- A lexeme at the front of the text says what is missing at its end. Where something is, it is the rest of
the text, unless it is inline code. -/
structure Lexeme.Tells (l : Lexeme) (cs : List Char) : Prop where
  fault : l.fault = if Unclosed l.kind cs then some (missingMark l.kind) else none
  rest : Unclosed l.kind cs → l.kind ≠ .inlineCode → l.rest = []

theorem Lexeme.tells_of_none {l : Lexeme} {cs : List Char} (hf : l.fault = none)
    (hk : ¬ Unclosed l.kind cs) : l.Tells cs :=
  ⟨by rw [hf, if_neg hk], fun h => absurd h hk⟩

theorem scanDelimited_tells {kind : TokenKind} {opening mark cs whole : List Char} (hm : mark ≠ [])
    (h : Unclosed kind whole ↔ ¬ mark <:+: cs) :
    (scanDelimited kind opening mark (missingMark kind) cs).Tells whole := by
  rw [← splitAfter?_eq_none_iff hm] at h
  unfold scanDelimited
  split
  · next hs => exact Lexeme.tells_of_none rfl fun hopen => by simp [h.1 hopen] at hs
  · next hs => exact ⟨(if_pos (h.2 hs)).symm, fun _ _ => rfl⟩

theorem scanBlockComment_tells {cs : List Char} (h : startsBlockComment cs = true) :
    (scanBlockComment (cs.drop 2)).Tells cs := by
  have hopen : ['/', '*'] <+: cs := List.isPrefixOf_iff_prefix.1 h
  exact scanDelimited_tells (by simp) (and_iff_right hopen)

theorem scanCodeBlock_tells {cs : List Char} (h : fence.isPrefixOf cs = true) :
    (scanCodeBlock (cs.drop 3)).Tells cs := by
  obtain ⟨rest, rfl⟩ := List.isPrefixOf_iff_prefix.1 h
  refine scanDelimited_tells (by simp [fence]) ?_
  simp [Unclosed, fence]

theorem mem_takeWhile_line_iff (cs : List Char) :
    '\x60' ∈ cs.takeWhile (· != '\n') ↔
      (cs.dropWhile fun c => c != '\x60' && c != '\n').head? = some '\x60' := by
  induction cs with
  | nil => simp
  | cons c cs ih =>
    by_cases hn : c = '\n'
    · simp [hn]
    by_cases ht : c = '\x60'
    · simp [ht]
    · simp [hn, ht, Ne.symm ht, ih]

theorem scanInlineCode_tells (cs : List Char) : (scanInlineCode cs).Tells ('\x60' :: cs) := by
  have hiff : Unclosed .inlineCode ('\x60' :: cs) ↔
      (splitWhile (fun c => c != '\x60' && c != '\n') cs).2.head? ≠ some '\x60' :=
    not_congr (mem_takeWhile_line_iff cs)
  unfold scanInlineCode
  dsimp only
  split
  · next hr => exact Lexeme.tells_of_none rfl fun h => hiff.1 h (by rw [hr]; rfl)
  · next hr =>
    refine ⟨(if_pos (hiff.2 fun hhead => ?_)).symm, fun _ h => absurd rfl h⟩
    obtain ⟨after, hafter⟩ := List.head?_eq_some_iff.1 hhead
    exact hr after hafter

theorem splitString_rest_of_open {cs : List Char} (h : (splitString cs).2.2 ≠ true) :
    (splitString cs).2.1 = [] := by
  fun_induction splitString cs with
  | case1 => rfl
  | case2 => exact absurd rfl h
  | case3 _ _ _ _ _ hsplit ih | case4 _ _ _ _ _ _ _ hsplit ih =>
    rw [hsplit] at ih
    exact ih h

theorem scanString_tells (cs : List Char) : (scanString cs).Tells ('"' :: cs) := by
  have hiff : Unclosed .string ('"' :: cs) ↔ ¬ (splitString cs).2.2 = true :=
    not_congr (splitString_closed_iff cs).symm
  refine ⟨?_, fun h _ => splitString_rest_of_open (hiff.1 h)⟩
  by_cases hc : (splitString cs).2.2 = true
  · exact (if_pos hc).trans (if_neg fun h => hiff.1 h hc).symm
  · exact (if_neg hc).trans (if_pos (hiff.2 hc)).symm

theorem scanNumber_tells (cs whole : List Char) : (scanNumber cs).Tells whole := by
  unfold scanNumber
  dsimp only
  split
  · split <;> exact Lexeme.tells_of_none rfl not_false
  · exact Lexeme.tells_of_none rfl not_false

theorem scanName_tells (cs whole : List Char) : (scanName cs).Tells whole := by
  unfold scanName
  dsimp only
  split <;> exact Lexeme.tells_of_none rfl not_false

theorem scanText_tells (c : Char) (cs whole : List Char) : (scanText c cs).Tells whole := by
  unfold scanText
  split <;> exact Lexeme.tells_of_none rfl not_false

theorem not_unclosed_punctuation {c : Char} {kind : TokenKind} (h : punctuation? c = some kind)
    (cs : List Char) : ¬ Unclosed kind cs := by
  unfold punctuation? at h
  split at h <;> cases h <;> exact not_false

/-- **The lexer misses a closing mark exactly where there is none.** -/
theorem scan_tells (previous : Option Char) (c : Char) (cs : List Char) :
    (scan previous c cs).Tells (c :: cs) := by
  fun_cases scan previous c cs with
  | case1 | case2 | case9 => exact Lexeme.tells_of_none rfl not_false
  | case3 _ _ h => exact scanBlockComment_tells h
  | case4 _ _ hblock =>
    -- A comment to the end of the line is of the same kind, but nothing closes it.
    have hno : ¬ ['/', '*'] <+: c :: cs := by simpa [startsBlockComment] using hblock
    exact Lexeme.tells_of_none rfl fun h => hno h.1
  | case5 _ _ _ _ h => exact scanCodeBlock_tells h
  | case6 _ _ _ _ _ h =>
    rw [h]
    exact scanInlineCode_tells cs
  | case7 _ _ _ _ _ _ h =>
    rw [h]
    exact scanString_tells cs
  | case8 _ _ _ _ _ _ _ kind hk => exact Lexeme.tells_of_none rfl (not_unclosed_punctuation hk _)
  | case10 => exact scanNumber_tells _ _
  | case11 => exact scanName_tells _ _
  | case12 => exact scanText_tells _ _ _

/-! ## Errors -/

/-- The token lacks its closing mark, looked for in the text from its start on. -/
def Token.IsUnclosed (source : String) (t : Token) : Prop :=
  Unclosed t.kind (source.toList.drop t.start.offset)

instance (source : String) (t : Token) : Decidable (t.IsUnclosed source) :=
  inferInstanceAs (Decidable (Unclosed _ _))

/-- What is wrong with an unclosed token, told at the line and column of its end and the offset of its
start. -/
def Token.error (t : Token) : LexError :=
  ⟨missingMark t.kind, t.start.after t.text.toList, t.start.offset⟩

theorem Position.offset_after (p : Position) (cs : List Char) :
    (p.after cs).offset = p.offset + cs.length := by
  induction cs generalizing p with
  | nil => rfl
  | cons c cs ih =>
    rw [Position.after_cons, ih, Position.next]
    split <;> simp [Nat.add_assoc, Nat.add_comm 1]

theorem drop_of_scan {source : List Char} {previous : Option Char} {p : Position} {c : Char}
    {cs : List Char} (h : source.drop p.offset = c :: cs) :
    source.drop (p.after (scan previous c cs).text).offset = (scan previous c cs).rest := by
  rw [Position.offset_after, ← List.drop_drop, h, ← scan_append previous c cs, List.drop_left]

/-- **The errors are the unclosed tokens**, in their order. -/
theorem tokenizeFrom_errors {source : String} {previous : Option Char} {p : Position} {cs : List Char}
    (h : source.toList.drop p.offset = cs) :
    (tokenizeFrom previous p cs).errors =
      ((tokenizeFrom previous p cs).tokens.filter (·.IsUnclosed source)).map Token.error := by
  fun_induction tokenizeFrom previous p cs with
  | case1 previous p => rfl
  | case2 previous p c cs lexeme stop later ih =>
    have hrest : later.errors = (later.tokens.filter (·.IsUnclosed source)).map Token.error :=
      ih (drop_of_scan h)
    have htells : lexeme.Tells (c :: cs) := scan_tells previous c cs
    have hiff : Token.IsUnclosed source ⟨lexeme.kind, String.ofList lexeme.text, p⟩ ↔
        Unclosed lexeme.kind (c :: cs) := by rw [Token.IsUnclosed, h]
    rw [htells.fault, hrest]
    by_cases hopen : Unclosed lexeme.kind (c :: cs)
    · simp [hopen, hiff, Token.error, stop]
    · simp [hopen, hiff]

theorem tokenizeFrom_rest {previous : Option Char} {c : Char} {cs : List Char}
    (h : Unclosed (scan previous c cs).kind (c :: cs)) (hk : (scan previous c cs).kind ≠ .inlineCode)
    (before : Option Char) (p : Position) :
    tokenizeFrom before p (scan previous c cs).rest = ⟨[⟨.eof, "", p⟩], []⟩ := by
  rw [(scan_tells previous c cs).rest h hk, tokenizeFrom]

/-- **An unclosed token is the last one**, unless it is inline code. -/
theorem tokenizeFrom_last {source : String} {after : List Token} {t : Token}
    (ht : t.IsUnclosed source) (hk : t.kind ≠ .inlineCode) {previous : Option Char} {p : Position}
    {cs : List Char} (h : source.toList.drop p.offset = cs) :
    ∀ before, (tokenizeFrom previous p cs).tokens = before ++ t :: after →
      ∃ place, after = [⟨.eof, "", place⟩] := by
  fun_induction tokenizeFrom previous p cs with
  | case1 previous p =>
    intro before hsplit
    cases before with
    | nil =>
      obtain ⟨rfl, -⟩ := List.cons.inj hsplit
      cases ht
    | cons b before => simp at hsplit
  | case2 previous p c cs lexeme stop later ih =>
    intro before hsplit
    cases before with
    | nil =>
      obtain ⟨rfl, rfl⟩ := List.cons.inj hsplit
      rw [Token.IsUnclosed, h] at ht
      exact ⟨stop, congrArg Lexed.tokens (tokenizeFrom_rest ht hk _ _)⟩
    | cons b before => exact ih (drop_of_scan h) before (List.cons.inj hsplit).2

theorem length_errors_le (previous : Option Char) (p : Position) (cs : List Char) :
    ((tokenizeFrom previous p cs).errors.filter (·.problem != .unclosedInlineCode)).length ≤ 1 := by
  fun_induction tokenizeFrom previous p cs with
  | case1 => exact Nat.zero_le 1
  | case2 previous p c cs lexeme stop later ih =>
    have hfault := (scan_tells previous c cs).fault
    change lexeme.fault =
      if Unclosed lexeme.kind (c :: cs) then some (missingMark lexeme.kind) else none at hfault
    by_cases hopen : Unclosed lexeme.kind (c :: cs)
    · rw [hfault, if_pos hopen]
      by_cases hk : lexeme.kind = .inlineCode
      · have hmark : missingMark lexeme.kind = .unclosedInlineCode := by rw [hk]; rfl
        rw [hmark]
        exact ih
      · have hlater : later.errors = [] := congrArg Lexed.errors (tokenizeFrom_rest hopen hk _ _)
        rw [hlater]
        exact List.length_filter_le _ [_]
    · rw [hfault, if_neg hopen]
      exact ih

/-- **The errors are the unclosed tokens.** They come in the order of the tokens, each with the offset of the
token's start and the line and column of its end. A string, a block comment or a code block that is not
closed is the last token before the end token, so that there is at most one such error. -/
theorem tokenize_errors (source : String) :
    (tokenize source).errors =
        ((tokenize source).tokens.filter (·.IsUnclosed source)).map Token.error ∧
      (∀ before t after, (tokenize source).tokens = before ++ t :: after → t.IsUnclosed source →
        t.kind ≠ .inlineCode → ∃ place, after = [⟨.eof, "", place⟩]) ∧
      ((tokenize source).errors.filter (·.problem != .unclosedInlineCode)).length ≤ 1 :=
  ⟨tokenizeFrom_errors rfl, fun before _ _ h ht hk => tokenizeFrom_last ht hk rfl before h,
    length_errors_le _ _ _⟩

example : (tokenize "\x60a\n/*/").errors =
    [⟨.unclosedInlineCode, ⟨1, 3, 2⟩, 0⟩, ⟨.unclosedBlockComment, ⟨2, 4, 6⟩, 3⟩] := by cbv

end SpecTree.Spec
