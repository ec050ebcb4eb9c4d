import Mathlib.Data.List.Basic
import SpecTree.Proofs.Spec.Recovery

/-!
# Parsing undoes printing

A well-formed tree is recovered from its canonical text, up to the places of its statements
(`parse_render`). The text of a statement is read as this statement whatever stands below it, as long as
what stands below is a text of the same kind.

1. `Begins` says what the reader must know of the tokens where a line starts, `Follows` and `Below` the
   same of the end of the line before. What is left at the end of a block is up to the block around it: the
   predicate `K` of what remains.
2. `IsSpelled` is one statement's part; one lemma for each kind of statement.
3. `AllSpelled.lines_below` puts the statements of a block together, by induction from its last statement on.
-/

namespace SpecTree.Spec

open Statement (bareAll)

variable {file : String} {nested : Bool} {K : Lexed → Prop} {statements : List Statement}

theorem skipKinds_of_nextKind {p : TokenKind → Bool} {ts : List Token} (h : p (nextKind ts) = false) :
    skipKinds p ts = ts := by
  cases ts with
  | nil => rfl
  | cons t ts =>
    rw [nextKind] at h
    rw [skipKinds, List.dropWhile_cons_of_neg (by simp [h])]

/-! ## Where a line starts -/

/-- Free text of the lines before ends here. -/
def stopsProse (ts : List Token) : Bool := endsProse (nextKind ts) || interruptsProse true ts

/-- The tokens are read as the statements, without a problem, up to tokens of which `K` holds. -/
def Recovers (file : String) (nested : Bool) (K : Lexed → Prop) (statements : List Statement)
    (lexed : Lexed) : Prop :=
  ∃ out after, Reads file nested lexed.tokens out after [] ∧
    bareAll out = bareAll statements ∧ K ⟨after, lexed.errors⟩

/-- The tokens at the start of a line are read as the statements, and what stands before the line takes
none of them. -/
structure Begins (file : String) (nested : Bool) (K : Lexed → Prop) (statements : List Statement)
    (lexed : Lexed) : Prop where
  noBrace : nextKind (skipInsignificant lexed.tokens) ≠ .braceOpen
  stops : (∀ s, statements.head? = some s → s.isFree = false) → stopsProse lexed.tokens = true
  recovers : Recovers file nested K statements lexed

/-- A line end and the indentation of the next line. -/
def gap : Nat → List Piece
  | 0 => [⟨.newline, ['\n']⟩]
  | n + 1 => [⟨.newline, ['\n']⟩, ⟨.whitespace, List.replicate (n + 1) ' '⟩]

/-- The same at the end of the line before, or at the end of the text. -/
inductive Follows (file : String) (nested : Bool) (K : Lexed → Prop) (statements : List Statement) :
    Lexed → Prop
  | line (n : Nat) (p : Position) {lexed : Lexed} (h : Begins file nested K statements lexed) :
      Follows file nested K statements ⟨placed p (gap n) ++ lexed.tokens, lexed.errors⟩
  | done {lexed : Lexed} (h : Begins file nested K statements lexed)
      (hk : nextKind lexed.tokens = .eof) : Follows file nested K statements lexed

theorem Follows.nextKind {lexed : Lexed} (h : Follows file nested K statements lexed) :
    nextKind lexed.tokens = .newline ∨ nextKind lexed.tokens = .eof := by
  cases h with
  | line n => exact .inl (by cases n <;> rfl)
  | done _ hk => exact .inr hk

theorem Follows.isQuiet {lexed : Lexed} (h : Follows file nested K statements lexed) :
    IsQuiet lexed.tokens := by
  refine ⟨?_, ?_, ?_⟩
  · rcases h.nextKind with hk | hk <;> simp [hk]
  · rcases h.nextKind with hk | hk <;> simp [hk]
  · cases h with
    | line n p h => cases n <;> exact h.noBrace
    | done h => exact h.noBrace

/-- Reading a block skips the ends of lines and the indentation. -/
theorem Reads.of_skipLines {ts ts' after : List Token} {out : List Statement}
    {problems : List Diagnostic} (h : Reads file nested ts' out after problems)
    (hs : skipLines ts = skipLines ts') : Reads file nested ts out after problems := by
  cases h with
  | done h hk => exact .done (hs.trans h) hk
  | stray h hk there => exact .stray (hs.trans h) hk there
  | loose h hk inside there => exact .loose (hs.trans h) hk inside there
  | module h hm inside there => exact .module (hs.trans h) hm inside there
  | statement h hm hk hr there => exact .statement (hs.trans h) hm hk hr there

theorem Follows.recovers {lexed : Lexed} (h : Follows file nested K statements lexed) :
    Recovers file nested K statements lexed := by
  cases h with
  | line n p h =>
    obtain ⟨out, after, hreads, hout, hK⟩ := h.recovers
    exact ⟨out, after, hreads.of_skipLines (by cases n <;> rfl), hout, hK⟩
  | done h => exact h.recovers

theorem readRun_stopsProse {texts : List String} {ts : List Token} (hne : texts ≠ [])
    (h : stopsProse ts = true) (important : Bool) :
    readRun texts important true ts = ⟨texts, important, false, ts⟩ := by
  cases ts with
  | nil => rfl
  | cons t ts =>
    rw [stopsProse, show Spec.nextKind (t :: ts) = t.kind from rfl] at h
    have hparts : texts.isEmpty = false := by simpa using hne
    rw [readRun, hparts, Bool.not_false, Bool.true_and, if_pos h]

theorem readRun_gap (n : Nat) (texts : List String) (important : Bool) (ts : List Token) (p : Position) :
    readRun texts important false (placed p (gap n) ++ ts) =
      readRun (parts (gap n) ++ texts) important true ts := by
  have hline (q : Position) (more : List Token) :
      readRun texts important false (⟨.newline, "\n", q⟩ :: more) =
        readRun ("\n" :: texts) important true more := by
    rw [readRun]
    simp [endsProse, interruptsProse, nextKind]
  cases n with
  | zero => exact hline p ts
  | succ n =>
    refine (hline p (⟨.whitespace, String.ofList (List.replicate (n + 1) ' '), p.next '\n'⟩ :: ts)).trans ?_
    rw [readRun]
    simp [endsProse, interruptsProse, nextKind, combinator?, startsParam, parts, gap]

theorem isBlank_of_mem_gap {n : Nat} {c : Char} (h : c ∈ spelled (gap n)) : Text.isBlank c = true := by
  cases n with
  | zero =>
    rw [List.mem_singleton.1 h]
    rfl
  | succ n =>
    simp only [gap, spelled_cons, spelled_nil, List.append_nil, List.singleton_append, List.mem_cons]
      at h
    rcases h with rfl | h
    · rfl
    · rw [List.eq_of_mem_replicate h]
      rfl

/-- Free text goes on to the end of the line and the indentation of the next one, which are blank. -/
theorem Follows.readRun {lexed : Lexed} (h : Follows file nested K statements lexed)
    (hs : ∀ s, statements.head? = some s → s.isFree = false) {texts : List String} (hne : texts ≠ [])
    (important : Bool) :
    ∃ back rest, Spec.readRun texts important false lexed.tokens =
        ⟨back ++ texts, important, false, rest⟩ ∧
      (∀ c ∈ (String.join back.reverse).toList, Text.isBlank c = true) ∧
      Recovers file nested K statements ⟨rest, lexed.errors⟩ := by
  cases h with
  | line n p h =>
    have hback : ∀ c ∈ (String.join (parts (gap n)).reverse).toList, Text.isBlank c = true := by
      rw [toList_join_parts]
      exact fun c hc => isBlank_of_mem_gap hc
    refine ⟨parts (gap n), _, ?_, hback, h.recovers⟩
    rw [readRun_gap, readRun_stopsProse (List.append_ne_nil_of_right_ne_nil _ hne) (h.stops hs)]
  | @done lexed h hk =>
    refine ⟨[], lexed.tokens, ?_, by simp, h.recovers⟩
    cases ht : lexed.tokens with
    | nil => rfl
    | cons t ts =>
      rw [ht] at hk
      rw [Spec.readRun, show t.kind = .eof from hk]
      rfl

/-- The characters at the start of a line are read as the statements. -/
def Here (file : String) (nested : Bool) (K : Lexed → Prop) (statements : List Statement)
    (text : List Char) : Prop :=
  ∀ previous, IsLineStart previous → ∀ p,
    Begins file nested K statements (tokenizeFrom previous p text)

/-- The same at the end of the line before. -/
structure Below (file : String) (nested : Bool) (K : Lexed → Prop) (statements : List Statement)
    (text : List Char) : Prop where
  line : ∀ c, text.head? = some c → c = '\n'
  follows : ∀ previous p, Follows file nested K statements (tokenizeFrom previous p text)

theorem Here.below {body : List Char} (h : Here file nested K statements body)
    (hb : ∀ c, body.head? = some c → isInlineBlank c = false) (n : Nat) :
    Below file nested K statements ('\n' :: (List.replicate n ' ' ++ body)) := by
  refine ⟨by simp, fun previous p => ?_⟩
  obtain ⟨last, hlast, hcuts⟩ : ∃ last, IsLineStart last ∧
      Cuts previous ('\n' :: (List.replicate n ' ' ++ body)) (gap n) last body := by
    have hline := cuts_newline previous (List.replicate n ' ' ++ body)
    cases n with
    | zero => exact ⟨_, .inr (.inl rfl), hline⟩
    | succ n => exact ⟨_, .inr (.inr rfl), hline.trans (cuts_blanks hb _)⟩
  rw [tokenizeFrom_of_cuts hcuts]
  exact .line n p (h last hlast _)

/-- Nothing is left where the text ends. -/
theorem below_nil (file : String) : Below file false (·.errors = []) [] [] := by
  refine ⟨by simp, fun previous p => ?_⟩
  rw [tokenizeFrom]
  refine .done ⟨(fun h => by cases h), fun _ => rfl, [], _, .done rfl (.inl rfl), rfl, rfl⟩ rfl

/-- The text of a statement is its indentation and a body, which is read as the statement whatever stands
below it. -/
def IsSpelled (depth : Nat) (s : Statement) (rest : List Statement) : Prop :=
  ∃ body, (s.render depth).toList = indent depth ++ body ∧
    (∃ c, body.head? = some c ∧ isInlineBlank c = false) ∧
    ∀ file nested K below, Below file nested K rest below →
      Here file nested K (s :: rest) (body ++ below)

theorem IsSpelled.render_ne_empty {depth : Nat} {s : Statement} {rest : List Statement}
    (h : IsSpelled depth s rest) : s.render depth ≠ "" := by
  obtain ⟨body, hrender, ⟨c, hc, -⟩, -⟩ := h
  intro he
  rw [he, String.toList_empty, eq_comm, List.append_eq_nil_iff] at hrender
  simp [hrender.2] at hc

/-- A statement on one line. -/
theorem isSpelled_of_indented {depth : Nat} {s : Statement} {rest : List Statement} {text : String}
    {c : Char} (ht : s.render depth = indented depth text) (hc : text.toList.head? = some c)
    (hb : isInlineBlank c = false)
    (h : ∀ file nested K below, Below file nested K rest below →
      Here file nested K (s :: rest) (text.toList ++ below)) : IsSpelled depth s rest := by
  have hne : text ≠ "" := by
    rintro rfl
    cases hc
  exact ⟨text.toList, by rw [ht, toList_indented hne], ⟨c, hc, hb⟩, h⟩

/-- A statement that is recovered, with those below it. -/
theorem Recovers.first {t : Token} {ts more : List Token} {errors : List LexError} {one s : Statement}
    {rest : List Statement} (there : Recovers file nested K rest ⟨more, errors⟩)
    (hk : beginsStatement t.kind = true) (hm : header? (t :: ts) = none)
    (hr : readStatement file (t :: ts) = ⟨some one, more, []⟩) (hb : one.bare = s.bare) :
    Recovers file nested K (s :: rest) ⟨t :: ts, errors⟩ := by
  obtain ⟨out, after, hreads, hout, hK⟩ := there
  refine ⟨one :: out, after, hreads.first hk hm hr, ?_, hK⟩
  rw [bareAll, bareAll, hout, hb]

/-! ## Comments -/

theorem IsComment.exists_cuts {cs below : List Char} (h : IsComment cs) {previous : Option Char}
    (hp : IsLineStart previous) (hb : ∀ c, below.head? = some c → c = '\n') :
    ∃ last, Cuts previous (cs ++ below) [⟨.comment, cs⟩] last below := by
  cases h with
  | @hash cs hn =>
    have hstart : startsLineComment previous ('#' :: cs ++ below) = true := by
      rcases hp with rfl | rfl | rfl <;> rfl
    exact ⟨_, cuts_lineComment hstart (by simpa using hn) (by simp) hb⟩
  | @slashes cs hn =>
    have hstart : startsLineComment previous ('/' :: '/' :: cs ++ below) = true := by
      rcases hp with rfl | rfl | rfl <;> rfl
    exact ⟨_, cuts_lineComment hstart (by simpa using hn) (by simp) hb⟩
  | block hn => exact ⟨_, cuts_blockComment hn previous⟩

theorem IsComment.head {cs : List Char} (h : IsComment cs) :
    ∃ c, cs.head? = some c ∧ isInlineBlank c = false := by
  cases h <;> exact ⟨_, rfl, rfl⟩

theorem isSpelled_comment {text : String} (h : IsComment text.toList) (depth : Nat) (span : Span)
    (rest : List Statement) : IsSpelled depth (.comment text span) rest := by
  obtain ⟨c, hc, hb⟩ := h.head
  refine isSpelled_of_indented (by rw [Statement.render]) hc hb ?_
  intro file nested K below hbelow previous hp p
  obtain ⟨last, hcuts⟩ := h.exists_cuts hp hbelow.line
  have hfollows := hbelow.follows last (p.after (spelled [⟨.comment, text.toList⟩]))
  rw [tokenizeFrom_of_cuts hcuts, placed_cons, String.ofList_toList]
  refine ⟨hfollows.isQuiet.brace, fun _ => rfl, hfollows.recovers.first rfl ?_ rfl ?_⟩
  · exact header?_comment text p _
  · rw [Statement.bare, Statement.bare]

/-! ## Parameters -/

theorem IsName.head {n : String} (h : IsName n) :
    ∃ c, n.toList.head? = some c ∧ isInlineBlank c = false := by
  obtain ⟨hne, hchars⟩ := IsArgument.isNameChar (.inl h.plain)
  obtain ⟨c, cs, hn⟩ := List.exists_cons_of_ne_nil hne
  rw [hn] at hchars ⊢
  exact ⟨c, rfl, isInlineBlank_of_not_mark (isMark_of_isNameChar (hchars c List.mem_cons_self))⟩

/-- The pieces of a bare value are a run that it is recovered from, up to where the statement ends. -/
theorem exists_cuts_bare (file : String) {value : String}
    (h : value.toList ≠ [] ∧ ∀ c ∈ value.toList, isRunChar c = true ∧ Text.isBlank c = false)
    (rest : List Char) (hstop : ∀ c, rest.head? = some c → isTextStop c = true)
    (previous : Option Char) :
    ∃ ps last, Cuts previous (value.toList ++ rest) ps last rest ∧
      ∀ (name equals : String) (p₁ p₂ p : Position) (ts : List Token),
        endsStatement (nextKind ts) = true →
        ∃ span, readParam file (⟨.identifier, name, p₁⟩ :: ⟨.equals, equals, p₂⟩ :: (placed p ps ++ ts)) =
          ⟨some (.param name value span), skipSemicolon ts, []⟩ := by
  obtain ⟨hne, hchars⟩ := h
  obtain ⟨ps, last, hcuts, hspelled, hkinds, -⟩ :=
    exists_cuts_run (fun c hc => (hchars c hc).1) hstop previous
  refine ⟨ps, last, hcuts, fun name equals p₁ p₂ p ts hends => ?_⟩
  have hjoin : joinTexts (placed p ps) = value := by
    rw [joinTexts_placed, hspelled, String.ofList_toList]
  have hvalue : Text.strip (joinTexts (placed p ps)) = value := by
    rw [hjoin]
    exact Text.strip_of_not_isBlank fun c hc => (hchars c hc).2
  have hrun : ∀ t ∈ placed p ps, isRunKind t.kind = true := by
    intro t ht
    obtain ⟨q, hq, hk, -⟩ := exists_piece ht
    rw [hk]
    exact (hkinds q hq).1
  have hsome : placed p ps ≠ [] := by
    intro hnil
    rw [hnil] at hjoin
    exact hne (by rw [← hjoin]; rfl)
  have := readParam_bare file name equals p₁ p₂ hsome hrun hends (by rw [hvalue]; simpa using hne)
  rwa [hvalue] at this

/-- The pieces of a value: a string, or a run that it is recovered from. -/
theorem exists_cuts_value (file : String) {value : String}
    (h : isBareValue value.toList = true → value.toList.getLast? ≠ some '\n')
    (rest : List Char) (previous : Option Char) :
    ∃ ps last, Cuts previous ((paramValueText value).toList ++ ';' :: rest) ps last (';' :: rest) ∧
      ∀ (name equals semicolon : String) (p₁ p₂ p₃ p : Position) (ts : List Token),
        ∃ span, readParam file (⟨.identifier, name, p₁⟩ :: ⟨.equals, equals, p₂⟩ :: (placed p ps ++
          ⟨.semicolon, semicolon, p₃⟩ :: ts)) = ⟨some (.param name value span), ts, []⟩ := by
  rw [paramValueText]
  split
  · next hbare =>
    obtain ⟨ps, last, hcuts, hread⟩ := exists_cuts_bare file (isRunChar_of_isBareValue hbare (h hbare))
      (';' :: rest) (by rintro _ ⟨⟩; rfl) previous
    exact ⟨ps, last, hcuts, fun name equals semicolon p₁ p₂ p₃ p ts => hread name equals p₁ p₂ p _ rfl⟩
  · refine ⟨_, _, cuts_quoted value (';' :: rest) previous, fun name equals semicolon p₁ p₂ p₃ p ts => ?_⟩
    have := readParam_quoted file name ("\"" ++ escape value ++ "\"") equals semicolon p₁ p₂ p
      p₃ ts
    rw [unquote_quoted] at this
    rw [placed_cons, String.ofList_toList]
    exact this

/-- A name and its equals sign, whatever follows them. -/
theorem IsName.cuts_equals {name : String} (h : IsName name) (rest : List Char)
    (previous : Option Char) :
    Cuts previous (name.toList ++ '=' :: rest) [⟨.identifier, name.toList⟩, ⟨.equals, ['=']⟩] (some '=')
      rest := by
  have hequals : ∀ c, ('=' :: rest).head? = some c → isNameChar c = false := by
    rintro _ ⟨⟩
    rfl
  have hname := cuts_name h.plain hequals previous
  rw [if_neg h.ne_include] at hname
  exact hname.trans (cuts_punctuation rfl _ _)

theorem stopsProse_param (name equals : String) (p₁ p₂ : Position) (ts : List Token) :
    stopsProse (⟨.identifier, name, p₁⟩ :: ⟨.equals, equals, p₂⟩ :: ts) = true := by
  simp [stopsProse, interruptsProse, startsParam, nextKind, skipBlanks, skipKinds]

theorem isSpelled_param {name value : String} (h : IsName name)
    (hv : isBareValue value.toList = true → value.toList.getLast? ≠ some '\n') (depth : Nat) (span : Span)
    (rest : List Statement) : IsSpelled depth (.param name value span) rest := by
  obtain ⟨c, hc, hb⟩ := h.head
  refine isSpelled_of_indented (c := c) (by rw [Statement.render]) (by simp [hc]) hb ?_
  intro file nested K below hbelow previous hp p
  obtain ⟨ps, middle, hvalue, hread⟩ := exists_cuts_value file hv below (some '=')
  have hcuts : Cuts previous ((name ++ "=" ++ paramValueText value ++ ";").toList ++ below)
      (⟨.identifier, name.toList⟩ :: ⟨.equals, ['=']⟩ :: (ps ++ [⟨.semicolon, [';']⟩])) (some ';')
      below := by
    have := (h.cuts_equals _ previous).trans (hvalue.trans (cuts_punctuation rfl _ _))
    simpa using this
  have hfollows := hbelow.follows (some ';') (p.after (spelled (⟨.identifier, name.toList⟩ ::
    ⟨.equals, ['=']⟩ :: (ps ++ [⟨.semicolon, [';']⟩]))))
  rw [tokenizeFrom_of_cuts hcuts]
  obtain ⟨span', hone⟩ := hread name "=" ";" p (p.after name.toList)
    (((p.after name.toList).next '=').after (spelled ps)) ((p.after name.toList).next '=') _
  rw [placed_cons, placed_cons, placed_append, String.ofList_toList, List.cons_append, List.cons_append,
    List.append_assoc]
  refine ⟨(fun h => by cases h), fun _ => stopsProse_param .., hfollows.recovers.first rfl (header?_param ..)
    ((readStatement_param ..).trans hone) ?_⟩
  rw [Statement.bare, Statement.bare]

/-! ## Free text -/

theorem joinPieces_ends {first : List Char} {words : List (List Char)}
    (h : ∀ w ∈ first :: words, IsWord w) :
    Text.joinPieces ' ' (first :: words) ≠ [] ∧
      (∀ c ∈ (Text.joinPieces ' ' (first :: words)).head?, isWordChar c = true) ∧
      ∀ c ∈ (Text.joinPieces ' ' (first :: words)).getLast?, isWordChar c = true := by
  induction words generalizing first with
  | nil =>
    obtain ⟨hne, hchars⟩ := h first List.mem_cons_self
    exact ⟨hne, fun c hc => hchars c (List.mem_of_mem_head? hc),
      fun c hc => hchars c (List.mem_of_mem_getLast? hc)⟩
  | cons w words ih =>
    obtain ⟨hlater, -, hlast⟩ := ih fun x hx => h x (List.mem_cons_of_mem _ hx)
    obtain ⟨hne, hchars⟩ := h first List.mem_cons_self
    obtain ⟨d, ds, rfl⟩ := List.exists_cons_of_ne_nil hne
    obtain ⟨e, es, hes⟩ := List.exists_cons_of_ne_nil hlater
    refine ⟨by simp [Text.joinPieces], fun c hc => hchars c ?_, fun c hc => hlast c ?_⟩
    · cases hc
      exact List.mem_cons_self
    · rw [Text.joinPieces, hes, List.getLast?_append_cons, List.getLast?_cons_cons] at hc
      rwa [hes]

theorem IsPhrase.ends {cs : List Char} (h : IsPhrase cs) :
    cs ≠ [] ∧ (∀ c ∈ cs.head?, Text.isBlank c = false) ∧ ∀ c ∈ cs.getLast?, Text.isBlank c = false := by
  obtain ⟨first, words, rfl, hwords, -⟩ := h
  obtain ⟨hne, hhead, hlast⟩ := joinPieces_ends hwords
  have hblank (c : Char) (hc : isWordChar c = true) : Text.isBlank c = false := by
    simp only [isWordChar, Bool.and_eq_true, Bool.not_eq_true'] at hc
    exact hc.2
  exact ⟨hne, fun c hc => hblank c (hhead c hc), fun c hc => hblank c (hlast c hc)⟩

theorem isInlineBlank_of_not_isBlank {c : Char} (h : Text.isBlank c = false) :
    isInlineBlank c = false := by
  cases hb : isInlineBlank c with
  | false => rfl
  | true =>
    simp only [isInlineBlank, Bool.or_eq_true, beq_iff_eq] at hb
    rcases hb with (rfl | rfl) | rfl <;> cases h

theorem isCut_marker (important : Bool) {rest : List Char}
    (hr : ∀ c, rest.head? = some c → isNameChar c = false) : IsCut (marker important) rest := by
  cases important with
  | false => exact .nil rest
  | true =>
    have hmarker : IsCut [⟨.important, importantMarker⟩] rest :=
      .cons (fun previous => ⟨_, cuts_important hr previous⟩) (.nil rest)
    exact isCut_blank (by simp [importantMarker]; decide) hmarker

/-- A phrase, with or without a marker, up to what ends it. -/
theorem IsPhrase.exists_cuts {cs rest : List Char} (h : IsPhrase cs) (important : Bool)
    (hr : ∀ c, rest.head? = some c → c = ';' ∨ c = '\n') (previous : Option Char) :
    ∃ q ps last, Cuts previous (cs ++ (spelled (marker important) ++ rest))
        (q :: ps ++ marker important) last rest ∧
      spelled (q :: ps) = cs ∧ (∀ x ∈ q :: ps, isPhraseKind x.kind = true) ∧ q.kind ≠ .whitespace ∧
      q.kind ≠ .includeWord := by
  obtain ⟨first, words, rfl, hwords, hinclude⟩ := h
  have hstop : ∀ c, (spelled (marker important) ++ rest).head? = some c → isTextStop c = true := by
    intro c hc
    cases important with
    | false => rcases hr c hc with rfl | rfl <;> rfl
    | true =>
      cases hc
      rfl
  have hname : ∀ c, rest.head? = some c → isNameChar c = false := by
    intro c hc
    rcases hr c hc with rfl | rfl <;> decide
  obtain ⟨q, ps, middle, hcuts, hspelled, hkinds, hq, hqi⟩ := exists_cuts_phrase hwords hstop previous
  obtain ⟨last, hmarker⟩ := isCut_marker important hname middle
  exact ⟨q, ps, last, hcuts.trans hmarker, hspelled, hkinds, hq, fun hk => hinclude (hqi hk)⟩

theorem toList_withImportance (text : String) (important : Bool) :
    (withImportance text important).toList = text.toList ++ spelled (marker important) := by
  cases important with
  | false => simp [withImportance, marker]
  | true =>
    have : (" !important" : String).toList = spelled (marker true) := by decide
    rw [withImportance, if_pos rfl, String.toList_append, this]

/-- A run of free text ends with these tokens, and takes nothing of them that is not blank. -/
structure RunEnds (file : String) (nested : Bool) (K : Lexed → Prop) (terminated : Bool)
    (statements : List Statement) (lexed : Lexed) : Prop where
  quiet : IsQuiet lexed.tokens
  noEquals : nextKind (skipBlanks lexed.tokens) ≠ .equals
  run (texts : List String) (important : Bool) (h : texts ≠ []) :
    ∃ back rest, readRun texts important false lexed.tokens =
        ⟨back ++ texts, important, terminated, rest⟩ ∧
      (∀ c ∈ (String.join back.reverse).toList, Text.isBlank c = true) ∧
      Recovers file nested K statements ⟨rest, lexed.errors⟩

theorem isQuiet_marker (important : Bool) {ts : List Token} (h : IsQuiet ts) (p : Position) :
    IsQuiet (placed p (marker important) ++ ts) := by
  cases important with
  | false => exact h
  | true => exact ⟨nofun, nofun, nofun⟩

theorem skipBlanks_marker (important : Bool) {ts : List Token}
    (h : nextKind (skipBlanks ts) ≠ .equals) (p : Position) :
    nextKind (skipBlanks (placed p (marker important) ++ ts)) ≠ .equals := by
  cases important with
  | false => exact h
  | true => nofun

/-- A phrase is read as free text, up to where the run ends. -/
theorem here_free (terminated : Bool) {text : String} {important : Bool} {span : Span}
    {tail : List Char} (h : IsPhrase text.toList) (ht : ∀ c, tail.head? = some c → c = ';' ∨ c = '\n')
    (hends : ∀ previous p,
      RunEnds file nested K terminated statements (tokenizeFrom previous p tail)) :
    Here file nested K ((if terminated then .constraint text important span
      else .prose text important span) :: statements)
      (text.toList ++ (spelled (marker important) ++ tail)) := by
  intro previous _ p
  obtain ⟨q, ps, last, hcuts, hspelled, hkinds, hq, hqi⟩ := h.exists_cuts important ht previous
  have hqk : q.kind ≠ .braceOpen ∧ beginsStatement q.kind = true ∧
      (q.kind == .whitespace || q.kind == .newline || q.kind == .comment) = false := by
    have := hkinds q List.mem_cons_self
    revert this hq
    cases q.kind <;> decide
  rw [tokenizeFrom_of_cuts hcuts, placed_append, List.append_assoc]
  obtain ⟨hquiet, hequals, hrun⟩ := hends last (p.after (spelled (q :: ps ++ marker important)))
  generalize tokenizeFrom last (p.after (spelled (q :: ps ++ marker important))) tail = lexed at *
  generalize p.after (spelled (q :: ps)) = p'
  obtain ⟨back, rest, hrun, hback, there⟩ := hrun (parts (q :: ps)) important (by simp [parts])
  obtain ⟨hm, hstatement⟩ := readStatement_phrase file hkinds hqi
    (isQuiet_marker important hquiet p') (skipBlanks_marker important hequals p') p
  have hone := readProse_of_run file hkinds hq (isQuiet_marker important hquiet p')
    ((readRun_marker important _ _ p').trans hrun) hback (by rw [hspelled]; exact h.ends.1)
    (by rw [hspelled]; exact h.ends.2.1) (by rw [hspelled]; exact h.ends.2.2) p
  obtain ⟨span', hone⟩ := hone
  rw [hspelled, String.ofList_toList] at hone
  rw [placed_cons, List.cons_append] at hm hstatement hone ⊢
  refine ⟨?_, ?_, ?_⟩
  · dsimp only
    rw [skipInsignificant, skipKinds, List.dropWhile_cons_of_neg (by simp [hqk.2.2])]
    exact hqk.1
  · intro hs
    have := hs _ rfl
    cases terminated <;> cases this
  · refine there.first hqk.2.1 hm (hstatement.trans hone) ?_
    cases terminated <;> simp [Statement.bare]

theorem Below.runEnds {below : List Char} (h : Below file nested K statements below)
    (hs : ∀ s, statements.head? = some s → s.isFree = false) (previous : Option Char) (p : Position) :
    RunEnds file nested K false statements (tokenizeFrom previous p below) := by
  have hfollows := h.follows previous p
  refine ⟨hfollows.isQuiet, ?_, fun texts important hne => hfollows.readRun hs hne important⟩
  rw [skipBlanks, skipKinds_of_nextKind]
  all_goals rcases hfollows.nextKind with hk | hk <;> simp [hk]

theorem Below.runEnds_semicolon {below : List Char} (h : Below file nested K statements below)
    (previous : Option Char) (p : Position) :
    RunEnds file nested K true statements (tokenizeFrom previous p (';' :: below)) := by
  rw [tokenizeFrom_of_cuts (cuts_punctuation rfl previous below)]
  refine ⟨⟨nofun, nofun, nofun⟩, nofun, fun texts important hne => ⟨[], _, ?_, by simp,
    (h.follows _ _).recovers⟩⟩
  rw [placed_cons, List.cons_append, readRun]
  simp [endsProse, interruptsProse, nextKind]

theorem IsPhrase.head {cs : List Char} (h : IsPhrase cs) : ∃ c, cs.head? = some c ∧ isInlineBlank c = false := by
  obtain ⟨hne, hhead, -⟩ := h.ends
  obtain ⟨c, more, rfl⟩ := List.exists_cons_of_ne_nil hne
  exact ⟨c, rfl, isInlineBlank_of_not_isBlank (hhead c rfl)⟩

theorem isSpelled_prose {text : String} (h : IsPhrase text.toList) {rest : List Statement}
    (hs : ∀ s, rest.head? = some s → s.isFree = false) (important : Bool) (depth : Nat) (span : Span) :
    IsSpelled depth (.prose text important span) rest := by
  obtain ⟨c, hc, hb⟩ := h.head
  refine isSpelled_of_indented (c := c) (by rw [Statement.render]) (by simp [toList_withImportance, hc]) hb ?_
  intro file nested K below hbelow
  rw [toList_withImportance, List.append_assoc]
  exact here_free false h (fun c hc => .inr (hbelow.line c hc)) (hbelow.runEnds hs)

theorem isSpelled_constraint {text : String} (h : IsPhrase text.toList) (important : Bool) (depth : Nat)
    (span : Span) (rest : List Statement) : IsSpelled depth (.constraint text important span) rest := by
  obtain ⟨c, hc, hb⟩ := h.head
  refine isSpelled_of_indented (c := c) (by rw [Statement.render]) (by simp [toList_withImportance, hc]) hb ?_
  intro file nested K below hbelow
  have hsemicolon : (withImportance text important ++ ";").toList ++ below =
      text.toList ++ (spelled (marker important) ++ ';' :: below) := by
    simp [toList_withImportance]
  rw [hsemicolon]
  exact here_free true h (by simp) hbelow.runEnds_semicolon

/-! ## Modules -/

/-- The block inside a module ends at its closing brace, and the statements after the module follow. -/
def Closes (file : String) (nested : Bool) (K : Lexed → Prop) (rest : List Statement) (lexed : Lexed) :
    Prop :=
  nextKind lexed.tokens = .braceClose ∧
    Recovers file nested K rest ⟨lexed.tokens.tail, lexed.errors⟩

theorem Below.closes {rest : List Statement} {below : List Char} (h : Below file nested K rest below) :
    Here file true (Closes file nested K rest) [] ('\x7d' :: below) := by
  intro previous _ p
  rw [tokenizeFrom_of_cuts (cuts_punctuation rfl previous below)]
  exact ⟨nofun, fun _ => rfl, [], _, .done rfl (.inr ⟨rfl, rfl⟩), rfl, rfl, (h.follows _ _).recovers⟩

theorem Recovers.module {header : Header} {children rest : List Statement} {span : Span}
    {ts body : List Token} {errors : List LexError} (hm : header? ts = some (header, body)) (hs : skipLines ts = ts)
    (inside : Recovers file true (Closes file nested K rest) children ⟨body, errors⟩) :
    Recovers file nested K (.module header children span :: rest) ⟨ts, errors⟩ := by
  obtain ⟨out, middle, hinside, hout, hclose, later, after, hlater, hrest, hK⟩ := inside
  have hbrace : closeBrace file middle = ⟨(), middle.tail, []⟩ := if_pos hclose
  have hthere : Reads file nested (closeBrace file middle).rest later after [] := by
    rw [hbrace]
    exact hlater
  have hreads := Reads.module hs hm hinside hthere
  rw [hbrace] at hreads
  refine ⟨_, after, hreads, ?_, hK⟩
  rw [bareAll, bareAll, hrest, Statement.bare, Statement.bare, hout]

theorem Header.head {h : Header} (hp : h.IsPlain) :
    ∃ c, (spelled h.pieces).head? = some c ∧ isInlineBlank c = false := by
  rw [Header.pieces]
  cases h.combinator with
  | none =>
    obtain ⟨c, hc, hb⟩ := hp.name.head
    exact ⟨c, by simp [leadPieces, Header.namePieces, hc], hb⟩
  | some c => cases c <;> exact ⟨_, rfl, rfl⟩

/-- Only a module begins with its header. -/
theorem nextKind_pieces {h : Header} (p : Position) (ts : List Token) :
    nextKind (placed p h.pieces ++ ts) = .identifier ∨
      (combinator? (nextKind (placed p h.pieces ++ ts))).isSome = true := by
  rw [Header.pieces]
  cases h.combinator with
  | none => exact .inl rfl
  | some c => cases c <;> exact .inr rfl

theorem isSpelled_module {header : Header} {children : List Statement} {depth : Nat} (h : header.IsPlain)
    (hc : ∀ x ∈ children, x.render (depth + 1) ≠ "")
    (inside : ∀ file K below, Below file true K [] below →
      Below file true K children (lines (depth + 1) children below)) (span : Span) (rest : List Statement) :
    IsSpelled depth (.module header children span) rest := by
  refine ⟨spelled header.pieces ++ lines (depth + 1) children ('\n' :: (indent depth ++ ['\x7d'])),
    ?_, ?_, ?_⟩
  · rw [toList_render_module hc, ← Header.toList_text]
    simp
  · obtain ⟨c, hc, hb⟩ := Header.head h
    exact ⟨c, by rw [List.head?_append, hc]; rfl, hb⟩
  · intro file nested K below hbelow previous _ p
    have hclosed : Below file true (Closes file nested K rest) []
        ('\n' :: (indent depth ++ '\x7d' :: below)) :=
      hbelow.closes.below (by simp; decide) (2 * depth)
    have hinside := inside file _ _ hclosed
    have htext : spelled header.pieces ++ lines (depth + 1) children ('\n' :: (indent depth ++ ['\x7d'])) ++
        below = spelled header.pieces ++
          lines (depth + 1) children ('\n' :: (indent depth ++ '\x7d' :: below)) := by
      simp [lines]
    rw [htext]
    obtain ⟨last, hcuts⟩ := Header.isCut h
      (lines (depth + 1) children ('\n' :: (indent depth ++ '\x7d' :: below))) previous
    rw [tokenizeFrom_of_cuts hcuts]
    have hrecovers := (hinside.follows last (p.after (spelled header.pieces))).recovers
    generalize tokenizeFrom last (p.after (spelled header.pieces)) _ = lexed at hrecovers ⊢
    have hm := header?_placed h p lexed.tokens
    have hk := nextKind_pieces (h := header) p lexed.tokens
    generalize placed p header.pieces ++ lexed.tokens = ts at hm hk ⊢
    have hkind : nextKind ts ≠ .braceOpen ∧ nextKind ts ≠ .whitespace ∧ nextKind ts ≠ .newline ∧
        nextKind ts ≠ .comment := by
      revert hk
      cases nextKind ts <;> decide
    refine ⟨?_, fun _ => ?_, hrecovers.module hm (skipKinds_of_nextKind (by simp [hkind]))⟩
    · rw [skipInsignificant, skipKinds_of_nextKind (by simp [hkind])]
      exact hkind.1
    · rcases hk with hk | hk <;> simp [stopsProse, interruptsProse, hm, hk]

/-! ## Blocks -/

/-- Statements whose texts are read as they stand, each above those after it. -/
inductive AllSpelled (depth : Nat) : List Statement → Prop
  | nil : AllSpelled depth []
  | cons {s : Statement} {rest : List Statement} (h : IsSpelled depth s rest)
      (there : AllSpelled depth rest) : AllSpelled depth (s :: rest)

theorem AllSpelled.render_ne_empty {depth : Nat} (h : AllSpelled depth statements) :
    ∀ s ∈ statements, s.render depth ≠ "" := by
  induction h with
  | nil => simp
  | cons h _ ih => exact List.forall_mem_cons.2 ⟨h.render_ne_empty, ih⟩

/-- The lines of a block are read as its statements, above a text that has none. -/
theorem AllSpelled.lines_below {depth : Nat} {text : List Char} (h : AllSpelled depth statements)
    (ht : Below file nested K [] text) : Below file nested K statements (lines depth statements text) := by
  induction h with
  | nil => exact ht
  | @cons s rest h _ ih =>
    obtain ⟨body, hrender, ⟨c, hc, hb⟩, hhere⟩ := h
    have hhead : ∀ x, (body ++ lines depth rest text).head? = some x → isInlineBlank x = false := by
      rw [List.head?_append, hc]
      rintro _ ⟨⟩
      exact hb
    have := (hhere file nested K _ ih).below hhead (2 * depth)
    rwa [lines_cons, hrender, List.append_assoc]

/-- Well-formed statements are read as they stand, at every depth. -/
theorem WellFormed.allSpelled (h : WellFormed statements) (depth : Nat) :
    AllSpelled depth statements := by
  induction h generalizing depth with
  | nil => exact .nil
  | module h _ _ ihc ih =>
    have hchildren := ihc (depth + 1)
    exact .cons (isSpelled_module h hchildren.render_ne_empty (fun _ _ _ => hchildren.lines_below) _ _)
      (ih depth)
  | prose h hn _ ih => exact .cons (isSpelled_prose h hn _ depth _) (ih depth)
  | constraint h _ ih => exact .cons (isSpelled_constraint h _ depth _ _) (ih depth)
  | param h hv _ ih => exact .cons (isSpelled_param h (fun _ => hv) depth _ _) (ih depth)
  | comment h _ ih => exact .cons (isSpelled_comment h depth _ _) (ih depth)

/-- The text of a document whose statements are spelled so is cut without a fault, and read as them. -/
theorem AllSpelled.recovers {d : Document} (h : AllSpelled 0 d.children) (file : String) :
    Recovers file false (·.errors = []) d.children (tokenize d.render) := by
  rw [tokenize, Document.render]
  have hrender := h.render_ne_empty
  generalize d.children = statements at h hrender ⊢
  cases h with
  | nil =>
    have hempty : Statement.renderAll 0 [] = "" := by
      rw [Statement.renderAll, renderEach_eq]
      rfl
    rw [hempty]
    exact ((below_nil file).follows none .origin).recovers
  | cons hs there =>
    obtain ⟨body, hbody, -, hhere⟩ := hs
    rw [toList_renderAll hrender, hbody]
    exact (hhere file false _ _ (there.lines_below (below_nil file)) none (.inl rfl) .origin).recovers

/-- The canonical text of well-formed statements is cut without a fault, and read as these statements. -/
theorem WellFormed.recovers {d : Document} (h : WellFormed d.children) (file : String) :
    Recovers file false (·.errors = []) d.children (tokenize d.render) := (h.allSpelled 0).recovers file

theorem Recovers.parseSource {source : String}
    (h : Recovers file false (·.errors = []) statements (tokenize source)) :
    (parseSource file source).problems = [] ∧
      bareAll (parseSource file source).document.children = bareAll statements := by
  obtain ⟨out, after, hreads, hout, herrors⟩ := h
  have hlexed : tokenize source = ⟨(tokenize source).tokens, []⟩ := by
    rw [← herrors]
  obtain ⟨hchildren, hproblems⟩ := hreads.parseSource_eq hlexed
  exact ⟨hproblems, by rw [hchildren, hout]⟩

/-- **Parsing undoes printing.** A document of well-formed statements is recovered from its canonical text,
up to places, and nothing is found wrong with the text. -/
theorem parse_render (file : String) (d : Document) (h : WellFormed d.children) :
    (parseSource file d.render).problems = [] ∧
      bareAll (parseSource file d.render).document.children = bareAll d.children :=
  (h.recovers file).parseSource

/-- A document with every kind of statement that can be read back. -/
def serviceDocument : Document :=
  ⟨[.comment "# Notes" default,
    .module ⟨"service", ["api"], [⟨"node", ["server", "2"]⟩], some .child⟩
      [.param "path" "C:\\\"in\"\nout" default,
        .constraint "log every request" true default,
        .module ⟨"store", [], [], none⟩ [] default,
        .prose "keep it small" false default] default,
    .prose "one server" false default], default⟩

theorem serviceDocument_wellFormed : WellFormed serviceDocument.children := by
  have hrequest : IsPhrase "log every request".toList :=
    @isPhrase_of_isAlphanum _ "log" ["every", "request"] (by decide) (by decide) (by decide)
  have hsmall : IsPhrase "keep it small".toList :=
    @isPhrase_of_isAlphanum _ "keep" ["it", "small"] (by decide) (by decide) (by decide)
  have hone : IsPhrase "one server".toList :=
    @isPhrase_of_isAlphanum _ "one" ["server"] (by decide) (by decide) (by decide)
  have hnotes : IsComment "# Notes".toList := .hash (by decide : '\n' ∉ " Notes".toList)
  refine .comment hnotes (.module ?_ (.param ⟨by decide, by decide⟩ (by decide) (.constraint hrequest
    (.module ?_ .nil (.prose hsmall nofun .nil)))) (.prose hone nofun .nil))
  · have hservice : IsName "service" ∧ IsName "api" ∧ IsName "node" ∧ IsArgument "server" ∧
        IsArgument "2" :=
      ⟨⟨by decide, by decide⟩, ⟨by decide, by decide⟩, ⟨by decide, by decide⟩, .inl (by decide),
        .inr ⟨by decide, by simp; rfl⟩⟩
    exact ⟨hservice.1, by simpa using hservice.2.1, by simpa using hservice.2.2⟩
  · exact ⟨⟨by decide, by decide⟩, nofun, nofun⟩

theorem serviceDocument_recovered :
    WellFormed serviceDocument.children ∧
      (parseSource "service.aid" serviceDocument.render).problems = [] ∧
      bareAll (parseSource "service.aid" serviceDocument.render).document.children =
        bareAll serviceDocument.children :=
  ⟨serviceDocument_wellFormed, parse_render "service.aid" serviceDocument serviceDocument_wellFormed⟩

end SpecTree.Spec
