import SpecTree.Spec.Printer

/-!
# Cutting a text into tokens

`Cuts` says which pieces the lexer takes from the front of a text while the rest of the text stands
behind them, so that pieces can be put together without one running into the next.

1. `tokenizeFrom_of_cuts`: the tokens of the text are the pieces in their places, and those of the rest.
2. One lemma for each kind of piece that a canonical text has.
3. `exists_cuts_run`: a run of characters that mean nothing to the lexer is cut into pieces that mean
   nothing to the parser.
-/

namespace SpecTree.Spec

open Text (splitWhile splitWhile_append splitWhile_of_all splitWhile_append_of_stop)

/-! ## Pieces -/

/-- A token without its place. -/
structure Piece where
  kind : TokenKind
  text : List Char

/-- The text of pieces in a row. -/
def spelled (ps : List Piece) : List Char := ps.flatMap Piece.text

@[simp] theorem spelled_nil : spelled [] = [] := rfl

@[simp] theorem spelled_cons (q : Piece) (ps : List Piece) :
    spelled (q :: ps) = q.text ++ spelled ps := rfl

@[simp] theorem spelled_append (ps qs : List Piece) :
    spelled (ps ++ qs) = spelled ps ++ spelled qs := List.flatMap_append

/-- The tokens of pieces in a row, the first of which starts at `p`. -/
def placed (p : Position) : List Piece → List Token
  | [] => []
  | q :: ps => ⟨q.kind, String.ofList q.text, p⟩ :: placed (p.after q.text) ps

@[simp] theorem placed_nil (p : Position) : placed p [] = [] := rfl

@[simp] theorem placed_cons (p : Position) (q : Piece) (ps : List Piece) :
    placed p (q :: ps) = ⟨q.kind, String.ofList q.text, p⟩ :: placed (p.after q.text) ps := rfl

theorem placed_append (p : Position) (ps qs : List Piece) :
    placed p (ps ++ qs) = placed p ps ++ placed (p.after (spelled ps)) qs := by
  induction ps generalizing p with
  | nil => rfl
  | cons q ps ih => simp [ih, Position.after_append]

/-- From the text `cs`, after the character `previous`, the lexer takes the pieces; `rest` remains, after
the character `last`. -/
inductive Cuts : Option Char → List Char → List Piece → Option Char → List Char → Prop
  | done (previous : Option Char) (rest : List Char) : Cuts previous rest [] previous rest
  | step {previous last : Option Char} {c : Char} {cs text middle rest : List Char} {kind : TokenKind}
      {ps : List Piece} (h : scan previous c cs = ⟨kind, text, middle, none⟩)
      (later : Cuts text.getLast? middle ps last rest) :
      Cuts previous (c :: cs) (⟨kind, text⟩ :: ps) last rest

theorem Cuts.trans {previous middle last : Option Char} {a b c : List Char} {ps qs : List Piece}
    (h : Cuts previous a ps middle b) (k : Cuts middle b qs last c) :
    Cuts previous a (ps ++ qs) last c := by
  induction h with
  | done => exact k
  | step h _ ih => exact .step h (ih k)

/-- The tokens of a text that is cut. -/
theorem tokenizeFrom_of_cuts {previous last : Option Char} {cs rest : List Char} {ps : List Piece}
    (h : Cuts previous cs ps last rest) (p : Position) :
    tokenizeFrom previous p cs =
      ⟨placed p ps ++ (tokenizeFrom last (p.after (spelled ps)) rest).tokens,
        (tokenizeFrom last (p.after (spelled ps)) rest).errors⟩ := by
  induction h generalizing p with
  | done => rfl
  | step h _ ih =>
    rw [tokenizeFrom, h]
    simp [ih, Position.after_append]

/-- One piece at the front of a text. -/
theorem cuts_of_scan {previous : Option Char} {c : Char} {cs rest : List Char} {kind : TokenKind}
    (h : scan previous c (cs ++ rest) = ⟨kind, c :: cs, rest, none⟩) :
    Cuts previous (c :: cs ++ rest) [⟨kind, c :: cs⟩] (c :: cs).getLast? rest :=
  .step h (.done _ _)

/-! ## Pieces of a kind -/

/-- Characters that the lexer treats apart. -/
def isMark (c : Char) : Bool :=
  isInlineBlank c || c == '\n' || c == '/' || c == '#' || c == '\x60' || c == '"' || c == '!'
    || (punctuation? c).isSome

/-- The marks one by one. -/
def marks : List Char :=
  [' ', '\t', '\r', '\n', '/', '#', '\x60', '"', '!', '\x7b', '\x7d', '(', ')', ';', '=', '.', ':', '>', '+', '~']

theorem mem_marks {c : Char} (h : isMark c = true) : c ∈ marks := by
  simp only [isMark, isInlineBlank, Bool.or_eq_true, beq_iff_eq] at h
  rcases h with ((((((h | rfl) | rfl) | rfl) | rfl) | rfl) | rfl) | h
  · rcases h with (rfl | rfl) | rfl <;> decide
  all_goals try decide
  unfold punctuation? at h
  split at h <;> first | decide | cases h

theorem isInlineBlank_of_not_mark {c : Char} (h : isMark c = false) : isInlineBlank c = false := by
  simp only [isMark, Bool.or_eq_false_iff] at h
  exact h.1.1.1.1.1.1.1

theorem scan_of_not_mark {c : Char} (h : isMark c = false) (previous : Option Char) (cs : List Char) :
    scan previous c cs =
      if isDigit c then scanNumber (c :: cs) else if isNameStart c then scanName (c :: cs)
      else scanText c cs := by
  simp only [isMark, Bool.or_eq_false_iff, beq_eq_false_iff_ne, Option.isSome_eq_false_iff,
    Option.isNone_iff_eq_none] at h
  obtain ⟨⟨⟨⟨⟨⟨⟨hblank, hline⟩, hslash⟩, hhash⟩, htick⟩, hquote⟩, hbang⟩, hpunct⟩ := h
  have hblock : startsBlockComment (c :: cs) = false := by
    simp [startsBlockComment, List.isPrefixOf, hslash.symm]
  have hcomment : startsLineComment previous (c :: cs) = false := by
    simp [startsLineComment, List.isPrefixOf, hslash.symm, hhash.symm]
  have hfence : fence.isPrefixOf (c :: cs) = false := by
    simp [fence, List.isPrefixOf, htick.symm]
  have himportant : startsImportant (c :: cs) = false := by
    simp [startsImportant, importantMarker, List.isPrefixOf, hbang.symm]
  unfold scan
  simp only [hblank, hline, hblock, hcomment, hfence, htick, hquote, hpunct, himportant,
    Bool.false_eq_true, if_false]

theorem isMark_of_isTextStop {c : Char} (h : isTextStop c = true) : isMark c = true := by
  simp only [isTextStop, Bool.or_eq_true, beq_iff_eq] at h
  rcases h with ((((((rfl | rfl) | rfl) | rfl) | rfl) | rfl) | rfl) | h
  all_goals first | rfl | simp [isMark, h]

/-- Characters of names are no marks. -/
theorem isMark_of_isNameChar {c : Char} (h : isNameChar c = true) : isMark c = false := by
  have hmarks : marks.all (fun m => !isNameChar m) = true := by decide
  cases hm : isMark c with
  | false => rfl
  | true =>
    have hno := List.all_eq_true.1 hmarks c (mem_marks hm)
    rw [h] at hno
    cases hno

theorem isNameChar_of_isDigit {c : Char} (h : isDigit c = true) : isNameChar c = true := by
  simp [isNameChar, h]

theorem isNameChar_of_isNameStart {c : Char} (h : isNameStart c = true) : isNameChar c = true := by
  simp [isNameChar, h]

theorem isDigit_of_isNameStart {c : Char} (h : isNameStart c = true) : isDigit c = false := by
  simp only [isNameStart, isDigit, Bool.or_eq_true, Bool.and_eq_true, decide_eq_true_eq, beq_iff_eq,
    Char.le_def, UInt32.le_iff_toNat_le] at h ⊢
  simp only [Bool.and_eq_false_iff, decide_eq_false_iff_not]
  rcases h with (rfl | h) | h
  · decide
  · right
    have : (97 : Nat) ≤ c.val.toNat := h.1
    intro hle
    have : c.val.toNat ≤ 57 := hle
    omega
  · right
    have : (65 : Nat) ≤ c.val.toNat := h.1
    intro hle
    have : c.val.toNat ≤ 57 := hle
    omega

/-- A name ends where no further character of a name follows. -/
theorem cuts_name {n : List Char} (h : isPlainName n = true) {rest : List Char}
    (hr : ∀ c, rest.head? = some c → isNameChar c = false) (previous : Option Char) :
    Cuts previous (n ++ rest) [⟨if n = includeName then .includeWord else .identifier, n⟩] n.getLast?
      rest := by
  cases n with
  | nil => cases h
  | cons c n =>
    simp only [isPlainName, Bool.and_eq_true, List.all_eq_true] at h
    have hall : ∀ x ∈ c :: n, isNameChar x = true :=
      List.forall_mem_cons.2 ⟨isNameChar_of_isNameStart h.1, h.2⟩
    apply cuts_of_scan
    rw [scan_of_not_mark (isMark_of_isNameChar (hall c List.mem_cons_self)),
      isDigit_of_isNameStart h.1, h.1, if_neg Bool.false_ne_true, if_pos rfl, scanName,
      ← List.cons_append, splitWhile_of_all hall hr]

theorem cuts_digits {n : List Char} (hn : n ≠ []) (h : ∀ c ∈ n, isDigit c = true) {rest : List Char}
    (hr : ∀ c, rest.head? = some c → isDigit c = false ∧ c ≠ '.') (previous : Option Char) :
    Cuts previous (n ++ rest) [⟨.number, n⟩] n.getLast? rest := by
  obtain ⟨c, n, rfl⟩ := List.exists_cons_of_ne_nil hn
  have hc := h c List.mem_cons_self
  apply cuts_of_scan
  rw [scan_of_not_mark (isMark_of_isNameChar (isNameChar_of_isDigit hc)), hc, if_pos rfl, scanNumber,
    ← List.cons_append, splitWhile_of_all h fun c hc => (hr c hc).1]
  dsimp only
  split
  · exact absurd rfl (hr '.' rfl).2
  · rfl

theorem cuts_punctuation {c : Char} {kind : TokenKind} (h : punctuation? c = some kind)
    (previous : Option Char) (rest : List Char) :
    Cuts previous (c :: rest) [⟨kind, [c]⟩] (some c) rest := by
  have hscan : scan previous c ([] ++ rest) = ⟨kind, [c], rest, none⟩ := by
    unfold punctuation? at h
    split at h <;> cases h <;> rfl
  exact cuts_of_scan hscan

theorem cuts_newline (previous : Option Char) (rest : List Char) :
    Cuts previous ('\n' :: rest) [⟨.newline, ['\n']⟩] (some '\n') rest := by
  have hscan : scan previous '\n' ([] ++ rest) = ⟨.newline, ['\n'], rest, none⟩ := rfl
  exact cuts_of_scan hscan

theorem cuts_blanks {n : Nat} {rest : List Char}
    (hr : ∀ c, rest.head? = some c → isInlineBlank c = false) (previous : Option Char) :
    Cuts previous (List.replicate (n + 1) ' ' ++ rest) [⟨.whitespace, List.replicate (n + 1) ' '⟩]
      (some ' ') rest := by
  have hall : ∀ c ∈ List.replicate (n + 1) ' ', isInlineBlank c = true := by
    intro c hc
    rw [List.eq_of_mem_replicate hc]
    rfl
  have hscan : scan previous ' ' (List.replicate n ' ' ++ rest) =
      ⟨.whitespace, ' ' :: List.replicate n ' ', rest, none⟩ := by
    unfold scan
    rw [if_pos (by rfl), ← List.cons_append, ← List.replicate_succ, splitWhile_of_all hall hr]
  have hcut := cuts_of_scan hscan
  rwa [← List.replicate_succ, List.getLast?_replicate, if_neg (by omega)] at hcut

theorem cuts_important {rest : List Char} (hr : ∀ c, rest.head? = some c → isNameChar c = false)
    (previous : Option Char) :
    Cuts previous (importantMarker ++ rest) [⟨.important, importantMarker⟩] (some 't') rest := by
  have hstart : startsImportant (importantMarker ++ rest) = true := by
    cases rest with
    | nil => rfl
    | cons c rest => simp [startsImportant, importantMarker, List.isPrefixOf, hr c rfl]
  have hscan : scan previous '!' (importantMarker.tail ++ rest) =
      ⟨.important, importantMarker, rest, none⟩ := by
    show (if startsImportant (importantMarker ++ rest) then
      (⟨.important, importantMarker, rest, none⟩ : Lexeme) else _) = _
    rw [if_pos hstart]
  exact cuts_of_scan hscan

/-- A string whose closing quote is there. -/
theorem cuts_string {cs run rest : List Char} (h : splitString cs = (run, rest, true))
    (previous : Option Char) :
    Cuts previous ('"' :: cs) [⟨.string, '"' :: run⟩] ('"' :: run).getLast? rest := by
  have hcs : cs = run ++ rest := by
    have := splitString_append cs
    rw [h] at this
    exact this.symm
  subst hcs
  apply cuts_of_scan
  show scanString (run ++ rest) = _
  rw [scanString, h]
  rfl

/-! ## Comments -/

/-- Where the character `#` opens a comment. -/
def IsLineStart (previous : Option Char) : Prop :=
  previous = none ∨ previous = some '\n' ∨ previous = some ' '

theorem startsBlockComment_of_startsLineComment {previous : Option Char} {cs : List Char}
    (h : startsLineComment previous cs = true) : startsBlockComment cs = false := by
  simp only [startsLineComment, Bool.or_eq_true, Bool.and_eq_true, List.isPrefixOf_iff_prefix] at h
  rcases h with ⟨⟨rest, rfl⟩, -⟩ | ⟨⟨rest, rfl⟩, -⟩ <;> rfl

/-- The first character of a comment to the end of the line. -/
theorem startsLineComment_head {previous : Option Char} {c : Char} {cs : List Char}
    (h : startsLineComment previous (c :: cs) = true) : c = '/' ∨ c = '#' := by
  simp only [startsLineComment, List.isPrefixOf, Bool.or_eq_true, Bool.and_eq_true, beq_iff_eq] at h
  rcases h with ⟨⟨rfl, -⟩, -⟩ | ⟨⟨rfl, -⟩, -⟩
  · exact .inl rfl
  · exact .inr rfl

theorem cuts_lineComment {previous : Option Char} {cs rest : List Char}
    (h : startsLineComment previous (cs ++ rest) = true) (hn : '\n' ∉ cs) (hne : cs ≠ [])
    (hr : ∀ c, rest.head? = some c → c = '\n') :
    Cuts previous (cs ++ rest) [⟨.comment, cs⟩] cs.getLast? rest := by
  obtain ⟨c, cs, rfl⟩ := List.exists_cons_of_ne_nil hne
  apply cuts_of_scan
  have hall : ∀ x ∈ c :: cs, (x != '\n') = true := by
    intro x hx
    simp only [bne_iff_ne]
    rintro rfl
    exact hn hx
  have hsplit : splitWhile (· != '\n') (c :: cs ++ rest) = (c :: cs, rest) :=
    splitWhile_of_all hall fun x hx => by simp [hr x hx]
  rw [List.cons_append] at h hsplit
  have hc : isInlineBlank c = false ∧ c ≠ '\n' := by
    rcases startsLineComment_head h with rfl | rfl <;> decide
  unfold scan
  simp only [hc.1, hc.2, startsBlockComment_of_startsLineComment h, h, hsplit, Bool.false_eq_true,
    if_false, if_true]

theorem splitAfter?_of_closed {body rest : List Char} (h : ¬ ['*', '/'] <:+: body) :
    splitAfter? ['*', '/'] (body ++ '*' :: '/' :: rest) = some (body ++ ['*', '/'], rest) := by
  induction body with
  | nil => rfl
  | cons c body ih =>
    have hbody : ¬ ['*', '/'] <:+: body := fun hi => h (List.infix_cons hi)
    have hhead : ['*', '/'].isPrefixOf (c :: (body ++ '*' :: '/' :: rest)) = false := by
      rw [Bool.eq_false_iff, ne_eq, List.isPrefixOf_iff_prefix]
      rintro ⟨tail, htail⟩
      cases body with
      | nil => simp at htail
      | cons d body =>
        simp only [List.cons_append, List.nil_append, List.cons.injEq] at htail
        obtain ⟨rfl, rfl, -⟩ := htail
        exact h ⟨[], body, rfl⟩
    rw [List.cons_append, splitAfter?, hhead, if_neg Bool.false_ne_true, ih hbody]
    rfl

/-- A block comment ends at its first closing mark. -/
theorem cuts_blockComment {body rest : List Char} (h : ¬ ['*', '/'] <:+: body)
    (previous : Option Char) :
    Cuts previous ('/' :: ('*' :: body ++ ['*', '/']) ++ rest)
      [⟨.comment, '/' :: ('*' :: body ++ ['*', '/'])⟩] ('/' :: ('*' :: body ++ ['*', '/'])).getLast?
      rest := by
  apply cuts_of_scan
  show scanBlockComment (body ++ ['*', '/'] ++ rest) = _
  have hsplit : splitAfter? ['*', '/'] (body ++ (['*', '/'] ++ rest)) = some (body ++ ['*', '/'], rest) :=
    splitAfter?_of_closed h
  rw [scanBlockComment, scanDelimited, List.append_assoc, hsplit]
  rfl

/-! ## Runs that mean nothing to the lexer -/

/-- Characters of words and of bare values. -/
def isRunChar (c : Char) : Bool := !isMark c || c == '.'

/-- Tokens that such characters make up. -/
def isRunKind (k : TokenKind) : Bool :=
  k == .identifier || k == .includeWord || k == .number || k == .text || k == .dot

theorem isNameChar_of_isTextStop {c : Char} (h : isTextStop c = true) : isNameChar c = false := by
  cases hn : isNameChar c with
  | false => rfl
  | true =>
    have hmark := isMark_of_isTextStop h
    rw [isMark_of_isNameChar hn] at hmark
    cases hmark

theorem isDigit_of_isTextStop {c : Char} (h : isTextStop c = true) : isDigit c = false := by
  have := isNameChar_of_isTextStop h
  rw [isNameChar, Bool.or_eq_false_iff, Bool.or_eq_false_iff] at this
  exact this.1.2

theorem isTextStop_of_isRunChar {c : Char} (h : isRunChar c = true) : isTextStop c = false := by
  cases ht : isTextStop c with
  | false => rfl
  | true =>
    have hmark := isMark_of_isTextStop ht
    simp only [isRunChar, hmark, Bool.not_true, Bool.false_or, beq_iff_eq] at h
    subst h
    cases ht

theorem startsComment_of_isRunChar {c : Char} (h : isRunChar c = true) (previous : Option Char)
    (cs : List Char) : startsComment previous (c :: cs) = false := by
  have hslash : ¬ '/' = c := by rintro rfl; cases h
  have hhash : ¬ '#' = c := by rintro rfl; cases h
  simp [startsComment, startsBlockComment, startsLineComment, List.isPrefixOf, hslash, hhash]

theorem splitTextTail_of_isRunChar {cs rest : List Char} (h : ∀ c ∈ cs, isRunChar c = true)
    (hr : ∀ c, rest.head? = some c → isTextStop c = true) (previous : Char) :
    splitTextTail previous (cs ++ rest) = (cs, rest) := by
  induction cs generalizing previous with
  | nil =>
    cases rest with
    | nil => rfl
    | cons c rest => rw [List.nil_append, splitTextTail, hr c rfl, Bool.true_or, if_pos rfl]
  | cons c cs ih =>
    have hc := h c List.mem_cons_self
    rw [List.cons_append, splitTextTail, isTextStop_of_isRunChar hc, startsComment_of_isRunChar hc,
      Bool.or_false, if_neg Bool.false_ne_true, ih fun c hc => h c (List.mem_cons_of_mem _ hc)]

/-- A number is taken from the run alone: what stops the run goes on with no digit and no point. -/
theorem scanNumber_run {cs rest : List Char} (hr : ∀ c, rest.head? = some c → isTextStop c = true) :
    ∃ text more, scanNumber (cs ++ rest) = ⟨.number, text, more ++ rest, none⟩ ∧ text ++ more = cs := by
  have hdigit (x : Char) (hx : rest.head? = some x) := isDigit_of_isTextStop (hr x hx)
  have happend := splitWhile_append isDigit cs
  unfold scanNumber
  rw [splitWhile_append_of_stop cs hdigit]
  generalize (splitWhile isDigit cs).1 = whole, (splitWhile isDigit cs).2 = tail at happend ⊢
  dsimp only
  split
  · next d after heq =>
    split
    · next hd =>
      -- The point and the digit after it stand in the run, since neither stops a run.
      obtain ⟨more, rfl, rfl⟩ : ∃ more, tail = '.' :: d :: more ∧ after = more ++ rest := by
        match tail, heq with
        | [], heq => cases hr '.' (by rw [← List.nil_append rest, heq]; rfl)
        | [_], heq =>
          cases heq
          rw [hdigit d rfl] at hd
          cases hd
        | _ :: _ :: more, heq =>
          cases heq
          exact ⟨more, rfl, rfl⟩
      have hsplit := splitWhile_append_of_stop (d :: more) hdigit
      rw [List.cons_append] at hsplit
      refine ⟨_, (splitWhile isDigit (d :: more)).2, by rw [hsplit], ?_⟩
      rw [List.append_assoc, List.cons_append, splitWhile_append, happend]
    · exact ⟨whole, tail, rfl, happend⟩
  · exact ⟨whole, tail, rfl, happend⟩

/-- The lexer takes its first piece from the run alone. -/
theorem scan_run {c : Char} {cs rest : List Char} (h : ∀ x ∈ c :: cs, isRunChar x = true)
    (hr : ∀ c, rest.head? = some c → isTextStop c = true) (previous : Option Char) :
    ∃ kind text more, scan previous c (cs ++ rest) = ⟨kind, text, more ++ rest, none⟩ ∧
      text ++ more = c :: cs ∧ isRunKind kind = true ∧ (kind = .dot → c = '.') ∧
      (kind = .includeWord → (c :: cs).takeWhile isNameChar = includeName) := by
  have hc := h c List.mem_cons_self
  by_cases hdot : c = '.'
  · subst hdot
    exact ⟨.dot, ['.'], cs, rfl, rfl, rfl, fun _ => rfl, fun h => by cases h⟩
  have hmark : isMark c = false := by simpa [isRunChar, hdot] using hc
  rw [scan_of_not_mark hmark]
  have hname (x : Char) (hx : rest.head? = some x) := isNameChar_of_isTextStop (hr x hx)
  have hdigit (x : Char) (hx : rest.head? = some x) := isDigit_of_isTextStop (hr x hx)
  split
  · obtain ⟨text, more, hscan, happend⟩ := @scanNumber_run (c :: cs) rest hr
    exact ⟨.number, text, more, hscan, happend, rfl, (fun h => by cases h), fun h => by cases h⟩
  split
  · have hsplit := splitWhile_append_of_stop (c :: cs) hname
    rw [scanName, ← List.cons_append, hsplit]
    refine ⟨_, _, _, rfl, splitWhile_append _ _, ?_, ?_, ?_⟩
    · split <;> rfl
    · split <;> exact fun h => by cases h
    · split
      · next hrun => exact fun _ => hrun
      · exact fun h => by cases h
  · refine ⟨.text, c :: cs, [], ?_, List.append_nil _, rfl, (fun h => by cases h), fun h => by cases h⟩
    have htail := splitTextTail_of_isRunChar (fun x hx => h x (List.mem_cons_of_mem _ hx)) hr c
    rw [scanText, splitText, isTextStop_of_isRunChar hc, if_neg Bool.false_ne_true, htail]
    rfl

/-- A run is cut into pieces of its own, before a character that stops it. The first of them is the word
`include` only where the run begins with that word. -/
theorem exists_cuts_run {cs rest : List Char} (h : ∀ c ∈ cs, isRunChar c = true)
    (hr : ∀ c, rest.head? = some c → isTextStop c = true) (previous : Option Char) :
    ∃ ps last, Cuts previous (cs ++ rest) ps last rest ∧ spelled ps = cs ∧
      (∀ q ∈ ps, isRunKind q.kind = true ∧ (q.kind = .dot → '.' ∈ cs)) ∧
      ∀ q, ps.head? = some q → q.kind = .includeWord → cs.takeWhile isNameChar = includeName := by
  match cs with
  | [] => exact ⟨[], previous, .done _ _, rfl, by simp, by simp⟩
  | c :: cs =>
    obtain ⟨kind, text, more, hscan, happend, hkind, hdot, hinclude⟩ := scan_run h hr previous
    have hlength : more.length < (c :: cs).length := by
      have := scan_rest_length previous c (cs ++ rest)
      rw [hscan] at this
      simp only [List.length_append, List.length_cons] at this ⊢
      omega
    have hmore : ∀ x ∈ more, x ∈ c :: cs := fun x hx => happend ▸ List.mem_append_right _ hx
    obtain ⟨ps, last, hcuts, hspelled, hps, -⟩ :=
      exists_cuts_run (fun x hx => h x (hmore x hx)) hr text.getLast?
    refine ⟨⟨kind, text⟩ :: ps, last, .step hscan hcuts, ?_, ?_, ?_⟩
    · rw [spelled_cons, hspelled, happend]
    · intro q hq
      rcases List.mem_cons.1 hq with rfl | hq
      · exact ⟨hkind, fun hk => hdot hk ▸ List.mem_cons_self⟩
      · exact ⟨(hps q hq).1, fun hk => hmore _ ((hps q hq).2 hk)⟩
    · rintro q hq
      cases hq
      exact hinclude
termination_by cs.length
decreasing_by exact hlength

end SpecTree.Spec
