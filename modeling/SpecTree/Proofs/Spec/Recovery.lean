import SpecTree.Proofs.Spec.Headers

/-!
# Statements recovered from their text

For each kind of statement: the pieces that its canonical text is cut into, and what the reader takes from
these pieces whatever follows them.
-/

namespace SpecTree.Spec

open Text (splitWhile splitWhile_of_all strip_between)

variable {file : String}

/-! ## Look-ahead -/

/-- What follows a word begins no module with it. -/
structure IsQuiet (ts : List Token) : Prop where
  dot : nextKind ts ≠ .dot
  colon : nextKind ts ≠ .colon
  brace : nextKind (skipInsignificant ts) ≠ .braceOpen

/-- A word begins no module where no suffix and no brace follows. -/
theorem header?_word {t : Token} {ts : List Token} (hk : combinator? t.kind = none) (h : IsQuiet ts) :
    header? (t :: ts) = none := by
  cases hm : header? (t :: ts) with
  | none => rfl
  | some found =>
    obtain ⟨header, body⟩ := found
    obtain ⟨name, rest, after, brace, hs, -, hr, hb, hbk, -⟩ := header?_eq_some_iff.1 hm
    rw [show nextKind (t :: ts) = t.kind from rfl, hk] at hs
    cases hs
    rw [readSuffixes_none ⟨h.dot, h.colon⟩] at hr
    simp only [Option.some.injEq, Prod.mk.injEq] at hr
    obtain ⟨-, -, rfl⟩ := hr
    exact absurd (by rw [hb]; exact hbk) h.brace

/-! ## One statement -/

/-- Tokens that a statement may begin with. -/
def beginsStatement (k : TokenKind) : Bool :=
  k != .whitespace && k != .newline && k != .eof && k != .braceOpen && k != .braceClose

theorem skipLines_cons {t : Token} (h : beginsStatement t.kind = true) (ts : List Token) :
    skipLines (t :: ts) = t :: ts := by
  simp only [beginsStatement, Bool.and_eq_true, bne_iff_ne] at h
  simp [skipLines, skipKinds, h]

/-- A statement that is read, and those after it. -/
theorem Reads.first {nested : Bool} {t : Token} {ts more after : List Token} {one : Statement}
    {later : List Statement} (hk : beginsStatement t.kind = true) (hm : header? (t :: ts) = none)
    (hr : readStatement file (t :: ts) = ⟨some one, more, []⟩)
    (there : Reads file nested more later after []) :
    Reads file nested (t :: ts) (one :: later) after [] := by
  have hends : t.kind ≠ .eof ∧ t.kind ≠ .braceClose ∧ t.kind ≠ .braceOpen := by
    simp only [beginsStatement, Bool.and_eq_true, bne_iff_ne] at hk
    exact ⟨hk.1.1.2, hk.2, hk.1.2⟩
  exact .statement (skipLines_cons hk ts) hm hends hr there

theorem header?_comment (text : String) (p : Position) (ts : List Token) :
    header? (⟨.comment, text, p⟩ :: ts) = none := by
  cases hs : header? (⟨.comment, text, p⟩ :: ts) with
  | none => rfl
  | some found =>
    have := @header?_kind (⟨.comment, text, p⟩ :: ts) (by simp [hs])
    simp [nextKind, combinator?] at this

/-! ## Parameters -/

theorem header?_param (name equals : String) (p₁ p₂ : Position) (ts : List Token) :
    header? (⟨.identifier, name, p₁⟩ :: ⟨.equals, equals, p₂⟩ :: ts) = none :=
  header?_word rfl ⟨nofun, nofun, nofun⟩

theorem readStatement_param (name equals : String) (p₁ p₂ : Position) (ts : List Token) :
    readStatement file (⟨.identifier, name, p₁⟩ :: ⟨.equals, equals, p₂⟩ :: ts) =
      readParam file (⟨.identifier, name, p₁⟩ :: ⟨.equals, equals, p₂⟩ :: ts) := rfl

theorem readParam_quoted (file name quoted equals semicolon : String) (p₁ p₂ p₃ p₄ : Position)
    (ts : List Token) :
    ∃ span, readParam file (⟨.identifier, name, p₁⟩ :: ⟨.equals, equals, p₂⟩ :: ⟨.string, quoted, p₃⟩ ::
      ⟨.semicolon, semicolon, p₄⟩ :: ts) = ⟨some (.param name (unquote quoted) span), ts, []⟩ :=
  ⟨_, rfl⟩

/-- A bare value goes as far as the statement does. -/
theorem readParam_bare (file name equals : String) (p₁ p₂ : Position) {run ts : List Token}
    (hne : run ≠ []) (hk : ∀ t ∈ run, isRunKind t.kind = true)
    (hends : endsStatement (nextKind ts) = true)
    (hv : (Text.strip (joinTexts run)).isEmpty = false) :
    ∃ span, readParam file (⟨.identifier, name, p₁⟩ :: ⟨.equals, equals, p₂⟩ :: (run ++ ts)) =
      ⟨some (.param name (Text.strip (joinTexts run)) span), skipSemicolon ts, []⟩ := by
  obtain ⟨t, run, rfl⟩ := List.exists_cons_of_ne_nil hne
  have hrun : ∀ k, isRunKind k = true →
      k ≠ .whitespace ∧ k ≠ .string ∧ endsStatement k = false ∧ k ≠ .comment := by
    intro k
    cases k <;> decide
  have ht := hrun _ (hk t List.mem_cons_self)
  have hstart : skipBlanks (t :: run ++ ts) = t :: run ++ ts := by
    simp [skipBlanks, skipKinds, ht.1]
  have hquoted : quotedValue? (t :: run ++ ts) = none := by
    rw [List.cons_append, quotedValue?]
    exact if_neg fun h => ht.2.1 h.1
  have hsplit : splitWhile (fun t => !(endsStatement t.kind || t.kind == .comment))
      (t :: run ++ ts) = (t :: run, ts) := by
    refine splitWhile_of_all (fun x hx => ?_) fun x hx => ?_
    · simp [hrun _ (hk x hx)]
    · cases ts with
      | nil => cases hx
      | cons y ts =>
        cases hx
        rw [nextKind] at hends
        simp [hends]
  have hequals : skipBlanks (⟨.equals, equals, p₂⟩ :: (t :: run ++ ts)) =
      ⟨.equals, equals, p₂⟩ :: (t :: run ++ ts) := rfl
  refine ⟨spanBetween file (⟨.identifier, name, p₁⟩ :: ⟨.equals, equals, p₂⟩ :: (t :: run ++ ts))
    (skipSemicolon ts), ?_⟩
  rw [readParam]
  simp only [List.tail_cons, hequals, hstart, hquoted, hsplit, hv, Bool.false_eq_true, if_false]
  rfl

/-! ## Free text -/

/-- Tokens that stand between two words, or are part of one. -/
def isPhraseKind (k : TokenKind) : Bool :=
  k == .identifier || k == .includeWord || k == .number || k == .text || k == .whitespace

theorem nextKind_skipKinds_placed {skipped : TokenKind → Bool} {k : TokenKind} {ps : List Piece}
    {ts : List Token} (h : ∀ q ∈ ps, q.kind ≠ k) (ht : nextKind (skipKinds skipped ts) ≠ k)
    (p : Position) : nextKind (skipKinds skipped (placed p ps ++ ts)) ≠ k := by
  induction ps generalizing p with
  | nil => exact ht
  | cons q ps ih =>
    have hrest := ih (fun x hx => h x (List.mem_cons_of_mem _ hx)) (p.after q.text)
    rw [placed_cons, List.cons_append, skipKinds, List.dropWhile_cons]
    split
    · exact hrest
    · exact h q List.mem_cons_self

theorem IsQuiet.placed {ps : List Piece} {ts : List Token}
    (hk : ∀ q ∈ ps, isPhraseKind q.kind = true) (h : IsQuiet ts) (p : Position) :
    IsQuiet (Spec.placed p ps ++ ts) := by
  have hkinds : ∀ q ∈ ps, q.kind ≠ .dot ∧ q.kind ≠ .colon ∧ q.kind ≠ .braceOpen := by
    have hall : ∀ k, isPhraseKind k = true → k ≠ .dot ∧ k ≠ .colon ∧ k ≠ .braceOpen := by
      intro k
      cases k <;> decide
    exact fun q hq => hall _ (hk q hq)
  refine ⟨?_, ?_, nextKind_skipKinds_placed (fun q hq => (hkinds q hq).2.2) h.brace p⟩
  · cases ps with
    | nil => exact h.dot
    | cons q ps => exact (hkinds q List.mem_cons_self).1
  · cases ps with
    | nil => exact h.colon
    | cons q ps => exact (hkinds q List.mem_cons_self).2.1

/-- In the middle of a line only a module ends free text. -/
theorem interruptsProse_word {t : Token} {ts : List Token} (hk : isPhraseKind t.kind = true)
    (h : IsQuiet ts) : interruptsProse false (t :: ts) = false := by
  have hcomb : combinator? t.kind = none := by
    revert hk
    cases t.kind <;> decide
  simp [interruptsProse, header?_word hcomb h]

/-- The pieces of a text as the parts of a run, the last one first. -/
def parts (ps : List Piece) : List String := (ps.map fun q => String.ofList q.text).reverse

theorem toList_join_parts (ps : List Piece) : (String.join (parts ps).reverse).toList = spelled ps := by
  rw [parts, List.reverse_reverse, String.toList_join, List.flatMap_map]
  simp [spelled]

/-- Free text takes the pieces of a phrase. -/
theorem readRun_placed {ps : List Piece} {ts : List Token}
    (hk : ∀ q ∈ ps, isPhraseKind q.kind = true) (h : IsQuiet ts) (p : Position) (texts : List String)
    (important : Bool) :
    readRun texts important false (placed p ps ++ ts) =
      readRun (parts ps ++ texts) important false ts := by
  induction ps generalizing p texts with
  | nil => rfl
  | cons q ps ih =>
    have hq := hk q List.mem_cons_self
    have hrest : ∀ q ∈ ps, isPhraseKind q.kind = true := fun x hx => hk x (List.mem_cons_of_mem _ hx)
    have hkind : ∀ k, isPhraseKind k = true →
        endsProse k = false ∧ k ≠ .semicolon ∧ k ≠ .important ∧ (k == .newline) = false := by
      intro k
      cases k <;> decide
    obtain ⟨hends, hsemicolon, himportant, hnewline⟩ := hkind _ hq
    have hinterrupts := interruptsProse_word (t := ⟨q.kind, String.ofList q.text, p⟩) hq
      (h.placed hrest (p.after q.text))
    rw [placed_cons, List.cons_append, readRun]
    dsimp only
    rw [hends, hinterrupts, if_neg hsemicolon, if_neg himportant, hnewline]
    simp [ih hrest, parts]

/-! ### Words in a row -/

theorem IsWord.isRunChar {w : List Char} (h : IsWord w) :
    ∀ c ∈ w, isRunChar c = true ∧ c ≠ '.' ∧ isMark c = false ∧ Text.isBlank c = false := by
  intro c hc
  have hword := h.2 c hc
  simp only [isWordChar, Bool.and_eq_true, Bool.not_eq_true'] at hword
  refine ⟨by simp [Spec.isRunChar, hword.1], ?_, hword⟩
  rintro rfl
  cases hword.1

theorem exists_cuts_word {w rest : List Char} (h : IsWord w)
    (hr : ∀ c, rest.head? = some c → isTextStop c = true) (previous : Option Char) :
    ∃ q ps last, Cuts previous (w ++ rest) (q :: ps) last rest ∧ spelled (q :: ps) = w ∧
      (∀ x ∈ q :: ps, isPhraseKind x.kind = true) ∧ q.kind ≠ .whitespace ∧
      (q.kind = .includeWord → w.takeWhile isNameChar = includeName) := by
  obtain ⟨ps, last, hcuts, hspelled, hkinds, hinclude⟩ :=
    exists_cuts_run (fun c hc => (h.isRunChar c hc).1) hr previous
  have hphrase : ∀ k, isRunKind k = true → k ≠ .dot → isPhraseKind k = true ∧ k ≠ .whitespace := by
    intro k
    cases k <;> decide
  have hps : ∀ x ∈ ps, isPhraseKind x.kind = true ∧ x.kind ≠ .whitespace := fun x hx =>
    hphrase _ (hkinds x hx).1 fun hd => (h.isRunChar _ ((hkinds x hx).2 hd)).2.1 rfl
  cases ps with
  | nil => exact absurd hspelled.symm h.1
  | cons q ps =>
    exact ⟨q, ps, last, hcuts, hspelled, fun x hx => (hps x hx).1, (hps q List.mem_cons_self).2,
      hinclude q rfl⟩

theorem exists_cuts_phrase {first rest : List Char} {words : List (List Char)}
    (h : ∀ w ∈ first :: words, IsWord w) (hr : ∀ c, rest.head? = some c → isTextStop c = true)
    (previous : Option Char) :
    ∃ q ps last, Cuts previous (Text.joinPieces ' ' (first :: words) ++ rest) (q :: ps) last rest ∧
      spelled (q :: ps) = Text.joinPieces ' ' (first :: words) ∧
      (∀ x ∈ q :: ps, isPhraseKind x.kind = true) ∧ q.kind ≠ .whitespace ∧
      (q.kind = .includeWord → first.takeWhile isNameChar = includeName) := by
  induction words generalizing first previous with
  | nil => exact exists_cuts_word (h first List.mem_cons_self) hr previous
  | cons w words ih =>
    have hw := h w (by simp)
    have hlater : ∀ c, (Text.joinPieces ' ' (w :: words) ++ rest).head? = some c →
        isInlineBlank c = false := by
      obtain ⟨c, cs, rfl⟩ := List.exists_cons_of_ne_nil hw.1
      have hc := isInlineBlank_of_not_mark (hw.isRunChar c List.mem_cons_self).2.2.1
      have hhead : (Text.joinPieces ' ' ((c :: cs) :: words) ++ rest).head? = some c := by
        cases words <;> rfl
      rw [hhead]
      rintro _ ⟨⟩
      exact hc
    have hstop : ∀ c, (' ' :: (Text.joinPieces ' ' (w :: words) ++ rest)).head? = some c →
        isTextStop c = true := by
      rintro _ ⟨⟩
      rfl
    obtain ⟨q, ps, middle, hcuts, hspelled, hkinds, hq⟩ :=
      exists_cuts_word (h first List.mem_cons_self) hstop previous
    obtain ⟨q', ps', last, hcuts', hspelled', hkinds', -⟩ :=
      ih (fun x hx => h x (List.mem_cons_of_mem _ hx)) (some ' ')
    have hblank := cuts_blanks (n := 0) hlater middle
    refine ⟨q, ps ++ ⟨.whitespace, [' ']⟩ :: q' :: ps', last, ?_, ?_, ?_, hq⟩
    · have := hcuts.trans (hblank.trans hcuts')
      simpa [Text.joinPieces] using this
    · rw [← List.cons_append, spelled_append, hspelled, spelled_cons, hspelled']
      rfl
    · intro x hx
      rw [← List.cons_append, List.mem_append] at hx
      rcases hx with hx | hx
      · exact hkinds x hx
      rcases List.mem_cons.1 hx with rfl | hx
      · rfl
      · exact hkinds' x hx

/-! ### From the first word to the end -/

/-- What the reader knows where a line starts with a phrase: neither a module nor a statement of another
kind begins. -/
theorem readStatement_phrase (file : String) {q : Piece} {ps : List Piece} {ts : List Token}
    (hk : ∀ x ∈ q :: ps, isPhraseKind x.kind = true) (hq : q.kind ≠ .includeWord) (h : IsQuiet ts)
    (hequals : nextKind (skipBlanks ts) ≠ .equals) (p : Position) :
    header? (placed p (q :: ps) ++ ts) = none ∧
      readStatement file (placed p (q :: ps) ++ ts) = readProse file (placed p (q :: ps) ++ ts) := by
  have hps : ∀ x ∈ ps, isPhraseKind x.kind = true := fun x hx => hk x (List.mem_cons_of_mem _ hx)
  have hkind : ∀ k, isPhraseKind k = true → combinator? k = none ∧ k ≠ .comment ∧ k ≠ .equals := by
    intro k
    cases k <;> decide
  have hqk := hkind _ (hk q List.mem_cons_self)
  have hparam : startsParam (placed p (q :: ps) ++ ts) = false := by
    have := nextKind_skipKinds_placed (fun x hx => (hkind _ (hps x hx)).2.2) hequals (p.after q.text)
    rw [startsParam, Bool.and_eq_false_iff]
    exact .inr (by simpa [skipBlanks] using this)
  refine ⟨header?_word hqk.1 (h.placed hps _), ?_⟩
  rw [placed_cons, List.cons_append] at hparam ⊢
  rw [readStatement, if_neg hqk.2.1, if_neg fun hi => hq hi.1, hparam, if_neg Bool.false_ne_true]

theorem readRun_phrase {q : Piece} {ps : List Piece} {ts : List Token}
    (hk : ∀ x ∈ q :: ps, isPhraseKind x.kind = true) (hq : q.kind ≠ .whitespace) (h : IsQuiet ts)
    (p : Position) :
    readRun [] false true (placed p (q :: ps) ++ ts) = readRun (parts (q :: ps)) false false ts := by
  have hps : ∀ x ∈ ps, isPhraseKind x.kind = true := fun x hx => hk x (List.mem_cons_of_mem _ hx)
  have hkind : ∀ k, isPhraseKind k = true → k ≠ .whitespace → endsProse k = false ∧ k ≠ .semicolon ∧
      k ≠ .important ∧ (k == .newline || (true && k == .whitespace)) = false := by
    intro k
    cases k <;> decide
  obtain ⟨hends, hsemicolon, himportant, hline⟩ := hkind _ (hk q List.mem_cons_self) hq
  rw [placed_cons, List.cons_append, readRun]
  dsimp only
  rw [hends, List.isEmpty_nil, Bool.not_true, Bool.false_and, Bool.false_or, if_neg Bool.false_ne_true,
    if_neg hsemicolon, if_neg himportant, hline, readRun_placed hps h]
  congr 1
  simp [parts]

/-- A marker at the end of a phrase, with the blank before it. -/
def marker (important : Bool) : List Piece :=
  if important then [⟨.whitespace, [' ']⟩, ⟨.important, importantMarker⟩] else []

theorem readRun_marker (important : Bool) (texts : List String) (ts : List Token) (p : Position) :
    readRun texts false false (placed p (marker important) ++ ts) =
      readRun texts important false ts := by
  cases important with
  | false => rfl
  | true =>
    have hquiet : IsQuiet (placed (p.next ' ') [⟨.important, importantMarker⟩] ++ ts) :=
      ⟨nofun, nofun, nofun⟩
    have hkinds : ∀ q ∈ [(⟨.whitespace, [' ']⟩ : Piece)], isPhraseKind q.kind = true := by
      simp
      rfl
    have hblank := readRun_placed hkinds hquiet p texts false
    rw [show placed p (marker true) ++ ts = placed p [⟨.whitespace, [' ']⟩] ++
      (placed (p.next ' ') [⟨.important, importantMarker⟩] ++ ts) from rfl, hblank, placed_cons,
      List.cons_append, readRun]
    -- The marker takes with it the blank that stands before it.
    have hdrop : dropBlankPart (parts [⟨.whitespace, [' ']⟩] ++ texts) = texts := by
      rw [parts, List.map_singleton, List.reverse_singleton, List.singleton_append, dropBlankPart,
        if_pos (by decide)]
    simp [endsProse, interruptsProse, nextKind, hdrop]

/-- How a run of free text ends: at a semicolon, or before the statement on the next line. -/
theorem readProse_of_run (file : String) {q : Piece} {ps : List Piece} {ts rest : List Token}
    {important terminated : Bool} {back : List String}
    (hk : ∀ x ∈ q :: ps, isPhraseKind x.kind = true) (hq : q.kind ≠ .whitespace) (h : IsQuiet ts)
    (hrun : readRun (parts (q :: ps)) false false ts =
      ⟨back ++ parts (q :: ps), important, terminated, rest⟩)
    (hback : ∀ c ∈ (String.join back.reverse).toList, Text.isBlank c = true)
    (hne : spelled (q :: ps) ≠ [])
    (hhead : ∀ c ∈ (spelled (q :: ps)).head?, Text.isBlank c = false)
    (hlast : ∀ c ∈ (spelled (q :: ps)).getLast?, Text.isBlank c = false) (p : Position) :
    ∃ span, readProse file (placed p (q :: ps) ++ ts) =
      ⟨some (if terminated then .constraint (String.ofList (spelled (q :: ps))) important span
        else .prose (String.ofList (spelled (q :: ps))) important span), rest, []⟩ := by
  have htext : Text.strip (String.join (back ++ parts (q :: ps)).reverse) =
      String.ofList (spelled (q :: ps)) := by
    rw [← strip_between (List.forall_mem_nil _) hback hne hhead hlast]
    congr 1
    rw [← String.toList_inj, List.reverse_append, String.toList_ofList, List.nil_append,
      ← toList_join_parts]
    simp [String.toList_join]
  have hnotEmpty : (String.ofList (spelled (q :: ps))).isEmpty = false := by
    simpa using hne
  refine ⟨spanBetween file (placed p (q :: ps) ++ ts) rest, ?_⟩
  rw [readProse, readRun_phrase hk hq h, hrun]
  dsimp only
  rw [htext, hnotEmpty, if_neg Bool.false_ne_true]
  cases terminated <;> rfl

end SpecTree.Spec
