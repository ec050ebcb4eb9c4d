import Mathlib
import SpecTree.Proofs.Spec.Headers

/-!
# Tokens tile the text

1. `Position.after_origin`: a place as the number of line ends before it, of the characters since the
   last of them, and of all characters before it.
2. `exists_pieces`: the tokens are the pieces of the text in their places, and an end token.
3. `tokenize_tiles`: the texts of the tokens make up the text, and each token stands where its text does.
-/

namespace SpecTree.Spec

/-! ## Places -/

/-- The characters of the last line. -/
def lastLine (cs : List Char) : List Char := cs.rtakeWhile (· != '\n')

theorem Position.after_origin (cs : List Char) :
    Position.origin.after cs = ⟨1 + cs.count '\n', 1 + (lastLine cs).length, cs.length⟩ := by
  induction cs using List.reverseRecOn with
  | nil => rfl
  | append_singleton cs c ih =>
    rw [Position.after_append, ih, Position.after_cons, Position.after_nil, Position.next]
    by_cases hc : c = '\n'
    · subst hc
      simp [lastLine, Nat.add_assoc]
    · simp [lastLine, hc, Nat.add_assoc]

/-! ## Pieces -/

theorem scanDelimited_kind (kind : TokenKind) (opening mark : List Char) (fault : Problem)
    (cs : List Char) : (scanDelimited kind opening mark fault cs).kind = kind := by
  unfold scanDelimited
  split <;> rfl

theorem scanInlineCode_kind (cs : List Char) : (scanInlineCode cs).kind = .inlineCode := by
  unfold scanInlineCode
  dsimp only
  split <;> rfl

theorem scanNumber_kind (cs : List Char) : (scanNumber cs).kind = .number := by
  unfold scanNumber
  dsimp only
  split
  · split <;> rfl
  · rfl

theorem scanText_kind (c : Char) (cs : List Char) : (scanText c cs).kind = .text := by
  unfold scanText
  split <;> rfl

theorem scanName_kind (cs : List Char) :
    (scanName cs).kind = .includeWord ∨ (scanName cs).kind = .identifier := by
  unfold scanName
  dsimp only
  split
  · exact .inl rfl
  · exact .inr rfl

/-- The kinds of the tokens that are neither marks of punctuation nor the end of the text. -/
def runKinds : List TokenKind :=
  [.whitespace, .newline, .comment, .codeBlock, .inlineCode, .string, .important, .number, .includeWord,
    .identifier, .text]

/-- A mark of punctuation is a token by itself, and no other text is a token of its kind. -/
theorem scan_kind (previous : Option Char) (c : Char) (cs : List Char) :
    (scan previous c cs).kind ∈ runKinds ∨
      ∃ kind, punctuation? c = some kind ∧ scan previous c cs = ⟨kind, [c], cs, none⟩ := by
  fun_cases scan previous c cs with
  | case1 | case2 | case4 | case9 => exact .inl (by simp [runKinds])
  | case3 => exact .inl (by simp [runKinds, scanBlockComment, scanDelimited_kind])
  | case5 => exact .inl (by simp [runKinds, scanCodeBlock, scanDelimited_kind])
  | case6 => exact .inl (by simp [runKinds, scanInlineCode_kind])
  | case7 => exact .inl (by simp [runKinds, scanString])
  | case8 _ _ _ _ _ _ _ kind hk => exact .inr ⟨kind, hk, rfl⟩
  | case10 => exact .inl (by simp [runKinds, scanNumber_kind])
  | case11 => rcases scanName_kind (c :: cs) with hk | hk <;> exact .inl (by simp [runKinds, hk])
  | case12 => exact .inl (by simp [runKinds, scanText_kind])

theorem punctuation?_ne_eof (c : Char) : punctuation? c ≠ some .eof := by
  unfold punctuation?
  split <;> simp

/-- The lexer makes no end token of characters. -/
theorem scan_kind_ne_eof (previous : Option Char) (c : Char) (cs : List Char) :
    (scan previous c cs).kind ≠ .eof := by
  intro he
  rcases scan_kind previous c cs with hrun | ⟨kind, hk, hscan⟩
  · exact absurd (he ▸ hrun) (by decide)
  · rw [hscan] at he
    exact punctuation?_ne_eof c (hk.trans (congrArg some he))

/-- **The tokens are pieces of the text**, none of which is empty, and an end token. -/
theorem exists_pieces (previous : Option Char) (p : Position) (cs : List Char) :
    ∃ ps : List Piece, (tokenizeFrom previous p cs).tokens = placed p (ps ++ [⟨.eof, []⟩]) ∧
      spelled ps = cs ∧ ∀ q ∈ ps, q.kind ≠ .eof ∧ q.text ≠ [] := by
  fun_induction tokenizeFrom previous p cs with
  | case1 previous p => exact ⟨[], rfl, rfl, nofun⟩
  | case2 previous p c cs lexeme stop later ih =>
    obtain ⟨ps, htokens, hspelled, hpieces⟩ := ih
    refine ⟨⟨lexeme.kind, lexeme.text⟩ :: ps, ?_, ?_, List.forall_mem_cons.2 ⟨?_, hpieces⟩⟩
    · exact congrArg _ htokens
    · rw [spelled_cons, hspelled]
      exact scan_append previous c cs
    · exact ⟨scan_kind_ne_eof previous c cs, scan_text_ne_nil previous c cs⟩

/-! ## Tokens -/

/-- The characters of tokens in a row. -/
def charsOf (ts : List Token) : List Char := ts.flatMap (·.text.toList)

@[simp] theorem charsOf_cons (t : Token) (ts : List Token) :
    charsOf (t :: ts) = t.text.toList ++ charsOf ts := rfl

theorem charsOf_append (ts us : List Token) : charsOf (ts ++ us) = charsOf ts ++ charsOf us :=
  List.flatMap_append

theorem charsOf_placed (p : Position) (ps : List Piece) : charsOf (placed p ps) = spelled ps := by
  induction ps generalizing p with
  | nil => rfl
  | cons q ps ih =>
    rw [placed_cons, charsOf_cons, ih, spelled_cons, String.toList_ofList]

theorem length_charsOf (ts : List Token) : (charsOf ts).length = (ts.map (·.text.length)).sum := by
  simp [charsOf, List.length_flatMap, String.length_toList]

/-- A token starts where the texts before it end. -/
theorem start_of_placed {p : Position} {ps : List Piece} {before after : List Token} {t : Token}
    (h : placed p ps = before ++ t :: after) : t.start = p.after (charsOf before) := by
  induction before generalizing p ps with
  | nil =>
    cases ps with
    | nil => cases h
    | cons q ps => exact (List.cons.inj h).1 ▸ rfl
  | cons b before ih =>
    cases ps with
    | nil => cases h
    | cons q ps =>
      obtain ⟨hb, hrest⟩ := List.cons.inj h
      rw [ih hrest, ← hb, charsOf_cons, Position.after_append, String.toList_ofList]

/-- **Tokens tile the text.** The last token is the end token, and no other token is one or is empty; in
a row their texts are the text. A token starts at the offset that the texts before it have together; its
line is told by the line ends before this offset, and its column by the characters since the last of
them. -/
theorem tokenize_tiles (source : String) :
    (∃ body last, (tokenize source).tokens = body ++ [last] ∧ last.kind = .eof ∧ last.text = "" ∧
      ∀ t ∈ body, t.kind ≠ .eof ∧ t.text ≠ "") ∧
    joinTexts (tokenize source).tokens = source ∧
    ∀ before t after, (tokenize source).tokens = before ++ t :: after →
      t.start.offset = (before.map (·.text.length)).sum ∧
        t.start.line = 1 + (source.toList.take t.start.offset).count '\n' ∧
        t.start.column = 1 + (lastLine (source.toList.take t.start.offset)).length := by
  obtain ⟨ps, htokens, hspelled, hpieces⟩ := exists_pieces none .origin source.toList
  -- The end token is a piece like the others, so that a place is reckoned once for all tokens.
  have hwhole : spelled (ps ++ [⟨.eof, []⟩]) = source.toList := by
    rw [spelled_append, hspelled]
    exact List.append_nil _
  refine ⟨⟨placed .origin ps, ⟨.eof, "", Position.origin.after (spelled ps)⟩, ?_, rfl, rfl,
    fun t ht => ?_⟩, ?_, fun before t after hsplit => ?_⟩
  · rw [tokenize, htokens, placed_append]
    rfl
  · obtain ⟨q, hq, hk, htext⟩ := exists_piece ht
    obtain ⟨hkind, hne⟩ := hpieces q hq
    exact ⟨hk ▸ hkind, fun h => hne (String.ofList_eq_empty_iff.1 (htext.symm.trans h))⟩
  · rw [tokenize, htokens, joinTexts_placed, hwhole, String.ofList_toList]
  · have hstart := start_of_placed (htokens.symm.trans hsplit)
    rw [Position.after_origin] at hstart
    have hpassed : source.toList.take t.start.offset = charsOf before := by
      rw [← hwhole, ← charsOf_placed .origin, ← htokens, ← tokenize, hsplit, charsOf_append, hstart]
      exact List.take_left
    rw [hpassed, hstart]
    exact ⟨length_charsOf before, rfl, rfl⟩

example : (tokenize "a\n\"b\n\"c").tokens.map Token.start =
    [⟨1, 1, 0⟩, ⟨1, 2, 1⟩, ⟨2, 1, 2⟩, ⟨3, 2, 6⟩, ⟨3, 3, 7⟩] := by cbv

end SpecTree.Spec
