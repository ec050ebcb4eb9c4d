import Mathlib
import SpecTree.Proofs.Spec.Tiling

/-!
# Tokens and their neighbours

No token could have been longer (`tokens_maximal`): blanks, numbers, names and free text end only where a
character of another class follows, and free text is never taken for want of anything else.

1. `Run` tells, for each kind of token that is a run of characters, how it starts and where it ends. Every
   token that `scan` makes is such a run or of another kind (`run_scan`).
2. `Neighbours` is what this means for a token and the next one: the first token says which character comes
   next, and this character says of which kind the next token is.
-/

namespace SpecTree.Spec

open Text (splitWhile)

/-! ## Where runs end -/

theorem isTextStop_iff (c : Char) :
    isTextStop c = true ↔ c ∈ ['{', '}', ';', '=', '"', '\x60', '\n'] ∨ isInlineBlank c = true := by
  simp [isTextStop, or_assoc]

theorem splitWhile_stop {p : Char → Bool} {cs : List Char} {d : Char}
    (h : d ∈ (splitWhile p cs).2.head?) : p d = false := by
  have := List.head?_dropWhile_not p cs
  rw [show (cs.dropWhile p).head? = some d from h] at this
  simpa using this

theorem scanNumber_stop {cs : List Char} {d : Char} (h : d ∈ (scanNumber cs).rest.head?) :
    isDigit d = false := by
  unfold scanNumber at h
  dsimp only at h
  split at h
  · next e after hrest =>
    split at h
    · exact splitWhile_stop h
    · -- The point stays behind the number.
      exact splitWhile_stop h
  · exact splitWhile_stop h

/-- The tail of free text ends before a structural character or a comment. -/
theorem splitTextTail_stop {p d : Char} {cs ds : List Char} (h : (splitTextTail p cs).2 = d :: ds) :
    isTextStop d = true ∨ startsComment (p :: (splitTextTail p cs).1).getLast? (d :: ds) = true := by
  fun_induction splitTextTail p cs with
  | case1 => cases h
  | case2 p c cs hstop =>
    cases h
    exact Bool.or_eq_true_iff.1 hstop
  | case3 p c cs hstop run rest hsplit ih =>
    rw [hsplit] at ih
    rw [List.getLast?_cons_cons]
    exact ih h

/-- Where free text does not start with a structural character it has a first character, and it ends before
a structural character or a comment. -/
theorem splitText_stop {c d : Char} {cs ds : List Char} (hc : isTextStop c = false)
    (h : (splitText (c :: cs)).2 = d :: ds) :
    isTextStop d = true ∨ startsComment (splitText (c :: cs)).1.getLast? (d :: ds) = true := by
  rw [splitText, if_neg (by simp [hc])] at h ⊢
  exact splitTextTail_stop h

theorem splitText_ne_nil {c : Char} (cs : List Char) (hc : isTextStop c = false) :
    (splitText (c :: cs)).1 ≠ [] := by
  rw [splitText, if_neg (by simp [hc])]
  exact List.cons_ne_nil _ _

theorem scanText_eq {c : Char} (cs : List Char) (hc : isTextStop c = false) :
    scanText c cs = ⟨.text, (splitText (c :: cs)).1, (splitText (c :: cs)).2, none⟩ := by
  have hne := splitText_ne_nil cs hc
  unfold scanText
  split
  · next hsplit => exact absurd (congrArg Prod.fst hsplit) hne
  · next hsplit => rw [hsplit]

/-! ## Kinds of runs -/

/-- The kinds of tokens that go on as long as the characters do. -/
def longKinds : List TokenKind := [.whitespace, .number, .identifier, .includeWord, .text]

/-- How a token of one of the `longKinds` starts, at `c :: cs` behind `previous`, and where it ends. -/
inductive Run (previous : Option Char) (c : Char) (cs : List Char) (l : Lexeme) : Prop where
  | blanks (kind : l.kind = .whitespace) (first : isInlineBlank c = true)
      (stop : ∀ d ∈ l.rest.head?, isInlineBlank d = false)
  | number (kind : l.kind = .number) (first : isDigit c = true) (stop : ∀ d ∈ l.rest.head?, isDigit d = false)
  | name (kind : l.kind = .identifier ∨ l.kind = .includeWord) (first : isNameStart c = true)
      (stop : ∀ d ∈ l.rest.head?, isNameChar d = false)
  | text (scanned : l = scanText c cs) (first : isTextStop c = false)
      (noComment : startsComment previous (c :: cs) = false)
  | other (kind : l.kind ∉ longKinds)

theorem punctuation?_not_mem_longKinds {c : Char} {kind : TokenKind} (h : punctuation? c = some kind) :
    kind ∉ longKinds := by
  unfold punctuation? at h
  split at h <;> cases h <;> decide

/-- All structural characters have scanners of their own. -/
theorem not_isTextStop {c : Char} (hblank : isInlineBlank c = false) (hnewline : c ≠ '\n') (htick : c ≠ '\x60')
    (hquote : c ≠ '"') (hmark : punctuation? c = none) : isTextStop c = false := by
  rw [Bool.eq_false_iff, ne_eq, isTextStop_iff]
  rintro (hmem | hb)
  · simp only [List.mem_cons, List.not_mem_nil, or_false] at hmem
    rcases hmem with rfl | rfl | rfl | rfl | rfl | rfl | rfl
    · cases hmark
    · cases hmark
    · cases hmark
    · cases hmark
    · exact hquote rfl
    · exact htick rfl
    · exact hnewline rfl
  · rw [hblank] at hb
    cases hb

/-- **How the tokens start and where they end.** -/
theorem run_scan (previous : Option Char) (c : Char) (cs : List Char) :
    Run previous c cs (scan previous c cs) := by
  fun_cases scan previous c cs with
  | case1 h run rest hrun =>
    refine .blanks rfl h fun d hd => @splitWhile_stop isInlineBlank (c :: cs) d ?_
    rwa [hrun]
  | case2 | case4 | case9 => exact .other (by simp [longKinds])
  | case3 => exact .other (by simp [longKinds, scanBlockComment, scanDelimited_kind])
  | case5 => exact .other (by simp [longKinds, scanCodeBlock, scanDelimited_kind])
  | case6 => exact .other (by simp [longKinds, scanInlineCode_kind])
  | case7 => exact .other (by simp [longKinds, scanString])
  | case8 _ _ _ _ _ _ _ kind hk => exact .other (punctuation?_not_mem_longKinds hk)
  | case10 _ _ _ _ _ _ _ _ _ hdigit => exact .number (scanNumber_kind _) hdigit fun d hd => scanNumber_stop hd
  | case11 _ _ _ _ _ _ _ _ _ _ hname =>
    exact .name (scanName_kind (c :: cs)).symm hname fun d hd => splitWhile_stop hd
  | case12 hblank hnewline hblock hline hfence htick hquote hmark =>
    have hstop := not_isTextStop (Bool.eq_false_iff.2 hblank) hnewline htick hquote hmark
    exact .text rfl hstop (by simp [startsComment, hblock, hline])

namespace Run

variable {previous : Option Char} {c : Char} {cs : List Char} {l : Lexeme}

theorem of_whitespace (h : Run previous c cs l) (hk : l.kind = .whitespace) :
    isInlineBlank c = true ∧ ∀ d ∈ l.rest.head?, isInlineBlank d = false := by
  cases h with
  | blanks _ first stop => exact ⟨first, stop⟩
  | number kind => rw [hk] at kind; cases kind
  | name kind => rw [hk] at kind; rcases kind with kind | kind <;> cases kind
  | text scanned => rw [scanned, scanText_kind] at hk; cases hk
  | other kind => rw [hk] at kind; exact absurd (by decide) kind

theorem of_number (h : Run previous c cs l) (hk : l.kind = .number) :
    isDigit c = true ∧ ∀ d ∈ l.rest.head?, isDigit d = false := by
  cases h with
  | blanks kind => rw [hk] at kind; cases kind
  | number _ first stop => exact ⟨first, stop⟩
  | name kind => rw [hk] at kind; rcases kind with kind | kind <;> cases kind
  | text scanned => rw [scanned, scanText_kind] at hk; cases hk
  | other kind => rw [hk] at kind; exact absurd (by decide) kind

theorem of_name (h : Run previous c cs l) (hk : l.kind = .identifier ∨ l.kind = .includeWord) :
    isNameStart c = true ∧ ∀ d ∈ l.rest.head?, isNameChar d = false := by
  cases h with
  | blanks kind => rw [kind] at hk; rcases hk with hk | hk <;> cases hk
  | number kind => rw [kind] at hk; rcases hk with hk | hk <;> cases hk
  | name _ first stop => exact ⟨first, stop⟩
  | text scanned => rw [scanned, scanText_kind] at hk; rcases hk with hk | hk <;> cases hk
  | other kind => rcases hk with hk | hk <;> (rw [hk] at kind; exact absurd (by decide) kind)

theorem of_text (h : Run previous c cs l) (hk : l.kind = .text) :
    l = scanText c cs ∧ isTextStop c = false ∧ startsComment previous (c :: cs) = false := by
  cases h with
  | blanks kind => rw [hk] at kind; cases kind
  | number kind => rw [hk] at kind; cases kind
  | name kind => rw [hk] at kind; rcases kind with kind | kind <;> cases kind
  | text scanned first noComment => exact ⟨scanned, first, noComment⟩
  | other kind => rw [hk] at kind; exact absurd (by decide) kind

end Run

/-! ## What follows free text -/

theorem scan_text_head? (previous : Option Char) (c : Char) (cs : List Char) :
    (scan previous c cs).text.head? = some c := by
  have hsplit := congrArg List.head? (scan_append previous c cs)
  rwa [List.head?_append_of_ne_nil _ (scan_text_ne_nil previous c cs)] at hsplit

/-- Where free text ends, blanks, a new line, a comment or a structural character come next. -/
theorem scan_of_textEnd {previous : Option Char} {d : Char} {ds : List Char}
    (h : isTextStop d = true ∨ startsComment previous (d :: ds) = true) :
    (scan previous d ds).kind ∈ [.whitespace, .newline, .comment] ∨ d ∈ ['{', '}', ';', '=', '"', '\x60'] := by
  by_cases hblank : isInlineBlank d = true
  · left
    rw [scan, if_pos hblank]
    exact List.mem_cons_self
  by_cases hnewline : d = '\n'
  · left
    rw [scan, if_neg hblank, if_pos hnewline]
    simp
  rcases h with hstop | hcomment
  · right
    simpa [isTextStop, hblank, hnewline, or_assoc] using hstop
  · left
    rw [scan, if_neg hblank, if_neg hnewline]
    by_cases hblock : startsBlockComment (d :: ds) = true
    · rw [if_pos hblock, scanBlockComment, scanDelimited_kind]
      simp
    · have hline : startsLineComment previous (d :: ds) = true := by
        simpa [startsComment, hblock] using hcomment
      rw [if_neg hblock, if_pos hline]
      simp

/-! ## Neighbours -/

/-- What holds of a token and the one behind it. -/
structure Neighbours (t u : Token) : Prop where
  whitespace : t.kind = .whitespace → u.kind ≠ .whitespace
  number : t.kind = .number → u.kind ≠ .number
  name : t.kind = .identifier ∨ t.kind = .includeWord →
    u.kind ≠ .identifier ∧ u.kind ≠ .includeWord ∧ u.kind ≠ .number
  text : t.kind = .text → u.kind ≠ .text ∧
    (u.kind ∈ [.whitespace, .newline, .comment, .eof] ∨
      ∃ d ∈ u.text.toList.head?, d ∈ ['{', '}', ';', '=', '"', '\x60'])

theorem neighbours_eof (t : Token) (p : Position) : Neighbours t ⟨.eof, "", p⟩ where
  whitespace := fun _ => nofun
  number := fun _ => nofun
  name := fun _ => ⟨nofun, nofun, nofun⟩
  text := fun _ => ⟨nofun, .inl (by simp)⟩

/-- A token and the next one, which starts where it ends. -/
theorem neighbours_scan (previous : Option Char) {c d : Char} {cs ds : List Char} {t u : Token}
    (ht : t.kind = (scan previous c cs).kind) (hrest : (scan previous c cs).rest = d :: ds)
    (hu : u.kind = (scan (scan previous c cs).text.getLast? d ds).kind)
    (htext : u.text = String.ofList (scan (scan previous c cs).text.getLast? d ds).text) :
    Neighbours t u := by
  have first := run_scan previous c cs
  have second := run_scan (scan previous c cs).text.getLast? d ds
  have hnext : d ∈ (scan previous c cs).rest.head? := by
    rw [hrest]
    rfl
  constructor
  · intro hk hk'
    have hblank := (first.of_whitespace (ht ▸ hk)).2 d hnext
    rw [(second.of_whitespace (hu ▸ hk')).1] at hblank
    cases hblank
  · intro hk hk'
    have hdigit := (first.of_number (ht ▸ hk)).2 d hnext
    rw [(second.of_number (hu ▸ hk')).1] at hdigit
    cases hdigit
  · intro hk
    have hname := (first.of_name (ht ▸ hk)).2 d hnext
    have hnostart : isNameStart d ≠ true := fun h => by
      rw [isNameChar_of_isNameStart h] at hname
      cases hname
    refine ⟨fun hk' => hnostart (second.of_name (.inl (hu ▸ hk'))).1,
      fun hk' => hnostart (second.of_name (.inr (hu ▸ hk'))).1, fun hk' => ?_⟩
    rw [isNameChar_of_isDigit (second.of_number (hu ▸ hk')).1] at hname
    cases hname
  · intro hk
    obtain ⟨hscan, hstart, -⟩ := first.of_text (ht ▸ hk)
    rw [scanText_eq cs hstart] at hscan
    have hend : isTextStop d = true ∨ startsComment (scan previous c cs).text.getLast? (d :: ds) = true := by
      rw [hscan] at hrest ⊢
      exact splitText_stop hstart hrest
    constructor
    · intro hk'
      obtain ⟨-, hd, hcomment⟩ := second.of_text (hu ▸ hk')
      rcases hend with h | h
      · rw [hd] at h
        cases h
      · rw [hcomment] at h
        cases h
    · rcases scan_of_textEnd hend with h | h
      · have hkind : u.kind ∈ [.whitespace, .newline, .comment] ++ [.eof] := List.mem_append_left _ (hu ▸ h)
        exact .inl hkind
      · refine .inr ⟨d, ?_, h⟩
        rw [htext, String.toList_ofList, scan_text_head?]
        rfl

/-- **Any two tokens in a row are neighbours.** -/
theorem tokenizeFrom_isChain (previous : Option Char) (p : Position) (cs : List Char) :
    (tokenizeFrom previous p cs).tokens.IsChain Neighbours := by
  fun_induction tokenizeFrom previous p cs with
  | case1 => exact .singleton _
  | case2 previous p c cs lexeme stop later ih =>
    refine List.isChain_cons.2 ⟨fun u hu => ?_, ih⟩
    cases hrest : lexeme.rest with
    | nil =>
      simp only [later, hrest, tokenizeFrom] at hu
      cases hu
      exact neighbours_eof _ _
    | cons d ds =>
      simp only [later, hrest, tokenizeFrom] at hu
      cases hu
      exact neighbours_scan previous rfl hrest rfl rfl

/-- **Tokens are maximal.** For every text, no two tokens in a row are blanks, numbers or free text; no name,
`include` among them, is followed by a name or a number; behind free text come blanks, a new line, a comment,
the end of the text or a token that starts with one of the structural characters. And where `scan` takes free
text it takes a run of it, which has a character: no place is left where only a single character could be
taken. -/
theorem tokens_maximal :
    (∀ (source : String) (before after : List Token) (t u : Token),
      (tokenize source).tokens = before ++ t :: u :: after → Neighbours t u) ∧
    ∀ (previous : Option Char) (c : Char) (cs : List Char), (scan previous c cs).kind = .text →
      scan previous c cs = scanText c cs ∧ (splitText (c :: cs)).1 ≠ [] := by
  constructor
  · intro source before after t u h
    have hchain := tokenizeFrom_isChain none .origin source.toList
    rw [← tokenize, h] at hchain
    exact (List.isChain_append_cons_cons.1 hchain).2.1
  · intro previous c cs h
    obtain ⟨hscan, hstart, -⟩ := (run_scan previous c cs).of_text h
    exact ⟨hscan, splitText_ne_nil cs hstart⟩

example : (tokenize "a:///b-1.5é#2").tokens.map Token.kind =
    [.identifier, .colon, .text, .comment, .eof] := by cbv

end SpecTree.Spec
