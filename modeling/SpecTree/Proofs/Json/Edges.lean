import Mathlib.Data.List.Find
import Mathlib.Data.List.Infix
import SpecTree.Json.Reader

/-!
# Marks at the end of a text

A blank or a backtick is in no mark but strings. So the marks of a text stay the same when blanks or a fenced
block follow it, and they go on behind it unless they break off before (`marks_append`).
-/

namespace SpecTree.Json

open Text (splitWhile splitWhile_append_of_stop hexValue?)

/-! ## Characters that end a mark -/

/-- The characters that are in no mark but strings. -/
def stops : List Char := [' ', '\t', '\n', '\r', '\x60']

/-- What may follow a text without changing its marks: it begins with a stop, and it does not close a
string. -/
structure EndsMarks (behind : List Char) : Prop where
  stop : ∀ c, behind.head? = some c → c ∈ stops
  unclosed : unquote? behind = none

theorem not_digit_of_stop : ∀ c ∈ stops, isDigit c = false := by simp [stops, isDigit]

theorem not_hex_of_stop : ∀ c ∈ stops, hexValue? c = none := by simp [stops, hexValue?]

theorem not_escape_of_stop : ∀ c ∈ stops, shortEscape? c = none := by simp [stops, shortEscape?]

section

variable {behind : List Char}

theorem EndsMarks.ne_cons (h : EndsMarks behind) {c : Char} (hc : c ∉ stops) (rest : List Char) :
    behind ≠ c :: rest := by
  rintro rfl
  exact hc (h.stop c rfl)

theorem hexUnit?_of_not_hex {cs : List Char} {c : Char} (hc : hexValue? c = none) (hl : cs.length < 4)
    (rest : List Char) : hexUnit? (cs ++ c :: rest) = none := by
  match cs with
  | [] | [_] | [_, _] | [_, _, _] =>
    unfold hexUnit?
    split
    · next heq => cases heq; simp [hc]
    · rfl
  | _ :: _ :: _ :: _ :: _ => simp at hl; omega

theorem hexUnit?_append (h : EndsMarks behind) (cs : List Char) :
    hexUnit? (cs ++ behind) = (hexUnit? cs).map fun x => (x.1, x.2 ++ behind) := by
  by_cases hl : cs.length < 4
  · have hnone : hexUnit? cs = none := by
      match cs with
      | [] | [_] | [_, _] | [_, _, _] => rfl
      | _ :: _ :: _ :: _ :: _ => simp at hl; omega
    rw [hnone, Option.map_none]
    cases behind with
    | nil => rw [List.append_nil, hnone]
    | cons c rest => exact hexUnit?_of_not_hex (not_hex_of_stop c (h.stop c rfl)) hl rest
  · match cs with
    | [] | [_] | [_, _] | [_, _, _] => simp at hl
    | a :: b :: c :: d :: rest =>
      simp only [hexUnit?, List.cons_append]
      split <;> simp

/-- The second half of a pair begins with two marks that are no stops. -/
theorem lowHalf?_of_stop {c : Char} (hc : c ∈ stops) (rest : List Char) :
    lowHalf? (c :: rest) = none ∧ lowHalf? ('\\' :: c :: rest) = none := by
  have hb : c ≠ '\\' := by rintro rfl; revert hc; decide
  have hu : c ≠ 'u' := by rintro rfl; revert hc; decide
  constructor
  · unfold lowHalf?
    split
    · next heq => cases heq; exact absurd rfl hb
    · rfl
  · unfold lowHalf?
    split
    · next heq => cases heq; exact absurd rfl hu
    · rfl

theorem lowHalf?_append (h : EndsMarks behind) (cs : List Char) :
    lowHalf? (cs ++ behind) = (lowHalf? cs).map fun x => (x.1, x.2 ++ behind) := by
  cases behind with
  | nil => simp
  | cons c more =>
    have hstop := lowHalf?_of_stop (h.stop c rfl) more
    match cs with
    | [] => exact hstop.1
    | [d] =>
      by_cases hd : d = '\\'
      · subst hd
        exact hstop.2
      · unfold lowHalf?
        simp [hd]
    | d :: e :: rest =>
      unfold lowHalf?
      simp only [List.cons_append]
      split
      · next r heq =>
        cases heq
        simp only [hexUnit?_append h]
        cases hexUnit? rest with
        | none => rfl
        | some x => simp only [Option.map_some]; split <;> simp
      · next hne =>
        split
        · next heq => cases heq; exact absurd rfl (hne _)
        · rfl

theorem unescapeUnit?_append (h : EndsMarks behind) (cs : List Char) :
    unescapeUnit? (cs ++ behind) = (unescapeUnit? cs).map fun x => (x.1, x.2 ++ behind) := by
  unfold unescapeUnit?
  rw [hexUnit?_append h]
  cases hexUnit? cs with
  | none => rfl
  | some x =>
    simp only [Option.map_some]
    split
    · rw [lowHalf?_append h]
      cases lowHalf? x.2 <;> simp only [Option.map_some, Option.map_none]
    · split <;> simp only [Option.map_some]

theorem unquote?_backslash (h : EndsMarks behind) : unquote? ('\\' :: behind) = none := by
  cases behind with
  | nil =>
    rw [unquote?] <;> simp
  | cons c more =>
    have hc : c ∈ stops := h.stop c rfl
    rw [unquote?, not_escape_of_stop c hc]
    rintro rfl
    revert hc
    decide

/-- A string that is not closed in a text is not closed behind it. -/
theorem unquote?_append (h : EndsMarks behind) (cs : List Char) :
    unquote? (cs ++ behind) = (unquote? cs).map fun x => (x.1, x.2 ++ behind) := by
  fun_induction unquote? cs with
  | case1 => exact h.unclosed
  | case2 =>
    rw [List.cons_append, unquote?]
    rfl
  | case3 r c after hu ih =>
    rw [List.cons_append, List.cons_append, unquote?, unescapeUnit?_append h, hu]
    simp only [Option.map_some, ih, Option.map_map]
    rfl
  | case4 r hu =>
    rw [List.cons_append, List.cons_append, unquote?, unescapeUnit?_append h, hu]
    rfl
  | case5 e r he c hc ih =>
    rw [List.cons_append, List.cons_append, unquote?, hc, ih]
    · simp only [Option.map_map]
      rfl
    · exact he
  | case6 e r he hc =>
    rw [List.cons_append, List.cons_append, unquote?, hc]
    · rfl
    · exact he
  | case7 c r hq hu he hc =>
    by_cases hb : c = '\\'
    · subst hb
      cases r with
      | nil => exact unquote?_backslash h
      | cons e r => exact (he e r rfl rfl).elim
    · rw [List.cons_append, unquote?, if_pos hc]
      · rfl
      · exact hq
      · exact fun _ hb' _ => hb hb'
      · exact fun _ _ hb' _ => hb hb'
  | case8 c r hq hu he hc ih =>
    have hb : c ≠ '\\' := fun hb => hc (.inl hb)
    rw [List.cons_append, unquote?, if_neg hc, ih]
    · simp only [Option.map_map]
      rfl
    · exact hq
    · exact fun _ hb' _ => hb hb'
    · exact fun _ _ hb' _ => hb hb'

/-! ## Numbers and words -/

theorem splitWhile_isDigit_append (h : EndsMarks behind) (cs : List Char) :
    splitWhile isDigit (cs ++ behind) =
      ((splitWhile isDigit cs).1, (splitWhile isDigit cs).2 ++ behind) :=
  splitWhile_append_of_stop cs fun c hc => not_digit_of_stop c (h.stop c hc)

theorem readWhole_append (h : EndsMarks behind) (cs : List Char) :
    readWhole (cs ++ behind) = ((readWhole cs).1, (readWhole cs).2 ++ behind) := by
  match cs with
  | [] =>
    unfold readWhole
    split
    · next rest heq => exact absurd heq (h.ne_cons (by decide) rest)
    · exact splitWhile_isDigit_append h []
  | c :: cs =>
    unfold readWhole
    simp only [List.cons_append]
    split
    · next heq =>
      cases heq
      rfl
    · next hne =>
      split
      · next heq =>
        cases heq
        exact absurd rfl (hne _)
      · exact splitWhile_isDigit_append h (c :: cs)

theorem readFraction_append (h : EndsMarks behind) (cs : List Char) :
    readFraction (cs ++ behind) = ((readFraction cs).1, (readFraction cs).2 ++ behind) := by
  match cs with
  | [] =>
    unfold readFraction
    split
    · next rest heq => exact absurd heq (h.ne_cons (by decide) rest)
    · rfl
  | c :: cs =>
    unfold readFraction
    simp only [List.cons_append]
    split
    · next heq =>
      cases heq
      rw [splitWhile_isDigit_append h]
      simp only
      split <;> rfl
    · next hne =>
      split
      · next heq =>
        cases heq
        exact absurd rfl (hne _)
      · rfl

theorem readSign_append (h : EndsMarks behind) (cs : List Char) :
    readSign (cs ++ behind) = ((readSign cs).1, (readSign cs).2 ++ behind) := by
  match cs with
  | [] =>
    unfold readSign
    split
    · next rest heq => exact absurd heq (h.ne_cons (by decide) rest)
    · next rest heq => exact absurd heq (h.ne_cons (by decide) rest)
    · rfl
  | c :: cs =>
    unfold readSign
    simp only [List.cons_append]
    split
    · next heq => cases heq; rfl
    · next heq => cases heq; rfl
    · next hminus hplus =>
      split
      · next heq => cases heq; exact absurd rfl (hminus _)
      · next heq => cases heq; exact absurd rfl (hplus _)
      · rfl

theorem readExponent_append (h : EndsMarks behind) (cs : List Char) :
    readExponent (cs ++ behind) = ((readExponent cs).1, (readExponent cs).2 ++ behind) := by
  match cs with
  | [] =>
    unfold readExponent
    split
    · next e rest heq =>
      have he : ¬ (e = 'e' ∨ e = 'E') := by
        rintro (rfl | rfl) <;> exact absurd heq (h.ne_cons (by decide) rest)
      rw [if_neg he]
    · rfl
  | e :: rest =>
    simp only [readExponent, List.cons_append]
    split
    · rw [readSign_append h]
      dsimp only
      rw [splitWhile_isDigit_append h]
      dsimp only
      split <;> rfl
    · rfl

theorem readNumber_append (h : EndsMarks behind) (negative : Bool) (cs : List Char) :
    readNumber negative (cs ++ behind) =
      (readNumber negative cs).map fun x => (x.1, x.2 ++ behind) := by
  unfold readNumber
  rw [readWhole_append h]
  dsimp only
  rw [readFraction_append h]
  dsimp only
  rw [readExponent_append h]
  dsimp only
  split
  · rfl
  · split <;> rfl

theorem isPrefixOf_append (h : EndsMarks behind) {word : List Char} (hw : ∀ c ∈ stops, c ∉ word)
    (cs : List Char) : word.isPrefixOf (cs ++ behind) = word.isPrefixOf cs := by
  induction word generalizing cs with
  | nil => cases cs <;> cases behind <;> rfl
  | cons w word ih =>
    have hw' : ∀ c ∈ stops, c ∉ word := fun c hc hm => hw c hc (List.mem_cons_of_mem _ hm)
    cases cs with
    | nil =>
      cases behind with
      | nil => rfl
      | cons c rest =>
        have hne : (w == c) = false :=
          beq_eq_false_iff_ne.2 fun e => hw c (h.stop c rfl) (e ▸ List.mem_cons_self)
        simp [List.isPrefixOf, hne]
    | cons c cs => rw [List.cons_append, List.isPrefixOf, List.isPrefixOf, ih hw' cs]

theorem stop_not_mem_words : ∀ w ∈ words.map Prod.fst, ∀ c ∈ stops, c ∉ w := by simp [stops, words]

theorem readWord_append (h : EndsMarks behind) (cs : List Char) :
    readWord (cs ++ behind) = (readWord cs).map fun x => (x.1, x.2 ++ behind) := by
  have hfind : (words.find? fun w => w.1.isPrefixOf (cs ++ behind)) =
      words.find? fun w => w.1.isPrefixOf cs := by
    refine List.find?_congr fun w hw => ?_
    exact isPrefixOf_append h (stop_not_mem_words w.1 (List.mem_map_of_mem hw)) cs
  unfold readWord
  rw [hfind]
  cases hw : words.find? fun w => w.1.isPrefixOf cs with
  | none => rfl
  | some w =>
    have hprefix : w.1 <+: cs := List.isPrefixOf_iff_prefix.1 (by simpa using List.find?_some hw)
    simp only [Option.map_some]
    rw [List.drop_append_of_le_length hprefix.length_le]

/-- A mark does not go on with what follows a text. -/
theorem readMark_append (h : EndsMarks behind) (c : Char) (cs : List Char) :
    readMark c (cs ++ behind) = (readMark c cs).map fun x => (x.1, x.2 ++ behind) := by
  unfold readMark
  split
  · rfl
  · rfl
  · rfl
  · rfl
  · rfl
  · rfl
  · rw [unquote?_append h, Option.map_map, Option.map_map]
    rfl
  · rw [← List.cons_append, readWord_append h]
    cases readWord (c :: cs) with
    | some x => rfl
    | none =>
      simp only [Option.map_none]
      split
      · exact readNumber_append h true cs
      · exact readNumber_append h false (c :: cs)

end

/-! ## What is left of a text -/

section

variable {cs rest : List Char} {n : Nat}

theorem hexUnit?_suffix (h : hexUnit? cs = some (n, rest)) : rest <:+ cs := by
  unfold hexUnit? at h
  split at h
  · next a b c d more =>
    split at h
    · cases h
      exact ⟨[a, b, c, d], rfl⟩
    · cases h
  · cases h

theorem lowHalf?_suffix (h : lowHalf? cs = some (n, rest)) : rest <:+ cs := by
  unfold lowHalf? at h
  split at h
  · next more =>
    split at h
    · next hu =>
      split at h
      · cases h
        exact (hexUnit?_suffix hu).trans (List.suffix_append ['\\', 'u'] more)
      · cases h
    · cases h
  · cases h

theorem unescapeUnit?_suffix {c : Char} (h : unescapeUnit? cs = some (c, rest)) : rest <:+ cs := by
  unfold unescapeUnit? at h
  split at h
  · cases h
  · next n after hu =>
    have hafter := hexUnit?_suffix hu
    split at h
    · split at h
      · next hl =>
        simp only [Option.some.injEq, Prod.mk.injEq] at h
        exact h.2 ▸ (lowHalf?_suffix hl).trans hafter
      · simp only [Option.some.injEq, Prod.mk.injEq] at h
        exact h.2 ▸ hafter
    · split at h <;>
      · simp only [Option.some.injEq, Prod.mk.injEq] at h
        exact h.2 ▸ hafter

theorem unquote?_suffix {text : List Char} (h : unquote? cs = some (text, rest)) : rest <:+ cs := by
  fun_induction unquote? cs generalizing text rest with
  | case1 => cases h
  | case2 =>
    cases h
    exact List.suffix_cons _ _
  | case3 r c after hu ih =>
    obtain ⟨⟨t, q⟩, h', heq⟩ := Option.map_eq_some_iff.1 h
    cases heq
    exact ((ih h').trans (unescapeUnit?_suffix hu)).trans (List.suffix_append ['\\', 'u'] r)
  | case4 => cases h
  | case5 e r _ c _ ih =>
    obtain ⟨⟨t, q⟩, h', heq⟩ := Option.map_eq_some_iff.1 h
    cases heq
    exact (ih h').trans (List.suffix_append ['\\', e] r)
  | case6 => cases h
  | case7 => cases h
  | case8 c r _ _ _ _ ih =>
    obtain ⟨⟨t, q⟩, h', heq⟩ := Option.map_eq_some_iff.1 h
    cases heq
    exact (ih h').trans (List.suffix_cons c r)

theorem splitWhile_suffix (p : Char → Bool) (cs : List Char) : (splitWhile p cs).2 <:+ cs :=
  List.dropWhile_suffix p

theorem readWhole_suffix (cs : List Char) : (readWhole cs).2 <:+ cs := by
  unfold readWhole
  split
  · exact List.suffix_cons _ _
  · exact splitWhile_suffix isDigit cs

theorem readFraction_suffix (cs : List Char) : (readFraction cs).2 <:+ cs := by
  unfold readFraction
  split
  · next rest =>
    dsimp only
    split
    · exact List.suffix_rfl
    · exact (splitWhile_suffix isDigit rest).trans (List.suffix_cons _ _)
  · exact List.suffix_rfl

theorem readSign_suffix (cs : List Char) : (readSign cs).2 <:+ cs := by
  unfold readSign
  split
  · exact List.suffix_cons _ _
  · exact List.suffix_cons _ _
  · exact List.suffix_rfl

theorem readExponent_suffix (cs : List Char) : (readExponent cs).2 <:+ cs := by
  unfold readExponent
  split
  · next e rest =>
    split
    · dsimp only
      split
      · exact List.suffix_rfl
      · have hsign := readSign_suffix rest
        exact ((splitWhile_suffix isDigit _).trans hsign).trans (List.suffix_cons e rest)
    · exact List.suffix_rfl
  · exact List.suffix_rfl

theorem readNumber_suffix {negative : Bool} {m : Mark} (h : readNumber negative cs = some (m, rest)) :
    rest <:+ cs := by
  have hall : (readExponent (readFraction (readWhole cs).2).2).2 <:+ cs :=
    ((readExponent_suffix _).trans (readFraction_suffix _)).trans (readWhole_suffix cs)
  unfold readNumber at h
  dsimp only at h
  split at h
  · cases h
  · split at h <;>
    · cases h
      exact hall

theorem readWord_suffix {j : Json} (h : readWord cs = some (j, rest)) : rest <:+ cs := by
  obtain ⟨w, -, heq⟩ := Option.map_eq_some_iff.1 h
  cases heq
  exact List.drop_suffix _ _

theorem readMark_suffix {c : Char} {m : Mark} (h : readMark c cs = some (m, rest)) :
    rest <:+ c :: cs := by
  unfold readMark at h
  split at h
  case h_7 =>
    obtain ⟨⟨text, r⟩, hu, heq⟩ := Option.map_eq_some_iff.1 h
    cases heq
    exact (unquote?_suffix hu).trans (List.suffix_cons _ _)
  case h_8 =>
    split at h
    · next hw =>
      cases h
      exact readWord_suffix hw
    · split at h
      · exact (readNumber_suffix h).trans (List.suffix_cons _ _)
      · exact readNumber_suffix h
  all_goals
    cases h
    exact List.suffix_cons _ _

end

/-! ## Marks -/

section

variable {c : Char} {cs rest after behind : List Char} {m : Mark}

theorem marks_space (hs : isSpace c = true) (rest : List Char) : marks (c :: rest) = marks rest := by
  rw [marks, if_pos hs]

theorem marks_of_readMark (hs : ¬ isSpace c = true) (hm : readMark c rest = some (m, after)) :
    marks (c :: rest) = m :: marks after := by
  rw [marks, if_neg hs]
  split
  · next hn => cases hm.symm.trans hn
  · next hn =>
    cases hm.symm.trans hn
    rfl

theorem marks_broken (hs : ¬ isSpace c = true) (hm : readMark c rest = none) :
    marks (c :: rest) = [.broken] := by
  rw [marks, if_neg hs]
  split
  · rfl
  · next hn => cases hm.symm.trans hn

/-- **What follows a text changes none of its marks**: they go on behind it, unless they break off before. -/
theorem marks_append (h : EndsMarks behind) (cs : List Char) :
    (∃ front, marks cs = front ++ [.broken] ∧ marks (cs ++ behind) = marks cs) ∨
      marks (cs ++ behind) = marks cs ++ marks behind := by
  fun_induction marks cs with
  | case1 => exact .inr rfl
  | case2 c rest hs ih =>
    rw [List.cons_append, marks_space hs]
    exact ih
  | case3 c rest hs hm =>
    rw [List.cons_append]
    refine .inl ⟨[], rfl, marks_broken hs ?_⟩
    rw [readMark_append h, hm]
    rfl
  | case4 c rest hs m after hm ih =>
    have hmark : readMark c (rest ++ behind) = some (m, after ++ behind) := by
      rw [readMark_append h, hm]
      rfl
    rw [List.cons_append, marks_of_readMark hs hmark]
    rcases ih with ⟨front, hfront, hsame⟩ | hmore
    · exact .inl ⟨m :: front, by rw [hfront]; rfl, by rw [hsame]⟩
    · exact .inr (by rw [hmore]; rfl)

theorem endsMarks_of_spaces (h : ∀ c ∈ cs, isSpace c = true) : EndsMarks cs where
  stop c hc := by
    have hs := h c (List.mem_of_mem_head? hc)
    simp only [isSpace, Bool.or_eq_true, beq_iff_eq] at hs
    rcases hs with ((rfl | rfl) | rfl) | rfl <;> decide
  unclosed := by
    induction cs with
    | nil => rw [unquote?]
    | cons c cs ih =>
      have hs := h c List.mem_cons_self
      simp only [isSpace, Bool.or_eq_true, beq_iff_eq] at hs
      rcases hs with ((rfl | rfl) | rfl) | rfl
      · rw [unquote?, if_neg (by decide), ih fun d hd => h d (List.mem_cons_of_mem _ hd)]
        all_goals simp
      all_goals
        rw [unquote?, if_pos (by decide)]
        all_goals simp

theorem marks_spaces (h : ∀ c ∈ cs, isSpace c = true) (rest : List Char) :
    marks (cs ++ rest) = marks rest := by
  induction cs with
  | nil => rfl
  | cons c cs ih =>
    rw [List.cons_append, marks_space (h c List.mem_cons_self)]
    exact ih fun d hd => h d (List.mem_cons_of_mem _ hd)

/-- Blanks behind a text. -/
theorem marks_append_spaces (h : ∀ c ∈ behind, isSpace c = true) (cs : List Char) :
    marks (cs ++ behind) = marks cs := by
  have hnone : marks behind = [] := by simpa [marks] using marks_spaces h []
  rcases marks_append (endsMarks_of_spaces h) cs with ⟨-, -, hsame⟩ | hmore
  · exact hsame
  · rw [hmore, hnone, List.append_nil]

theorem spaces_of_marks_eq_nil (h : marks cs = []) : ∀ c ∈ cs, isSpace c = true := by
  fun_induction marks cs with
  | case1 => exact List.forall_mem_nil _
  | case2 c rest hs ih => exact List.forall_mem_cons.2 ⟨hs, ih h⟩
  | case3 => cases h
  | case4 => cases h

end

end SpecTree.Json
