import SpecTree.Proofs.Spec.Stretches
import SpecTree.Proofs.Spec.Tiling

/-!
# Ranges nest like the tree

1. `offsetOf`: where the tokens that remain begin in the text. The range of what tokens make up goes from
   the offset of the first one to that of those that remain (`span_offsets`).
2. `Row.within`, `Row.pairwise`: statements in a row keep within their tokens, one behind another.
3. `ranges_nest` puts this together for all nodes of a document.
-/

namespace SpecTree.Spec

variable {file source : String} {problems : List Diagnostic}

/-! ## The offsets of tokens -/

/-- The tokens of a text are those of its characters and an end token. -/
theorem exists_body (source : String) :
    ∃ body last, (tokenize source).tokens = body ++ [last] ∧ last.kind = .eof ∧ last.text = "" ∧
      charsOf body = source.toList ∧ ∀ t ∈ body, t.kind ≠ .eof ∧ t.text ≠ "" := by
  obtain ⟨ps, htokens, hspelled, hpieces⟩ := exists_pieces none .origin source.toList
  refine ⟨placed .origin ps, ⟨.eof, "", Position.origin.after (spelled ps)⟩, ?_, rfl, rfl, ?_,
    fun t ht => ?_⟩
  · rw [tokenize, htokens, placed_append]
    rfl
  · rw [charsOf_placed, hspelled]
  · obtain ⟨q, hq, hk, htext⟩ := exists_piece ht
    obtain ⟨hkind, hne⟩ := hpieces q hq
    exact ⟨hk ▸ hkind, fun h => hne (String.ofList_eq_empty_iff.1 (htext.symm.trans h))⟩

@[simp] theorem charsOf_nil : charsOf [] = [] := rfl

theorem charsOf_tokenize (source : String) : charsOf (tokenize source).tokens = source.toList := by
  obtain ⟨body, last, htokens, -, hlast, hbody, -⟩ := exists_body source
  simp [htokens, charsOf_append, hbody, hlast]

theorem toList_text_ne_nil {t : Token} (ht : t ∈ (tokenize source).tokens) (hk : t.kind ≠ .eof) :
    t.text.toList ≠ [] := by
  obtain ⟨body, last, htokens, hlast, -, -, hbody⟩ := exists_body source
  rw [htokens, List.mem_append, List.mem_singleton] at ht
  rcases ht with ht | rfl
  · exact fun h => (hbody t ht).2 (String.toList_eq_nil_iff.1 h)
  · exact absurd hlast hk

theorem start_offset {before after : List Token} {t : Token}
    (h : (tokenize source).tokens = before ++ t :: after) : t.start.offset = (charsOf before).length := by
  obtain ⟨ps, htokens, -⟩ := exists_pieces none .origin source.toList
  rw [start_of_placed (htokens.symm.trans h), Position.after_origin]

/-- How many characters of the text stand before the tokens that remain. -/
def offsetOf (source : String) (ts : List Token) : Nat := source.length - (charsOf ts).length

theorem offsetOf_eq {before ts : List Token} (h : (tokenize source).tokens = before ++ ts) :
    offsetOf source ts = (charsOf before).length := by
  have hlength := congrArg List.length (charsOf_tokenize source)
  rw [h, charsOf_append, List.length_append, String.length_toList] at hlength
  rw [offsetOf, ← hlength, Nat.add_sub_cancel]

theorem StopsBy.offsetOf_le {ts rest : List Token} (h : StopsBy ts rest) :
    offsetOf source ts ≤ offsetOf source rest := by
  obtain ⟨taken, rfl, -⟩ := stopsBy_iff.1 h
  rw [offsetOf, offsetOf, charsOf_append, List.length_append]
  omega

/-- **Tokens in a row span the text that they are made of.** -/
theorem span_offsets {before taken rest : List Token} (file : String)
    (h : (tokenize source).tokens = before ++ (taken ++ rest)) (hne : taken ≠ []) :
    (spanBetween file (taken ++ rest) rest).start.offset = (charsOf before).length ∧
      (spanBetween file (taken ++ rest) rest).stop.offset = (charsOf (before ++ taken)).length := by
  have hused : (taken ++ rest).take ((taken ++ rest).length - rest.length) = taken := by
    rw [List.length_append, Nat.add_sub_cancel, List.take_left]
  constructor
  · obtain ⟨first, more, rfl⟩ := List.exists_cons_of_ne_nil hne
    rw [spanBetween, hused]
    exact start_offset (by simpa using h)
  · obtain ⟨more, last, rfl⟩ := List.eq_nil_or_concat' taken |>.resolve_left hne
    have hsplit : (tokenize source).tokens = (before ++ more) ++ last :: rest := by simpa using h
    rw [spanBetween, hused]
    simp [Token.stop, Position.along, start_offset hsplit, charsOf_append, String.length_toList,
      Nat.add_assoc]

theorem Makes.offsets {ts rest : List Token} {s : Statement}
    (hts : StopsBy (tokenize source).tokens ts) (h : Makes file problems ts s rest) :
    s.span.start.offset = offsetOf source ts ∧ s.span.stop.offset = offsetOf source rest ∧
      offsetOf source ts < offsetOf source rest := by
  obtain ⟨before, htokens, -⟩ := stopsBy_iff.1 hts
  obtain ⟨taken, rfl, hinner⟩ := stopsBy_iff.1 h.stopsBy
  have hne : taken ≠ [] := by
    rintro rfl
    exact absurd h.length_lt (by simp)
  have hrest : (tokenize source).tokens = before ++ taken ++ rest := by rw [htokens, List.append_assoc]
  obtain ⟨hstart, hstop⟩ := span_offsets file htokens hne
  rw [h.span_eq, hstart, hstop, offsetOf_eq htokens, offsetOf_eq hrest]
  refine ⟨rfl, rfl, ?_⟩
  obtain ⟨first, more, rfl⟩ := List.exists_cons_of_ne_nil hne
  have hfirst : first ∈ (tokenize source).tokens := by simp [htokens]
  have hpos := List.length_pos_iff.2 (toList_text_ne_nil hfirst (hinner first List.mem_cons_self))
  rw [charsOf_append, List.length_append, charsOf_cons, List.length_append]
  omega

/-! ## Statements in a row -/

theorem Row.within {ts after : List Token} {out : List Statement} {s : Statement}
    (hts : StopsBy (tokenize source).tokens ts) (h : Row file problems ts out after) (hs : s ∈ out) :
    offsetOf source ts ≤ s.span.start.offset ∧ s.span.stop.offset ≤ offsetOf source after := by
  obtain ⟨ahead, rest, hahead, made, hrest⟩ := h.exists_makes hs
  obtain ⟨hstart, hstop, -⟩ := made.offsets (hts.trans hahead)
  exact ⟨hstart ▸ hahead.offsetOf_le, hstop ▸ hrest.offsetOf_le⟩

theorem Row.pairwise {ts after : List Token} {out : List Statement}
    (hts : StopsBy (tokenize source).tokens ts) (h : Row file problems ts out after) :
    out.Pairwise fun a b => a.span.stop.offset ≤ b.span.start.offset := by
  induction h with
  | nil => exact .nil
  | cons h made there ih =>
    have hahead := hts.trans h
    have hrest := hahead.trans made.stopsBy
    refine .cons (fun b hb => ?_) (ih hrest)
    rw [(made.offsets hahead).2.1]
    exact (there.within hrest hb).1

/-! ## Documents -/

/-- A document goes from the start of the text to its end. -/
theorem parse_span (file source : String) :
    (parse file (tokenize source).tokens).document.span.start.offset = 0 ∧
      (parse file (tokenize source).tokens).document.span.stop.offset = source.length := by
  obtain ⟨body, last, htokens, hlast, -, hbody, hinner⟩ := exists_body source
  have hend : firstEnd (body ++ [last]) = body.length := by
    rw [firstEnd_append fun t ht => (hinner t ht).1]
    simp [firstEnd, List.findIdx_cons, hlast]
  constructor
  · obtain ⟨first, rest, hfirst⟩ := List.exists_cons_of_ne_nil
      (show (tokenize source).tokens ≠ [] by simp [htokens])
    have hsplit : (tokenize source).tokens = [] ++ first :: rest := hfirst
    rw [hfirst]
    exact start_offset hsplit
  · have hstop : (tokenize source).tokens[firstEnd (tokenize source).tokens]?.map Token.start =
        some (parse file (tokenize source).tokens).document.span.stop :=
      parse_stop (by simp [htokens, hlast])
    have hlength := start_offset htokens
    rw [hbody, String.length_toList] at hlength
    rw [htokens, hend, List.getElem?_concat_length, Option.map_some] at hstop
    rw [htokens, ← Option.some.inj hstop, hlength]

/-- **Ranges nest like the tree.** A document goes from the start of its text to the end. At any depth a
statement takes at least one character, statements in a row do not overlap and stand in the order of the
text, and each lies in the range of what it stands in. -/
theorem ranges_nest (file source : String) :
    let document := (parse file (tokenize source).tokens).document
    (document.span.start.offset = 0 ∧ document.span.stop.offset = source.length) ∧
    (∀ s, document.Holds (.statement s) → s.span.start.offset < s.span.stop.offset) ∧
    ∀ n, document.Holds n →
      n.children.Pairwise (fun a b => a.span.stop.offset ≤ b.span.start.offset) ∧
      ∀ s ∈ n.children,
        n.span.start.offset ≤ s.span.start.offset ∧ s.span.stop.offset ≤ n.span.stop.offset := by
  intro document
  refine ⟨parse_span file source, fun s hs => ?_, fun n hn => ⟨?_, fun s hs => ?_⟩⟩
  · obtain ⟨ts, rest, hts, made⟩ := exists_makes_of_holds hs
    obtain ⟨hstart, hstop, hlt⟩ := made.offsets hts
    rwa [hstart, hstop]
  · obtain ⟨ts, rest, hts, row⟩ := exists_row_of_holds hn
    exact row.pairwise hts
  · cases hn with
    | root =>
      obtain ⟨after, run⟩ := parse_reads file (tokenize source).tokens
      obtain ⟨-, hstop⟩ := (run.row (List.Subset.refl _)).within (.refl _) hs
      obtain ⟨hfirst, hlast⟩ := parse_span file source
      refine ⟨hfirst ▸ Nat.zero_le _, hlast ▸ hstop.trans (Nat.sub_le _ _)⟩
    | child hn hm =>
      obtain ⟨ts, rest, hts, made⟩ := exists_makes_of_holds (.child hn hm)
      obtain ⟨hstart, hstop, -⟩ := made.offsets hts
      obtain ⟨hfrom, hto⟩ := made.row.within hts hs
      exact ⟨hstart ▸ hfrom, hstop ▸ hto⟩

end SpecTree.Spec
