import SpecTree.Proofs.Spec.Ranges

/-!
# Free text is kept verbatim

1. `readRun_taken`: the parts of a run are the texts of the tokens that it takes, as long as no marker is
   among them.
2. `cut_spanBetween`, `isMarked_spanBetween`: what the range of such tokens has of the text, and which
   markers lie in it.
3. `free_text_verbatim`: comments, prose and constraints at any depth are what their ranges have.
-/

namespace SpecTree.Spec

open Text (strip)

variable {file source : String} {problems : List Diagnostic}

/-! ## Runs of free text -/

/-- A run takes the tokens of its text, and the semicolon that ends a constraint. It is important if a
marker is among the tokens, and if not, its parts are their texts. -/
theorem readRun_taken (parts : List String) (important lineStart : Bool) (ts : List Token) :
    ∃ body ending, ts = body ++ (ending ++ (readRun parts important lineStart ts).rest) ∧
      ending.map Token.kind =
        (if (readRun parts important lineStart ts).terminated then [.semicolon] else []) ∧
      ((readRun parts important lineStart ts).important = true ↔
        important = true ∨ ∃ t ∈ body, t.kind = .important) ∧
      ((readRun parts important lineStart ts).important = false →
        String.join (readRun parts important lineStart ts).parts.reverse =
          String.join parts.reverse ++ joinTexts body) := by
  fun_induction readRun parts important lineStart ts with
  | case1 parts important lineStart => exact ⟨[], [], rfl, rfl, by simp, fun _ => by simp [joinTexts]⟩
  | case2 parts important lineStart t ts =>
    exact ⟨[], [], rfl, rfl, by simp, fun _ => by simp [joinTexts]⟩
  | case3 parts important lineStart t ts _ hs =>
    exact ⟨[], [t], rfl, by simp [hs], by simp, fun _ => by simp [joinTexts]⟩
  | case4 parts important lineStart t ts _ _ hi ih =>
    obtain ⟨body, ending, hts, hending, hmark, -⟩ := ih
    -- The parts lose a blank here, but of an important run nothing is said of the parts.
    have hyes := hmark.2 (.inl rfl)
    refine ⟨t :: body, ending, congrArg _ hts, hending, iff_of_true hyes (.inr ⟨t, by simp, hi⟩), ?_⟩
    exact fun hno => absurd (hyes.symm.trans hno) (by simp)
  | case5 parts important lineStart t ts _ _ hi ih =>
    obtain ⟨body, ending, hts, hending, hmark, hparts⟩ := ih
    refine ⟨t :: body, ending, congrArg _ hts, hending, ?_, fun hno => ?_⟩
    · simpa [hi] using hmark
    · rw [hparts hno]
      simp [joinTexts, String.append_assoc]

/-! ## Ranges and what they have of the text -/

/-- The characters of the text in the range. -/
def Span.cut (span : Span) (source : String) : String :=
  String.ofList ((source.toList.drop span.start.offset).take (span.stop.offset - span.start.offset))

/-- A marker of the text lies in the range. -/
def Span.IsMarked (span : Span) (source : String) : Prop :=
  ∃ t ∈ (tokenize source).tokens, t.kind = .important ∧
    span.start.offset ≤ t.start.offset ∧ t.stop.offset ≤ span.stop.offset

theorem joinTexts_eq (ts : List Token) : joinTexts ts = String.ofList (charsOf ts) := by
  rw [← String.toList_inj, joinTexts, String.toList_join, String.toList_ofList, List.flatMap_map]
  rfl

section

variable (file) {before taken rest : List Token} (h : (tokenize source).tokens = before ++ (taken ++ rest))
  (hne : taken ≠ [])

include h hne

/-- The range of tokens in a row has their texts. -/
theorem cut_spanBetween : (spanBetween file (taken ++ rest) rest).cut source = joinTexts taken := by
  have hsource := charsOf_tokenize source
  rw [h, charsOf_append, charsOf_append] at hsource
  obtain ⟨hstart, hstop⟩ := span_offsets file h hne
  rw [Span.cut, hstart, hstop, charsOf_append, List.length_append, Nat.add_sub_cancel_left, ← hsource,
    List.drop_left, List.take_left, joinTexts_eq]

/-- A token of the text lies in the range of tokens in a row only if it is one of them. -/
theorem mem_iff_of_spanBetween {t : Token} (ht : t ∈ (tokenize source).tokens) (hk : t.kind ≠ .eof) :
    t ∈ taken ↔ (spanBetween file (taken ++ rest) rest).start.offset ≤ t.start.offset ∧
      t.stop.offset ≤ (spanBetween file (taken ++ rest) rest).stop.offset := by
  obtain ⟨hstart, hstop⟩ := span_offsets file h hne
  have htext : 0 < t.text.toList.length := List.length_pos_iff.2 (toList_text_ne_nil ht hk)
  have hlength : t.stop.offset = t.start.offset + t.text.toList.length := by
    rw [String.length_toList]
    rfl
  rw [hstart, hstop, hlength]
  constructor
  · intro hm
    obtain ⟨a, b, rfl⟩ := List.append_of_mem hm
    have hoffset := start_offset (h.trans (by simp : _ = (before ++ a) ++ t :: (b ++ rest)))
    simp only [charsOf_append, charsOf_cons, List.length_append] at hoffset ⊢
    omega
  · rintro ⟨hfrom, hto⟩
    rw [h, List.mem_append, List.mem_append] at ht
    rcases ht with ht | ht | ht
    · -- Before the range a token ends at its start at the latest.
      obtain ⟨a, b, rfl⟩ := List.append_of_mem ht
      have hoffset := start_offset (h.trans (by simp : _ = a ++ t :: (b ++ (taken ++ rest))))
      simp only [charsOf_append, charsOf_cons, List.length_append] at hoffset hfrom
      omega
    · exact ht
    · -- Behind the range a token starts at its end at the earliest.
      obtain ⟨a, b, rfl⟩ := List.append_of_mem ht
      have hoffset := start_offset (h.trans (by simp : _ = (before ++ taken ++ a) ++ t :: b))
      simp only [charsOf_append, List.length_append] at hoffset hto
      omega

theorem isMarked_spanBetween :
    (spanBetween file (taken ++ rest) rest).IsMarked source ↔ ∃ t ∈ taken, t.kind = .important := by
  have hsome (t : Token) (hk : t.kind = .important) : t.kind ≠ .eof := by simp [hk]
  constructor
  · rintro ⟨t, ht, hk, hrange⟩
    exact ⟨t, (mem_iff_of_spanBetween file h hne ht (hsome t hk)).2 hrange, hk⟩
  · rintro ⟨t, hm, hk⟩
    have ht : t ∈ (tokenize source).tokens := by
      rw [h]
      exact List.mem_append_right _ (List.mem_append_left _ hm)
    exact ⟨t, ht, hk, (mem_iff_of_spanBetween file h hne ht (hsome t hk)).1 hm⟩

end

/-! ## Semicolons -/

theorem eq_of_punctuation?_semicolon {c : Char} (h : punctuation? c = some .semicolon) : c = ';' := by
  unfold punctuation? at h
  split at h <;> first | rfl | cases h

theorem scan_semicolon {previous : Option Char} {c : Char} {cs : List Char}
    (h : (scan previous c cs).kind = .semicolon) : (scan previous c cs).text = [';'] := by
  rcases scan_kind previous c cs with hrun | ⟨kind, hk, hscan⟩
  · exact absurd (h ▸ hrun) (by decide)
  · rw [hscan] at h ⊢
    rw [eq_of_punctuation?_semicolon (hk.trans (congrArg some h))]

theorem text_of_semicolon {t : Token} (ht : t ∈ (tokenize source).tokens) (hk : t.kind = .semicolon) :
    t.text = ";" := by
  have htokens (previous : Option Char) (p : Position) (cs : List Char) :
      t ∈ (tokenizeFrom previous p cs).tokens → t.text = ";" := by
    fun_induction tokenizeFrom previous p cs with
    | case1 previous p =>
      intro ht
      rw [List.mem_singleton.1 ht] at hk
      cases hk
    | case2 previous p c cs lexeme stop later ih =>
      intro ht
      rcases List.mem_cons.1 ht with rfl | ht
      · exact congrArg String.ofList (scan_semicolon hk)
      · exact ih ht
  exact htokens none .origin source.toList ht

/-! ## Statements -/

/-- A comment is what the source has in its range. Prose is that without the blanks around it, and a
constraint the same without its semicolon, as long as no marker lies in the range; where one does, and only
there, they are important. -/
def Statement.IsVerbatim (source : String) : Statement → Prop
  | comment text span => text = span.cut source
  | prose text important span =>
    (important = false → text = strip (span.cut source)) ∧ (important = true ↔ span.IsMarked source)
  | constraint text important span =>
    (important = false → ∃ body, span.cut source = body ++ ";" ∧ text = strip body) ∧
      (important = true ↔ span.IsMarked source)
  | module .. | inclusion .. | param .. => True

theorem readProse_isVerbatim {ts : List Token} {s : Statement}
    (hts : StopsBy (tokenize source).tokens ts) (hl : (readProse file ts).rest.length < ts.length)
    (h : (readProse file ts).value = some s) : s.IsVerbatim source := by
  obtain ⟨before, htokens, -⟩ := stopsBy_iff.1 hts
  obtain ⟨body, ending, hbody, hending, himportant, hparts⟩ := readRun_taken [] false true ts
  rw [readProse_rest] at hl
  rw [readProse_value h]
  generalize readRun [] false true ts = run at hbody hending himportant hparts hl ⊢
  rw [← List.append_assoc] at hbody
  subst hbody
  have hne : body ++ ending ≠ [] := by
    intro hnil
    simp [hnil] at hl
  have hcut := cut_spanBetween file htokens hne
  have hmarked : run.important = true ↔
      (spanBetween file (body ++ ending ++ run.rest) run.rest).IsMarked source := by
    have hmark : ∀ t ∈ ending, t.kind ≠ .important := by
      intro t ht hk
      have hmem : TokenKind.important ∈ ending.map Token.kind := List.mem_map.2 ⟨t, ht, hk⟩
      rw [hending] at hmem
      split at hmem <;> simp at hmem
    rw [isMarked_spanBetween file htokens hne, himportant]
    simp only [Bool.false_eq_true, false_or, List.mem_append]
    exact ⟨fun ⟨t, ht, hk⟩ => ⟨t, .inl ht, hk⟩,
      fun ⟨t, ht, hk⟩ => ⟨t, ht.resolve_right fun he => hmark t he hk, hk⟩⟩
  cases hterminated : run.terminated with
  | true =>
    rw [hterminated, if_pos rfl, List.map_eq_singleton_iff] at hending
    obtain ⟨mark, rfl, hkind⟩ := hending
    have hmem : mark ∈ (tokenize source).tokens := by simp [htokens]
    have htext := text_of_semicolon hmem hkind
    refine ⟨fun hno => ⟨joinTexts body, ?_, ?_⟩, hmarked⟩
    · rw [hcut]
      simp [joinTexts, htext]
    · rw [hparts hno]
      simp
  | false =>
    rw [hterminated, if_neg Bool.false_ne_true, List.map_eq_nil_iff] at hending
    subst hending
    refine ⟨fun hno => ?_, hmarked⟩
    rw [hcut, hparts hno]
    simp

theorem Makes.isVerbatim {ts rest : List Token} {s : Statement}
    (hts : StopsBy (tokenize source).tokens ts) (h : Makes file problems ts s rest) :
    s.IsVerbatim source := by
  have hlength := h.length_lt
  cases h with
  | module => trivial
  | single hk hv =>
    rcases readStatement_cases hv with ⟨t, rest, rfl, hr⟩ | hr | hr | hr <;> rw [hr] at hv hlength
    · cases hv
      obtain ⟨before, htokens, -⟩ := stopsBy_iff.1 hts
      have hcut : (spanBetween file ([t] ++ rest) rest).cut source = joinTexts [t] :=
        cut_spanBetween file htokens (List.cons_ne_nil t [])
      simpa [Statement.IsVerbatim, joinTexts] using hcut.symm
    · obtain ⟨path, rfl⟩ := readInclude_value hv
      trivial
    · obtain ⟨name, value, rfl⟩ := readParam_value hv
      trivial
    · exact readProse_isVerbatim hts hlength hv

/-- **Free text is kept verbatim**, at any depth of a document. -/
theorem free_text_verbatim (file source : String) {s : Statement}
    (h : (parse file (tokenize source).tokens).document.Holds (.statement s)) : s.IsVerbatim source := by
  obtain ⟨ts, rest, hts, made⟩ := exists_makes_of_holds h
  exact made.isVerbatim hts

/-- A module with a constraint that has a semicolon in its code. -/
def codeModule : String := "m\x7b \x60;\x60 ;\x7d"

def codeTokens : List Token :=
  [⟨.identifier, "m", ⟨1, 1, 0⟩⟩, ⟨.braceOpen, "\x7b", ⟨1, 2, 1⟩⟩, ⟨.whitespace, " ", ⟨1, 3, 2⟩⟩,
    ⟨.inlineCode, "\x60;\x60", ⟨1, 4, 3⟩⟩, ⟨.whitespace, " ", ⟨1, 7, 6⟩⟩, ⟨.semicolon, ";", ⟨1, 8, 7⟩⟩,
    ⟨.braceClose, "\x7d", ⟨1, 9, 8⟩⟩, ⟨.eof, "", ⟨1, 10, 9⟩⟩]

def codeConstraint : Statement := .constraint "\x60;\x60" false ⟨"<input>", ⟨1, 4, 3⟩, ⟨1, 9, 8⟩⟩

theorem readStatement_codeTokens :
    readStatement "<input>" (codeTokens.drop 3) = ⟨some codeConstraint, codeTokens.drop 6, []⟩ := by
  have hprose : readStatement "<input>" (codeTokens.drop 3) = readProse "<input>" (codeTokens.drop 3) := rfl
  have hrun : readRun [] false true (codeTokens.drop 3) =
      ⟨[" ", "\x60;\x60"], false, true, codeTokens.drop 6⟩ := rfl
  have htext : strip (String.join [" ", "\x60;\x60"].reverse) = "\x60;\x60" := by decide +kernel
  rw [hprose, readProse, hrun, htext]
  rfl

theorem holds_codeConstraint :
    (parse "<input>" (tokenize codeModule).tokens).document.Holds (.statement codeConstraint) := by
  have htokens : tokenize codeModule = ⟨codeTokens, []⟩ := by cbv
  have hstart : skipLines codeTokens = codeTokens := rfl
  have hm : header? codeTokens = some (⟨"m", [], [], none⟩, codeTokens.drop 2) := by cbv
  have hnone : header? (codeTokens.drop 3) = none := by cbv
  have hskip : skipLines (codeTokens.drop 2) = codeTokens.drop 3 := rfl
  have inside : Reads "<input>" true (codeTokens.drop 2) [codeConstraint] (codeTokens.drop 6) [] :=
    .statement hskip hnone (by decide) readStatement_codeTokens (.done rfl (.inr ⟨rfl, rfl⟩))
  have run : Reads "<input>" false codeTokens
      [.module ⟨"m", [], [], none⟩ [codeConstraint] ⟨"<input>", ⟨1, 1, 0⟩, ⟨1, 10, 9⟩⟩]
      [⟨.eof, "", ⟨1, 10, 9⟩⟩] [] :=
    .module hstart hm inside (.done rfl (.inl rfl))
  have hmodule := (run.parseSource_eq htokens).1 ▸ List.mem_singleton_self _
  exact .child (.child .root hmodule) (List.mem_singleton_self codeConstraint)

theorem free_text_verbatim_code :
    (parse "<input>" (tokenize codeModule).tokens).document.Holds (.statement codeConstraint) ∧
      ∃ body, codeConstraint.span.cut codeModule = body ++ ";" ∧ "\x60;\x60" = strip body :=
  ⟨holds_codeConstraint, (free_text_verbatim "<input>" codeModule holds_codeConstraint).1 rfl⟩

end SpecTree.Spec
