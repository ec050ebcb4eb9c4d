import SpecTree.Proofs.Spec.RoundTrip

/-!
# Parameters read back

The text of a parameter is read as one parameter of its name, and nothing is found wrong with it
(`param_read_back`). The value is the one that was printed, whatever its characters are, unless it is a plain
number or name with a line end behind it: printing leaves such a value without quotes, and reading ends the
parameter at the line end (`param_lineEnd_lost`).
-/

namespace SpecTree.Spec

open Statement (bareAll)

variable {file name value : String} {span : Span}

/-! ## Values with a line end behind them -/

/-- A plain number or name, and a line end behind it. -/
def LosesLineEnd (value : String) : Prop :=
  ∃ body, (isPlainNumber body || isPlainName body) = true ∧ value.toList = body ++ ['\n']

theorem isBareValue_concat_lineEnd (body : List Char) :
    isBareValue (body ++ ['\n']) = (isPlainNumber body || isPlainName body) := by
  simp [isBareValue]

theorem losesLineEnd_iff :
    LosesLineEnd value ↔ isBareValue value.toList = true ∧ value.toList.getLast? = some '\n' := by
  constructor
  · rintro ⟨body, hbody, hvalue⟩
    rw [hvalue, isBareValue_concat_lineEnd]
    exact ⟨hbody, List.getLast?_concat⟩
  · rintro ⟨hbare, hlast⟩
    obtain ⟨body, hbody⟩ := List.getLast?_eq_some_iff.1 hlast
    rw [hbody, isBareValue_concat_lineEnd] at hbare
    exact ⟨body, hbare, hbody⟩

/-! ## The text of a parameter -/

theorem toList_render_param (name value : String) (span : Span) :
    ((Statement.param name value span).render 0).toList =
      name.toList ++ '=' :: ((paramValueText value).toList ++ [';']) := by
  have hne : name ++ "=" ++ paramValueText value ++ ";" ≠ "" := by simp
  rw [Statement.render, toList_indented hne]
  simp [indent]

theorem exists_param_of_bareAll {out : List Statement}
    (h : bareAll out = bareAll [.param name value span]) : ∃ span', out = [.param name value span'] := by
  cases out with
  | nil => simp [bareAll] at h
  | cons s rest =>
    cases rest with
    | cons => simp [bareAll] at h
    | nil =>
      cases s <;> simp [bareAll, Statement.bare] at h
      obtain ⟨rfl, rfl⟩ := h
      exact ⟨_, rfl⟩

/-- A value that keeps its line end, or has none, is read back. -/
theorem parseSource_param_kept (file : String) (span : Span) (h : IsName name)
    (hv : ¬LosesLineEnd value) :
    (parseSource file ((Statement.param name value span).render 0)).problems = [] ∧
      ∃ span', (parseSource file ((Statement.param name value span).render 0)).document.children =
        [.param name value span'] := by
  have hspelled : AllSpelled 0 (Document.children ⟨[.param name value span], span⟩) :=
    .cons (isSpelled_param h (fun hb hl => hv (losesLineEnd_iff.2 ⟨hb, hl⟩)) 0 span []) .nil
  have htext : Document.render ⟨[.param name value span], span⟩ =
      (Statement.param name value span).render 0 := by
    rw [← String.toList_inj, Document.render, toList_renderAll hspelled.render_ne_empty, lines_nil,
      List.append_nil]
  have hrecovers := (hspelled.recovers file).parseSource
  rw [htext] at hrecovers
  exact ⟨hrecovers.1, exists_param_of_bareAll hrecovers.2⟩

/-- The semicolon that a line end leaves alone is no statement. -/
theorem reads_semicolon (file newline semicolon : String) (p₁ p₂ p₃ : Position) :
    Reads file false [⟨.newline, newline, p₁⟩, ⟨.semicolon, semicolon, p₂⟩, ⟨.eof, "", p₃⟩] []
      [⟨.eof, "", p₃⟩] [] := by
  have hskip : skipLines [⟨.newline, newline, p₁⟩, ⟨.semicolon, semicolon, p₂⟩, ⟨.eof, "", p₃⟩] =
      [⟨.semicolon, semicolon, p₂⟩, ⟨.eof, "", p₃⟩] := rfl
  have hr : readStatement file [⟨.semicolon, semicolon, p₂⟩, ⟨.eof, "", p₃⟩] =
      ⟨none, [⟨.eof, "", p₃⟩], []⟩ := by
    rw [readStatement, readProse, readRun]
    rfl
  have there : Reads file false [⟨.eof, "", p₃⟩] [] [⟨.eof, "", p₃⟩] [] := .done rfl (.inl rfl)
  exact .statement hskip rfl (by simp [nextKind]) hr there

/-- A bare value ends at the line end behind it. -/
theorem parseSource_param_lineEnd (file body source : String) (h : IsName name)
    (hb : (isPlainNumber body.toList || isPlainName body.toList) = true)
    (hs : source.toList = name.toList ++ '=' :: (body.toList ++ ['\n', ';'])) :
    (parseSource file source).problems = [] ∧
      ∃ span', (parseSource file source).document.children = [.param name body span'] := by
  obtain ⟨ps, last, hbody, hread⟩ := exists_cuts_bare file (isRunChar_of_isPlain hb)
    ['\n', ';'] (by rintro _ ⟨⟩; rfl) (some '=')
  have hcuts : Cuts none source.toList
      (⟨.identifier, name.toList⟩ :: ⟨.equals, ['=']⟩ ::
        (ps ++ [⟨.newline, ['\n']⟩, ⟨.semicolon, [';']⟩])) (some ';') [] := by
    have hend := (cuts_newline last [';']).trans (cuts_punctuation rfl (some '\n') [])
    rw [hs]
    exact (h.cuts_equals _ none).trans (hbody.trans hend)
  obtain ⟨p₂, p, q₁, q₂, q₃, htokens⟩ : ∃ p₂ p q₁ q₂ q₃, tokenize source =
      ⟨⟨.identifier, name, .origin⟩ :: ⟨.equals, "=", p₂⟩ :: (placed p ps ++
        [⟨.newline, "\n", q₁⟩, ⟨.semicolon, ";", q₂⟩, ⟨.eof, "", q₃⟩]), []⟩ := by
    have htokens := tokenizeFrom_of_cuts hcuts .origin
    rw [placed_cons, placed_cons, placed_append, String.ofList_toList, List.cons_append,
      List.cons_append, List.append_assoc, tokenizeFrom] at htokens
    exact ⟨_, _, _, _, _, htokens⟩
  obtain ⟨span', hone⟩ := hread name "=" .origin p₂ p
    [⟨.newline, "\n", q₁⟩, ⟨.semicolon, ";", q₂⟩, ⟨.eof, "", q₃⟩] rfl
  have hreads := Reads.first rfl (header?_param ..) ((readStatement_param ..).trans hone)
    (reads_semicolon file "\n" ";" q₁ q₂ q₃)
  obtain ⟨hchildren, hproblems⟩ := hreads.parseSource_eq htokens
  exact ⟨hproblems, span', hchildren⟩

/-- **Parameters are read back**, with any value but a plain number or name that has a line end behind it;
of such a value the line end is lost, and nothing else. -/
theorem param_read_back (file : String) (value : String) (span : Span) (h : IsName name) :
    (parseSource file (Node.statement (.param name value span)).render).problems = [] ∧
      ∃ kept span', (parseSource file (Node.statement (.param name value span)).render).document.children =
          [.param name kept span'] ∧
        (kept = value ↔ ¬LosesLineEnd value) ∧ (LosesLineEnd value → kept ++ "\n" = value) := by
  rw [Node.render]
  by_cases hv : LosesLineEnd value
  · obtain ⟨body, hb, hvalue⟩ := hv
    have hkept : String.ofList body ++ "\n" = value := by
      rw [← String.toList_inj, hvalue]
      simp
    have hbare : paramValueText value = value := by
      rw [paramValueText, hvalue, isBareValue_concat_lineEnd, if_pos hb]
    obtain ⟨hproblems, span', hchildren⟩ := parseSource_param_lineEnd file (String.ofList body)
      ((Statement.param name value span).render 0) h (by rwa [String.toList_ofList])
      (by rw [toList_render_param, hbare, hvalue]; simp)
    refine ⟨hproblems, _, span', hchildren, iff_of_false ?_ (not_not.2 ⟨body, hb, hvalue⟩),
      fun _ => hkept⟩
    intro he
    have hlength := congrArg (fun s => s.toList.length) (he.trans hkept.symm)
    simp at hlength
  · obtain ⟨hproblems, span', hchildren⟩ := parseSource_param_kept file span h hv
    exact ⟨hproblems, value, span', hchildren, iff_of_true rfl hv, fun hl => absurd hl hv⟩

/-- A value of a quote, a semicolon, a brace, a backslash and a line end. -/
theorem param_read_back_quoted :
    IsName "a" ∧ ∃ span', (parseSource "<input>"
      (Node.statement (.param "a" "\"; \x7d\\\n" default)).render).document.children =
        [.param "a" "\"; \x7d\\\n" span'] := by
  have hname : IsName "a" := ⟨by decide, by decide⟩
  have hkept : ¬LosesLineEnd "\"; \x7d\\\n" := by
    rw [losesLineEnd_iff]
    decide +kernel
  obtain ⟨-, kept, span', hchildren, hiff, -⟩ :=
    param_read_back "<input>" "\"; \x7d\\\n" default hname
  exact ⟨hname, span', by rw [hchildren, hiff.2 hkept]⟩

/-- The name `foo` with a line end behind it comes back as `foo`. -/
theorem param_lineEnd_lost :
    IsName "a" ∧ ∀ span',
      (parseSource "<input>" (Node.statement (.param "a" "foo\n" default)).render).document.children ≠
        [.param "a" "foo\n" span'] := by
  have hname : IsName "a" := ⟨by decide, by decide⟩
  refine ⟨hname, fun span' he => ?_⟩
  have htext : (Node.statement (.param "a" "foo\n" default)).render.toList =
      "a".toList ++ '=' :: ("foo".toList ++ ['\n', ';']) := by
    rw [Node.render, toList_render_param]
    decide
  obtain ⟨-, span, hchildren⟩ :=
    parseSource_param_lineEnd "<input>" "foo" _ hname (by decide) htext
  rw [hchildren] at he
  simp at he

end SpecTree.Spec
