import Mathlib
import SpecTree.Proofs.Spec.RoundTrip

/-!
# Canonical texts that are their own canonical text

Printing does not look at places (`render_bare`), so that a well-formed tree has the same text again
after it was read back (`render_stable`). Values that end with a line end show that the condition is
needed: the final line end counts as part of a bare value when it is printed, and is lost when it is read
(`lineEnd_not_stable`).
-/

namespace SpecTree.Spec

namespace Statement

mutual

theorem render_bare (depth : Nat) (s : Statement) : s.bare.render depth = s.render depth := by
  cases s with
  | module header children span =>
    rw [bare, render, render, renderAll, renderAll, renderEach_bareAll (depth + 1) children]
  | prose text important span => rw [bare, render, render]
  | constraint text important span => rw [bare, render, render]
  | inclusion path span => rw [bare, render, render]
  | param name value span => rw [bare, render, render]
  | comment text span => rw [bare, render, render]

theorem renderEach_bareAll (depth : Nat) (statements : List Statement) :
    renderEach depth (bareAll statements) = renderEach depth statements := by
  cases statements with
  | nil => rw [bareAll]
  | cons s rest =>
    rw [bareAll, renderEach, renderEach, render_bare depth s, renderEach_bareAll depth rest]

end

end Statement

open Statement (bareAll)

/-- The text of a document is that of any document with the same statements at other places. -/
theorem Document.render_congr {d e : Document} (h : bareAll d.children = bareAll e.children) :
    d.render = e.render := by
  rw [Document.render, Document.render, Statement.renderAll, Statement.renderAll,
    ← Statement.renderEach_bareAll, h, Statement.renderEach_bareAll]

/-- **The canonical text of a well-formed document is stable.** -/
theorem render_stable (file source : String)
    (h : WellFormed (parseSource file source).document.children) :
    (parseSource file (parseSource file source).document.render).document.render =
      (parseSource file source).document.render :=
  Document.render_congr (h.recovers file).parseSource.2

theorem parseSource_port :
    (parseSource "<input>" "port=80;").document.children =
        [.param "port" "80" ⟨"<input>", ⟨1, 1, 0⟩, ⟨1, 9, 8⟩⟩] ∧
      (parseSource "<input>" "port=80;").problems = [] := by
  have hr : readStatement "<input>" (tokenize "port=80;").tokens =
      ⟨some (.param "port" "80" ⟨"<input>", ⟨1, 1, 0⟩, ⟨1, 9, 8⟩⟩), [⟨.eof, "", ⟨1, 9, 8⟩⟩], []⟩ := by cbv
  exact parseSource_one (by cbv) (by cbv) (by cbv) (by cbv; decide) hr

theorem render_stable_port :
    WellFormed (parseSource "<input>" "port=80;").document.children ∧
      (parseSource "<input>" (parseSource "<input>" "port=80;").document.render).document.render =
        (parseSource "<input>" "port=80;").document.render := by
  have h : WellFormed (parseSource "<input>" "port=80;").document.children := by
    rw [parseSource_port.1]
    exact .param ⟨by decide, by decide⟩ (by decide) .nil
  exact ⟨h, render_stable "<input>" "port=80;" h⟩

/-! ## Values that end with a line end -/

theorem parseSource_quotedLineEnd :
    (parseSource "<input>" "a=\"foo\n\";").document.children =
        [.param "a" "foo\n" ⟨"<input>", ⟨1, 1, 0⟩, ⟨2, 3, 9⟩⟩] ∧
      (parseSource "<input>" "a=\"foo\n\";").problems = [] := by
  have hr : readStatement "<input>" (tokenize "a=\"foo\n\";").tokens =
      ⟨some (.param "a" "foo\n" ⟨"<input>", ⟨1, 1, 0⟩, ⟨2, 3, 9⟩⟩), [⟨.eof, "", ⟨2, 3, 9⟩⟩], []⟩ := by cbv
  exact parseSource_one (by cbv) (by cbv) (by cbv) (by cbv; decide) hr

/-- The line end now ends the parameter, and its semicolon stands alone. -/
theorem parseSource_bareLineEnd :
    (parseSource "<input>" "a=foo\n;").document.children =
      [.param "a" "foo" ⟨"<input>", ⟨1, 1, 0⟩, ⟨1, 6, 5⟩⟩] := by
  have first : readStatement "<input>" (tokenize "a=foo\n;").tokens =
      ⟨some (.param "a" "foo" ⟨"<input>", ⟨1, 1, 0⟩, ⟨1, 6, 5⟩⟩), (tokenize "a=foo\n;").tokens.drop 3, []⟩ := by
    cbv
  have second : readStatement "<input>" [⟨.semicolon, ";", ⟨2, 1, 6⟩⟩, ⟨.eof, "", ⟨2, 2, 7⟩⟩] =
      ⟨none, [⟨.eof, "", ⟨2, 2, 7⟩⟩], []⟩ := by cbv
  have hskip : skipLines ((tokenize "a=foo\n;").tokens.drop 3) =
      [⟨.semicolon, ";", ⟨2, 1, 6⟩⟩, ⟨.eof, "", ⟨2, 2, 7⟩⟩] := by cbv
  have run : Reads "<input>" false [⟨.eof, "", ⟨2, 2, 7⟩⟩] [] [⟨.eof, "", ⟨2, 2, 7⟩⟩] [] :=
    .done rfl (.inl rfl)
  have run := Reads.statement hskip (by cbv) (by decide) second run
  have run := Reads.statement
    (show skipLines (tokenize "a=foo\n;").tokens = (tokenize "a=foo\n;").tokens by cbv) (by cbv)
    (by cbv; decide) first run
  exact (run.parseSource_eq (show tokenize "a=foo\n;" = ⟨(tokenize "a=foo\n;").tokens, []⟩ by cbv)).1

theorem lineEnd_not_stable :
    (parseSource "<input>" "a=\"foo\n\";").problems = [] ∧
      (parseSource "<input>" (parseSource "<input>" "a=\"foo\n\";").document.render).document.render ≠
        (parseSource "<input>" "a=\"foo\n\";").document.render := by
  have hrender : (parseSource "<input>" "a=\"foo\n\";").document.render = "a=foo\n;" := by
    rw [Document.render, parseSource_quotedLineEnd.1, Statement.renderAll, renderEach_eq]
    cbv
  have hagain : (parseSource "<input>" "a=foo\n;").document.render = "a=foo;" := by
    rw [Document.render, parseSource_bareLineEnd, Statement.renderAll, renderEach_eq]
    cbv
  refine ⟨parseSource_quotedLineEnd.2, ?_⟩
  rw [hrender, hagain]
  decide

end SpecTree.Spec
