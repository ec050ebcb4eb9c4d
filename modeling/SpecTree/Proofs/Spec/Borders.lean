import Mathlib
import SpecTree.Proofs.Spec.RoundTrip
import SpecTree.Proofs.Spec.Stretches

/-!
# Where prose ends

Where nothing is wrong with a text, prose is the last statement of its block, or another kind of statement
follows: neither prose nor a constraint (`prose_ends`).

1. A run of free text ends at its semicolon or where `stopsProse` says (`readRun_stops`), and what begins
   there is not read as free text (`readStatement_of_stopsProse`): both look at the tokens ahead by the same
   tests.
2. `Reads.isChain` carries this over a block, one rule of `Reads` at a time. The rules that pass over a brace
   report it, so that none of them comes between prose and what follows it.
-/

namespace SpecTree.Spec

variable {file : String}

/-! ## Where a run ends -/

/-- At the start of a line free text ends wherever it ends within one. -/
theorem interruptsProse_true {lineStart : Bool} {ts : List Token}
    (h : interruptsProse lineStart ts = true) : interruptsProse true ts = true := by
  unfold interruptsProse at h ⊢
  cases lineStart with
  | true => exact h
  | false => rw [(by simpa using h : (nextKind ts == .identifier && (header? ts).isSome) = true), Bool.true_or]

/-- Free text without a semicolon goes on until something else begins. -/
theorem readRun_stops (parts : List String) (important lineStart : Bool) (ts : List Token)
    (h : (readRun parts important lineStart ts).terminated = false) :
    stopsProse (readRun parts important lineStart ts).rest = true := by
  fun_induction readRun parts important lineStart ts with
  | case1 => rfl
  | case2 parts important lineStart t ts hstop =>
    rw [Bool.or_eq_true, Bool.and_eq_true] at hstop
    rw [stopsProse, Bool.or_eq_true]
    exact hstop.imp id fun hi => interruptsProse_true hi.2
  | case3 => cases h
  | case4 _ _ _ _ _ _ _ _ ih | case5 _ _ _ _ _ _ _ _ ih => exact ih h

theorem stopsProse_of_prose {ts : List Token} {text : String} {important : Bool} {span : Span}
    (h : (readStatement file ts).value = some (.prose text important span)) :
    stopsProse (readStatement file ts).rest = true := by
  rcases readStatement_cases h with ⟨t, rest, -, hr⟩ | hr | hr | hr <;> rw [hr] at h ⊢
  · cases h
  · obtain ⟨path, hs⟩ := readInclude_value h
    cases hs
  · obtain ⟨name, value, hs⟩ := readParam_value h
    cases hs
  · rw [readProse_rest]
    refine readRun_stops _ _ _ _ (Bool.eq_false_iff.2 fun hterminated => ?_)
    have hs := readProse_value h
    rw [if_pos hterminated] at hs
    cases hs

/-! ## What begins there -/

theorem readInclude_of_problems {ts : List Token} (h : (readInclude file ts).problems = []) :
    ∃ path span, (readInclude file ts).value = some (.inclusion path span) := by
  unfold readInclude at h ⊢
  dsimp only at h ⊢
  split at h
  · cases h
  · next hpath =>
    rw [if_neg hpath]
    exact ⟨_, _, rfl⟩

/-- Where free text ends, and neither a block nor a module begins, a statement of another kind is read. -/
theorem readStatement_of_stopsProse {ts : List Token} (h : stopsProse ts = true) (hm : header? ts = none)
    (hk : nextKind ts ≠ .eof ∧ nextKind ts ≠ .braceClose ∧ nextKind ts ≠ .braceOpen)
    (hp : (readStatement file ts).problems = []) :
    ∃ s, (readStatement file ts).value = some s ∧ s.isFree = false := by
  cases ts with
  | nil => exact absurd rfl hk.1
  | cons t rest =>
    rw [nextKind] at hk
    rw [readStatement] at hp ⊢
    by_cases hc : t.kind = .comment
    · rw [if_pos hc]
      exact ⟨_, rfl, rfl⟩
    rw [if_neg hc] at hp ⊢
    have hinterrupts : startsParam (t :: rest) = true ∨
        t.kind = .includeWord ∧ startsInclude (t :: rest) = true := by
      simpa [stopsProse, interruptsProse, nextKind, endsProse, hk, hc, hm] using h
    rcases hinterrupts with hparam | ⟨hword, hinclude⟩
    · have hname : t.kind = .identifier := by
        simp only [startsParam, nextKind, Bool.and_eq_true, beq_iff_eq] at hparam
        exact hparam.1
      rw [if_neg (by simp [hname]), if_pos hparam]
      obtain ⟨name, value, span, hv⟩ := exists_param_of_readParam file (t :: rest)
      exact ⟨_, hv, rfl⟩
    · rw [if_pos ⟨hword, .inr hinclude⟩] at hp ⊢
      obtain ⟨path, span, hv⟩ := readInclude_of_problems hp
      exact ⟨_, hv, rfl⟩

theorem skipLines_of_stopsProse {ts : List Token} (h : stopsProse ts = true) : skipLines ts = ts := by
  refine skipKinds_of_nextKind (Bool.eq_false_iff.2 fun hblank => ?_)
  simp only [Bool.or_eq_true, beq_iff_eq] at hblank
  rcases hblank with hk | hk <;>
    simp [stopsProse, endsProse, interruptsProse, startsParam, combinator?, hk] at h

/-! ## Blocks -/

/-- Where free text ends no free text begins. -/
theorem Reads.head_of_stopsProse {nested : Bool} {ts after : List Token} {out : List Statement}
    {problems : List Diagnostic} (h : Reads file nested ts out after problems) (hp : problems = [])
    (hs : stopsProse ts = true) : ∀ s ∈ out.head?, s.isFree = false := by
  have hskip := skipLines_of_stopsProse hs
  cases h with
  | done => simp
  | stray | loose => cases hp
  | module =>
    rintro _ ⟨⟩
    rfl
  | statement h hm hk hr =>
    rw [hskip] at h
    subst h hr
    obtain ⟨s, hv, hfree⟩ := readStatement_of_stopsProse hs hm hk (List.append_eq_nil_iff.1 hp).1
    rw [hv]
    rintro _ ⟨⟩
    exact hfree

/-- **No free text follows prose** in statements that are read without a problem. -/
theorem Reads.isChain {nested : Bool} {ts after : List Token} {out : List Statement}
    {problems : List Diagnostic} (h : Reads file nested ts out after problems) (hp : problems = []) :
    out.IsChain fun s next => (∃ text important span, s = .prose text important span) →
      next.isFree = false := by
  induction h with
  | done => exact .nil
  | stray | loose => cases hp
  | module _ _ _ _ _ ih =>
    refine List.isChain_cons.2 ⟨fun next _ hprose => ?_, ih (List.append_eq_nil_iff.1 hp).2⟩
    obtain ⟨_, _, _, hs⟩ := hprose
    cases hs
  | @statement _ _ ahead _ one _ _ _ _ _ hr there ih =>
    have hlater := (List.append_eq_nil_iff.1 hp).2
    subst hr
    cases hv : (readStatement file ahead).value with
    | none => exact ih hlater
    | some s =>
      refine List.isChain_cons.2 ⟨fun next hnext hprose => ?_, ih hlater⟩
      obtain ⟨text, important, span, rfl⟩ := hprose
      exact there.head_of_stopsProse hlater (stopsProse_of_prose hv) next hnext

/-! ## Documents -/

/-- **Prose ends only where another statement begins.** Where nothing is wrong with a text, the statement
behind prose is a module, an include, a parameter or a comment, at any depth. -/
theorem prose_ends {source : String} (h : (parseSource file source).problems = []) {n : Node}
    (hn : (parseSource file source).document.Holds n) {before after : List Statement}
    {text : String} {important : Bool} {span : Span} {next : Statement}
    (hs : n.children = before ++ .prose text important span :: next :: after) : next.isFree = false := by
  have hproblems : (parse file (tokenize source).tokens).problems = [] := (List.append_eq_nil_iff.1 h).2
  have hchain : n.children.IsChain fun s next =>
      (∃ text important span, s = .prose text important span) → next.isFree = false := by
    cases hn with
    | root =>
      obtain ⟨after, run⟩ := parse_reads file (tokenize source).tokens
      exact run.isChain hproblems
    | child hn hm =>
      obtain ⟨ts, rest, -, made⟩ := exists_makes_of_holds (.child hn hm)
      rw [hproblems] at made
      cases made with
      | module _ inside hf => exact inside.isChain (List.subset_nil.1 hf)
      | single _ hv =>
        rw [Node.children, readStatement_children hv]
        exact .nil
  rw [hs] at hchain
  exact (List.isChain_append_cons_cons.1 hchain).2.1 ⟨text, important, span, rfl⟩

/-- A line of prose and a parameter. -/
def proseTokens : List Token :=
  [⟨.identifier, "a", ⟨1, 1, 0⟩⟩, ⟨.newline, "\n", ⟨1, 2, 1⟩⟩, ⟨.identifier, "b", ⟨2, 1, 2⟩⟩,
    ⟨.equals, "=", ⟨2, 2, 3⟩⟩, ⟨.number, "1", ⟨2, 3, 4⟩⟩, ⟨.eof, "", ⟨2, 4, 5⟩⟩]

theorem readStatement_proseTokens :
    readStatement "<input>" proseTokens =
      ⟨some (.prose "a" false ⟨"<input>", ⟨1, 1, 0⟩, ⟨1, 3, 2⟩⟩), proseTokens.drop 2, []⟩ := by
  have hprose : readStatement "<input>" proseTokens = readProse "<input>" proseTokens := rfl
  have hrun : readRun [] false true proseTokens = ⟨["\n", "a"], false, false, proseTokens.drop 2⟩ := by cbv
  have htext : Text.strip (String.join ["\n", "a"].reverse) = "a" := by decide +kernel
  rw [hprose, readProse, hrun, htext]
  rfl

theorem reads_proseTokens :
    Reads "<input>" false proseTokens
      [.prose "a" false ⟨"<input>", ⟨1, 1, 0⟩, ⟨1, 3, 2⟩⟩, .param "b" "1" ⟨"<input>", ⟨2, 1, 2⟩, ⟨2, 4, 5⟩⟩]
      [⟨.eof, "", ⟨2, 4, 5⟩⟩] [] := by
  have hparam : readStatement "<input>" (proseTokens.drop 2) =
      ⟨some (.param "b" "1" ⟨"<input>", ⟨2, 1, 2⟩, ⟨2, 4, 5⟩⟩), proseTokens.drop 5, []⟩ := by cbv
  have hnone : header? proseTokens = none ∧ header? (proseTokens.drop 2) = none := ⟨by cbv, by cbv⟩
  have hend : Reads "<input>" false (proseTokens.drop 5) [] (proseTokens.drop 5) [] := .done rfl (.inl rfl)
  exact .first rfl hnone.1 readStatement_proseTokens (.first rfl hnone.2 hparam hend)

theorem prose_ends_param :
    (parseSource "<input>" "a\nb=1").problems = [] ∧
      (parseSource "<input>" "a\nb=1").document.children =
        [.prose "a" false ⟨"<input>", ⟨1, 1, 0⟩, ⟨1, 3, 2⟩⟩,
          .param "b" "1" ⟨"<input>", ⟨2, 1, 2⟩, ⟨2, 4, 5⟩⟩] ∧
      (Statement.param "b" "1" ⟨"<input>", ⟨2, 1, 2⟩, ⟨2, 4, 5⟩⟩).isFree = false := by
  have htokens : tokenize "a\nb=1" = ⟨proseTokens, []⟩ := by cbv
  obtain ⟨hchildren, hproblems⟩ := reads_proseTokens.parseSource_eq htokens
  have hsplit : (Node.document (parseSource "<input>" "a\nb=1").document).children =
      [] ++ .prose "a" false ⟨"<input>", ⟨1, 1, 0⟩, ⟨1, 3, 2⟩⟩ ::
        .param "b" "1" ⟨"<input>", ⟨2, 1, 2⟩, ⟨2, 4, 5⟩⟩ :: [] := hchildren
  exact ⟨hproblems, hchildren, prose_ends hproblems .root hsplit⟩

end SpecTree.Spec
