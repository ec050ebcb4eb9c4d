import SpecTree.Proofs.Spec.Origin
import SpecTree.Proofs.Spec.Progress

/-!
# Every statement has tokens of its own

1. `Makes`: the tokens that one statement is made of. Its range is the one that they span (`Makes.span_eq`).
2. `Row`: statements in a row stand one behind another in the tokens. What is read is such a row
   (`Reads.row`), whatever was passed over and whatever blocks without a header it comes from.
3. `Document.Holds`: the nodes of a document at any depth. Each is made of tokens of the file
   (`exists_makes_of_holds`), and those inside of it stand in a row (`exists_row_of_holds`).
-/

namespace SpecTree.Spec

variable {file : String} {problems : List Diagnostic}

theorem StopsBy.suffix {ts rest : List Token} (h : StopsBy ts rest) : rest <:+ ts := by
  obtain ⟨n, -, rfl⟩ := h
  exact List.drop_suffix n ts

/-! ## One statement -/

/-- The tokens of `ts` before `rest` make up the statement, and what is wrong inside of it is among the
problems. -/
inductive Makes (file : String) (problems : List Diagnostic) :
    List Token → Statement → List Token → Prop
  | module {ts body middle : List Token} {header : Header} {children : List Statement}
      {found : List Diagnostic} (hm : header? ts = some (header, body))
      (inside : Reads file true body children middle found) (hf : found ⊆ problems) :
      Makes file problems ts
        (.module header children (spanBetween file ts (closeBrace file middle).rest))
        (closeBrace file middle).rest
  | single {ts : List Token} {s : Statement}
      (hk : nextKind ts ≠ .eof ∧ nextKind ts ≠ .braceOpen ∧ nextKind ts ≠ .braceClose)
      (hv : (readStatement file ts).value = some s) :
      Makes file problems ts s (readStatement file ts).rest

/-- Every reader gives the range of what it takes. -/
theorem readStatement_span {ts : List Token} {s : Statement} (h : (readStatement file ts).value = some s) :
    s.span = spanBetween file ts (readStatement file ts).rest := by
  rcases readStatement_cases h with ⟨t, rest, -, hr⟩ | hr | hr | hr <;> rw [hr] at h ⊢
  · cases h
    rfl
  · obtain ⟨path, rfl⟩ := readInclude_value h
    rfl
  · obtain ⟨name, value, rfl⟩ := readParam_value h
    rfl
  · rw [readProse_value h, readProse_rest]
    split <;> rfl

theorem readStatement_children {ts : List Token} {s : Statement}
    (h : (readStatement file ts).value = some s) : s.children = [] := by
  cases s with
  | module => exact absurd h readStatement_ne_module
  | prose | constraint | inclusion | param | comment => rfl

namespace Makes

variable {ts rest : List Token} {s : Statement}

theorem span_eq (h : Makes file problems ts s rest) : s.span = spanBetween file ts rest := by
  cases h with
  | module => rfl
  | single _ hv => exact readStatement_span hv

theorem stopsBy (h : Makes file problems ts s rest) : StopsBy ts rest := by
  cases h with
  | module hm inside =>
    exact (header?_stopsBy hm).trans (inside.stopsBy.trans (closeBrace_stopsBy file _))
  | single => exact readStatement_stopsBy file ts

/-- A statement is made of a token at least. -/
theorem length_lt (h : Makes file problems ts s rest) : rest.length < ts.length := by
  cases h with
  | @module body middle _ _ _ hm inside =>
    calc (closeBrace file middle).rest.length ≤ middle.length := closeBrace_length file middle
      _ ≤ body.length := inside.stopsBy.suffix.length_le
      _ < ts.length := header?_length hm
  | single hk =>
    cases ts with
    | nil => exact absurd rfl hk.1
    | cons t ts => exact Nat.lt_succ_of_le (readStatement_rest_length file t ts hk)

end Makes

/-! ## Statements in a row -/

/-- The statements stand in a row in the tokens of `ts` before `after`. -/
inductive Row (file : String) (problems : List Diagnostic) :
    List Token → List Statement → List Token → Prop
  | nil {ts after : List Token} (h : StopsBy ts after) : Row file problems ts [] after
  | cons {ts ahead rest after : List Token} {s : Statement} {later : List Statement}
      (h : StopsBy ts ahead) (made : Makes file problems ahead s rest)
      (there : Row file problems rest later after) : Row file problems ts (s :: later) after

namespace Row

variable {ts middle after : List Token} {out later : List Statement}

/-- Tokens may be passed over in front of a row. -/
theorem skip_front (h : Row file problems middle out after) (hs : StopsBy ts middle) :
    Row file problems ts out after := by
  cases h with
  | nil h => exact .nil (hs.trans h)
  | cons h made there => exact .cons (hs.trans h) made there

theorem append (h : Row file problems ts out middle) (k : Row file problems middle later after) :
    Row file problems ts (out ++ later) after := by
  induction h with
  | nil h => exact k.skip_front h
  | cons h made _ ih => exact .cons h made (ih k)

/-- Tokens may be passed over at the end of a row. -/
theorem skip_back (h : Row file problems ts out middle) (hs : StopsBy middle after) :
    Row file problems ts out after := by
  have := h.append (.nil hs)
  rwa [List.append_nil] at this

theorem stopsBy (h : Row file problems ts out after) : StopsBy ts after := by
  induction h with
  | nil h => exact h
  | cons h made _ ih => exact h.trans (made.stopsBy.trans ih)

theorem exists_makes {s : Statement} (h : Row file problems ts out after) (hs : s ∈ out) :
    ∃ ahead rest, StopsBy ts ahead ∧ Makes file problems ahead s rest ∧ StopsBy rest after := by
  induction h with
  | nil => cases hs
  | cons h made there ih =>
    rcases List.mem_cons.1 hs with rfl | hs
    · exact ⟨_, _, h, made, there.stopsBy⟩
    · obtain ⟨ahead, rest, hahead, made', hrest⟩ := ih hs
      exact ⟨ahead, rest, h.trans (made.stopsBy.trans hahead), made', hrest⟩

end Row

/-- **What is read stands in a row.** Stray braces and statements that came to nothing are passed over, and
the statements of a block without a header stand where the block does. -/
theorem Reads.row {nested : Bool} {ts after : List Token} {out : List Statement}
    {found : List Diagnostic} (h : Reads file nested ts out after found) (hf : found ⊆ problems) :
    Row file problems ts out after := by
  induction h with
  | done h => exact .nil (h ▸ skipLines_stopsBy _)
  | stray h hk _ ih =>
    have hahead := h ▸ skipLines_stopsBy _
    exact (ih (List.subset_of_cons_subset hf)).skip_front (hahead.trans (.tail (by simp [hk])))
  | loose h hk _ _ ihi iht =>
    have hahead := h ▸ skipLines_stopsBy _
    obtain ⟨hinner, hlater⟩ := List.append_subset.1 (List.subset_of_cons_subset hf)
    have hinner := (ihi (List.append_subset.1 hinner).1).skip_front (hahead.trans (.tail (by simp [hk])))
    exact hinner.append ((iht hlater).skip_front (closeBrace_stopsBy file _))
  | module h hm inside _ _ iht =>
    obtain ⟨hinner, hlater⟩ := List.append_subset.1 hf
    exact .cons (h ▸ skipLines_stopsBy _) (.module hm inside (List.append_subset.1 hinner).1) (iht hlater)
  | @statement _ ts ahead _ one _ _ h _ hk hr _ ih =>
    have hahead : StopsBy ts ahead := h ▸ skipLines_stopsBy _
    have hlater := ih (List.append_subset.1 hf).2
    subst hr
    cases hv : (readStatement file ahead).value with
    | none => exact hlater.skip_front (hahead.trans (readStatement_stopsBy file ahead))
    | some s => exact .cons hahead (.single ⟨hk.1, hk.2.2, hk.2.1⟩ hv) hlater

/-- The statements inside of one stand in a row in its tokens. -/
theorem Makes.row {ts rest : List Token} {s : Statement} (h : Makes file problems ts s rest) :
    Row file problems ts s.children rest := by
  cases h with
  | module hm inside hf =>
    exact ((inside.row hf).skip_front (header?_stopsBy hm)).skip_back (closeBrace_stopsBy file _)
  | single _ hv =>
    rw [readStatement_children hv]
    exact .nil (readStatement_stopsBy file ts)

/-! ## The nodes of a document -/

/-- The document itself, and what stands in it at some depth. -/
inductive Document.Holds (d : Document) : Node → Prop
  | root : d.Holds (.document d)
  | child {n : Node} {s : Statement} (h : d.Holds n) (hs : s ∈ n.children) : d.Holds (.statement s)

theorem parse_reads (file : String) (tokens : List Token) :
    ∃ after, Reads file false tokens (parse file tokens).document.children after
      (parse file tokens).problems := by
  cases tokens with
  | nil => exact ⟨[], .done rfl (.inl rfl)⟩
  | cons first rest => exact ⟨_, reads file false (first :: rest)⟩

/-- The nodes in a node stand in a row in tokens of the file. -/
theorem exists_row_of_holds {tokens : List Token} {n : Node}
    (h : (parse file tokens).document.Holds n) :
    ∃ ts rest, StopsBy tokens ts ∧ Row file (parse file tokens).problems ts n.children rest := by
  induction h with
  | root =>
    obtain ⟨after, run⟩ := parse_reads file tokens
    exact ⟨tokens, after, .refl tokens, run.row (List.Subset.refl _)⟩
  | child _ hs ih =>
    obtain ⟨ts, rest, hts, row⟩ := ih
    obtain ⟨ahead, rest', hahead, made, -⟩ := row.exists_makes hs
    exact ⟨ahead, rest', hts.trans hahead, made.row⟩

/-- **Every statement of a document is made of tokens of the file.** -/
theorem exists_makes_of_holds {tokens : List Token} {s : Statement}
    (h : (parse file tokens).document.Holds (.statement s)) :
    ∃ ts rest, StopsBy tokens ts ∧ Makes file (parse file tokens).problems ts s rest := by
  cases h with
  | child h hs =>
    obtain ⟨ts, rest, hts, row⟩ := exists_row_of_holds h
    obtain ⟨ahead, rest', hahead, made, -⟩ := row.exists_makes hs
    exact ⟨ahead, rest', hts.trans hahead, made⟩

end SpecTree.Spec
