import Mathlib.Tactic.ByContra
import SpecTree.Spec.Parser

/-!
# What reading a block does

`Reads` says how the tokens ahead become statements in a row, one rule for each way a block goes on.
The reader goes by these rules (`reads`), and they leave no choice (`Reads.unique`), so that a run of
the rules is what parsing comes to (`Reads.parseSource_eq`).
-/

namespace SpecTree.Spec

variable {file : String}

/-- The tokens become the statements and the problems, and `after` remains of them. -/
inductive Reads (file : String) :
    Bool → List Token → List Statement → List Token → List Diagnostic → Prop
  | done {nested : Bool} {ts ahead : List Token} (h : skipLines ts = ahead)
      (hk : nextKind ahead = .eof ∨ nextKind ahead = .braceClose ∧ nested = true) :
      Reads file nested ts [] ahead []
  | stray {ts ahead after : List Token} {children : List Statement} {problems : List Diagnostic}
      (h : skipLines ts = ahead) (hk : nextKind ahead = .braceClose)
      (there : Reads file false ahead.tail children after problems) :
      Reads file false ts children after (problemAt file .strayCloseBrace ahead :: problems)
  | loose {nested : Bool} {ts ahead middle after : List Token} {children later : List Statement}
      {problems found : List Diagnostic} (h : skipLines ts = ahead) (hk : nextKind ahead = .braceOpen)
      (inside : Reads file true ahead.tail children middle problems)
      (there : Reads file nested (closeBrace file middle).rest later after found) :
      Reads file nested ts (children ++ later) after (problemAt file .strayOpenBrace ahead ::
        (problems ++ (closeBrace file middle).problems ++ found))
  | module {nested : Bool} {ts ahead body middle after : List Token} {header : Header}
      {children later : List Statement} {problems found : List Diagnostic}
      (h : skipLines ts = ahead) (hm : header? ahead = some (header, body))
      (inside : Reads file true body children middle problems)
      (there : Reads file nested (closeBrace file middle).rest later after found) :
      Reads file nested ts
        (.module header children (spanBetween file ahead (closeBrace file middle).rest) :: later)
        after (problems ++ (closeBrace file middle).problems ++ found)
  | statement {nested : Bool} {ts ahead after : List Token} {one : Reading (Option Statement)}
      {later : List Statement} {found : List Diagnostic} (h : skipLines ts = ahead)
      (hm : header? ahead = none)
      (hk : nextKind ahead ≠ .eof ∧ nextKind ahead ≠ .braceClose ∧ nextKind ahead ≠ .braceOpen)
      (hr : readStatement file ahead = one) (there : Reads file nested one.rest later after found) :
      Reads file nested ts (one.value.toList ++ later) after (one.problems ++ found)

/-- **The reader goes by the rules.** -/
theorem reads (file : String) (nested : Bool) (ts : List Token) :
    Reads file nested ts (readBlock file nested ts).children (readBlock file nested ts).rest
      (readBlock file nested ts).problems := by
  fun_induction readBlock file nested ts with
  | case1 nested ts _ h => exact .done h (.inl rfl)
  | case2 nested ts _ t rest h _ he => exact .done h (.inl he)
  | case3 ts _ t rest h _ _ hc => exact .done h (.inr ⟨hc, rfl⟩)
  | case4 nested ts _ t rest h _ _ hc hn later ih =>
    simp only [Bool.not_eq_true] at hn
    subst hn
    exact .stray h hc ih
  | case5 nested ts _ t rest h _ _ _ ho inner close _ later ihi ihl ih => exact .loose h ho ihi ihl
  | case6 nested ts _ t rest h _ _ _ _ header body hm _ inner close _ later ihi ihl ih =>
    exact .module h hm ihi ihl
  | case7 nested ts _ t rest h _ he hc ho hm one _ later ih _ =>
    exact .statement h hm ⟨he, hc, ho⟩ rfl ih

/-- What stands before a module's statements, part by part. -/
theorem header?_eq_some_iff {ts body : List Token} {header : Header} :
    header? ts = some (header, body) ↔
      ∃ name rest after brace,
        (if (combinator? (nextKind ts)).isSome then skipBlanks ts.tail else ts) = name :: rest ∧
        name.kind = .identifier ∧
        readSuffixes rest = some (header.tags, header.pseudos, after) ∧
        skipInsignificant after = brace :: body ∧ brace.kind = .braceOpen ∧
        header.name = name.text ∧ header.combinator = combinator? (nextKind ts) := by
  constructor
  · intro h
    unfold header? at h
    dsimp only at h
    split at h
    · cases h
    · next name rest hs =>
      delta guard at h
      simp only [bind, Option.bind] at h
      split at h
      · cases h
      · next hk =>
        split at h
        · cases h
        · next found hr =>
          obtain ⟨tags, pseudos, after⟩ := found
          dsimp only at h
          split at h
          · cases h
          · next brace rest' hb =>
            split at h
            · cases h
            · next hbk =>
              cases h
              refine ⟨name, rest, after, brace, hs, ?_, hr, hb, ?_, rfl, rfl⟩
              · by_contra hne
                simp [hne, failure] at hk
              · by_contra hne
                simp [hne, failure] at hbk
  · rintro ⟨name, rest, after, brace, hs, hk, hr, hb, hbk, hname, hcomb⟩
    obtain ⟨_, _, _, _⟩ := header
    subst hname hcomb
    unfold header?
    dsimp only at hr ⊢
    rw [hs]
    delta guard
    simp [hk, hr, hb, hbk]

/-- A module begins with a name or with a combinator. -/
theorem header?_kind {ts : List Token} (h : (header? ts).isSome) :
    nextKind ts = .identifier ∨ (combinator? (nextKind ts)).isSome := by
  obtain ⟨⟨header, body⟩, hm⟩ := Option.isSome_iff_exists.1 h
  obtain ⟨name, rest, -, -, hs, hk, -⟩ := header?_eq_some_iff.1 hm
  split at hs
  · next hc => exact .inr hc
  · exact .inl (by rw [hs]; exact hk)

theorem header?_eq_none {ts : List Token}
    (h : nextKind ts = .eof ∨ nextKind ts = .braceClose ∨ nextKind ts = .braceOpen) :
    header? ts = none := by
  cases hs : header? ts with
  | none => rfl
  | some found =>
    have := @header?_kind ts (by simp [hs])
    rcases h with h | h | h <;> simp [h, combinator?] at this

/-- Nested statements end at the end token or at a closing brace, the others at the end token. -/
theorem Reads.ends {nested : Bool} {ts after : List Token} {out : List Statement}
    {problems : List Diagnostic} (h : Reads file nested ts out after problems) :
    nextKind after = .eof ∨ nextKind after = .braceClose ∧ nested = true := by
  induction h with
  | done h hk => exact hk
  | stray _ _ _ ih => exact ih.imp_right fun hk => absurd hk.2 (by simp)
  | loose _ _ _ _ _ ih | module _ _ _ _ _ ih | statement _ _ _ _ _ ih => exact ih

theorem Reads.unique {nested : Bool} {ts after after' : List Token} {out out' : List Statement}
    {problems problems' : List Diagnostic} (h : Reads file nested ts out after problems)
    (k : Reads file nested ts out' after' problems') :
    out' = out ∧ after' = after ∧ problems' = problems := by
  induction h generalizing out' after' problems' with
  | done h hk =>
    subst h
    cases k with
    | done h' => exact ⟨rfl, h'.symm, rfl⟩
    | stray h' hk' => subst h'; simp [hk'] at hk
    | loose h' hk' => subst h'; simp [hk'] at hk
    | module h' hm' =>
      subst h'
      rw [header?_eq_none (hk.imp_right fun hk => .inl hk.1)] at hm'
      cases hm'
    | statement h' _ hk' => subst h'; exact absurd hk (by simp [hk'.1, hk'.2.1])
  | stray h hk _ ih =>
    subst h
    cases k with
    | done h' hk' => subst h'; simp [hk] at hk'
    | stray h' _ there =>
      subst h'
      obtain ⟨rfl, rfl, rfl⟩ := ih there
      exact ⟨rfl, rfl, rfl⟩
    | loose h' hk' => subst h'; simp [hk'] at hk
    | module h' hm' => subst h'; simp [header?_eq_none (.inr (.inl hk))] at hm'
    | statement h' _ hk' => subst h'; exact absurd hk hk'.2.1
  | loose h hk _ _ ihi iht =>
    subst h
    cases k with
    | done h' hk' => subst h'; simp [hk] at hk'
    | stray h' hk' => subst h'; simp [hk'] at hk
    | loose h' _ inside there =>
      subst h'
      obtain ⟨rfl, rfl, rfl⟩ := ihi inside
      obtain ⟨rfl, rfl, rfl⟩ := iht there
      exact ⟨rfl, rfl, rfl⟩
    | module h' hm' => subst h'; simp [header?_eq_none (.inr (.inr hk))] at hm'
    | statement h' _ hk' => subst h'; exact absurd hk hk'.2.2
  | module h hm _ _ ihi iht =>
    subst h
    cases k with
    | done h' hk' =>
      subst h'
      simp [header?_eq_none (hk'.imp_right fun hk => .inl hk.1)] at hm
    | stray h' hk' => subst h'; simp [header?_eq_none (.inr (.inl hk'))] at hm
    | loose h' hk' => subst h'; simp [header?_eq_none (.inr (.inr hk'))] at hm
    | module h' hm' inside there =>
      subst h'
      cases hm.symm.trans hm'
      obtain ⟨rfl, rfl, rfl⟩ := ihi inside
      obtain ⟨rfl, rfl, rfl⟩ := iht there
      exact ⟨rfl, rfl, rfl⟩
    | statement h' hm' => subst h'; simp [hm] at hm'
  | statement h hm hk hr _ ih =>
    subst h hr
    cases k with
    | done h' hk' => subst h'; exact absurd hk' (by simp [hk.1, hk.2.1])
    | stray h' hk' => subst h'; exact absurd hk' hk.2.1
    | loose h' hk' => subst h'; exact absurd hk' hk.2.2
    | module h' hm' => subst h'; simp [hm] at hm'
    | statement h' _ _ hr' there =>
      subst h' hr'
      obtain ⟨rfl, rfl, rfl⟩ := ih there
      exact ⟨rfl, rfl, rfl⟩

/-- A run of the rules is what parsing comes to. -/
theorem Reads.parseSource_eq {source : String} {tokens after : List Token} {errors : List LexError}
    {out : List Statement} {problems : List Diagnostic} (ht : tokenize source = ⟨tokens, errors⟩)
    (h : Reads file false tokens out after problems) :
    (parseSource file source).document.children = out ∧
      (parseSource file source).problems = errors.map (·.diagnostic file) ++ problems := by
  unfold parseSource parse
  rw [ht]
  dsimp only
  split
  · obtain ⟨rfl, -, rfl⟩ := h.unique (.done rfl (.inl rfl))
    exact ⟨rfl, rfl⟩
  · obtain ⟨hc, -, hp⟩ := h.unique (reads file false _)
    exact ⟨hc, by rw [hp]⟩

/-- A text that holds one statement. -/
theorem parseSource_one {source : String} {tokens : List Token} {s : Statement} {p : Position}
    (ht : tokenize source = ⟨tokens, []⟩) (hs : skipLines tokens = tokens) (hm : header? tokens = none)
    (hk : nextKind tokens ≠ .eof ∧ nextKind tokens ≠ .braceClose ∧ nextKind tokens ≠ .braceOpen)
    (hr : readStatement file tokens = ⟨some s, [⟨.eof, "", p⟩], []⟩) :
    (parseSource file source).document.children = [s] ∧ (parseSource file source).problems = [] := by
  have rest : Reads file false [⟨.eof, "", p⟩] [] [⟨.eof, "", p⟩] [] := .done rfl (.inl rfl)
  exact (Reads.statement hs hm hk hr rest).parseSource_eq ht

end SpecTree.Spec
