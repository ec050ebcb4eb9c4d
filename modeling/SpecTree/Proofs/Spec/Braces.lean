import SpecTree.Proofs.Spec.Origin
import SpecTree.Proofs.Spec.Taking
import SpecTree.Proofs.Spec.Tiling

/-!
# Braces and their diagnostics

A missing closing brace is reported once for each opening brace that has no partner, and a stray closing
brace once for each closing brace that has none (`brace_reports`), as long as no module header has a
closing brace among its arguments (`HeadersKeepBraces`). The reader of arguments passes over such a brace,
and the block whose end it was then has none (`argumentBrace_not_reported`).

The induction over `Reads` carries the braces that wait for a partner: those of a nested block may be closed
by it, and nothing waits while the statements of a file are read, unless the end is reached.
-/

namespace SpecTree.Spec

variable {file : String}

/-! ## Pairing -/

/-- Braces without a partner: the opening ones, the last one first, and the closing ones. -/
structure Braces where
  opening : List Token := []
  closing : List Token := []

namespace Braces

/-- A closing brace is the partner of the last opening brace that has none yet. -/
def meet (b : Braces) (t : Token) : Braces :=
  match t.kind, b.opening with
  | .braceOpen, opening => { b with opening := t :: opening }
  | .braceClose, _ :: opening => { b with opening }
  | .braceClose, [] => { b with closing := t :: b.closing }
  | _, _ => b

theorem meet_open (b : Braces) {t : Token} (h : t.kind = .braceOpen) :
    b.meet t = { b with opening := t :: b.opening } := by
  unfold meet
  rw [h]

theorem meet_close_nil {b : Braces} {t : Token} (h : t.kind = .braceClose) (hb : b.opening = []) :
    b.meet t = { b with closing := t :: b.closing } := by
  unfold meet
  rw [h, hb]

theorem meet_close_cons {b : Braces} {t o : Token} {opening : List Token} (h : t.kind = .braceClose)
    (hb : b.opening = o :: opening) : b.meet t = { b with opening } := by
  unfold meet
  rw [h, hb]

theorem meet_other (b : Braces) {t : Token} (h : t.kind ≠ .braceOpen ∧ t.kind ≠ .braceClose) :
    b.meet t = b := by
  unfold meet
  split
  · exact absurd ‹_› h.1
  · exact absurd ‹_› h.2
  · exact absurd ‹_› h.2
  · rfl

end Braces

/-- The braces among the tokens that have no partner. -/
def unmatched (ts : List Token) : Braces := ts.foldl Braces.meet {}

/-- The tokens of `ts` before `rest` leave `b'` of the braces `b`. -/
def Leaves (b : Braces) (ts : List Token) (b' : Braces) (rest : List Token) : Prop :=
  ∃ taken, ts = taken ++ rest ∧ taken.foldl Braces.meet b = b'

section

variable {b b' b'' : Braces} {ts middle rest : List Token}

theorem Leaves.trans (h : Leaves b ts b' middle) (k : Leaves b' middle b'' rest) : Leaves b ts b'' rest := by
  obtain ⟨before, rfl, rfl⟩ := h
  obtain ⟨taken, rfl, rfl⟩ := k
  exact ⟨before ++ taken, (List.append_assoc ..).symm, List.foldl_append⟩

theorem Leaves.tail {t : Token} (b : Braces) (h : ts = t :: rest) : Leaves b ts (b.meet t) rest :=
  ⟨[t], h, rfl⟩

theorem Leaves.suffix (h : Leaves b ts b' rest) : rest <:+ ts := by
  obtain ⟨taken, rfl, -⟩ := h
  exact List.suffix_append taken rest

/-- The braces wait on while other tokens are taken. -/
theorem Takes.leaves (h : Takes isInner ts rest) (b : Braces) : Leaves b ts b rest := by
  obtain ⟨taken, rfl, ht⟩ := h
  refine ⟨taken, rfl, ?_⟩
  induction taken with
  | nil => rfl
  | cons t taken ih =>
    obtain ⟨hkind, ht⟩ := List.forall_mem_cons.1 ht
    have hother : t.kind ≠ .braceOpen ∧ t.kind ≠ .braceClose := by
      constructor <;> intro hk <;> rw [hk] at hkind <;> cases hkind
    rw [List.foldl_cons, b.meet_other hother]
    exact ih ht

end

/-! ## Headers -/

/-- No closing brace stands in a stretch of the tokens that reads as a module header. -/
def HeadersKeepBraces (tokens : List Token) : Prop :=
  ∀ ts header body, ts <:+ tokens → header? ts = some (header, body) →
    ∀ t ∈ ts.take (ts.length - body.length), t.kind ≠ .braceClose

/-- Looks for such a stretch from every token on. -/
def keepsBraces : List Token → Bool
  | [] => true
  | t :: ts =>
    (match header? (t :: ts) with
      | none => true
      | some (_, body) =>
        ((t :: ts).take ((t :: ts).length - body.length)).all (·.kind != .braceClose)) && keepsBraces ts

theorem keepsBraces_iff (tokens : List Token) : keepsBraces tokens = true ↔ HeadersKeepBraces tokens := by
  induction tokens with
  | nil =>
    refine ⟨fun _ ts header body hs hm => ?_, fun _ => rfl⟩
    rw [List.suffix_nil.1 hs] at hm
    cases hm
  | cons t rest ih =>
    rw [keepsBraces, Bool.and_eq_true, ih]
    constructor
    · rintro ⟨hhead, htail⟩ ts header body hs hm
      rcases List.suffix_cons_iff.1 hs with rfl | hs
      · simpa [hm] using hhead
      · exact htail ts header body hs hm
    · intro h
      refine ⟨?_, fun ts header body hs => h ts header body (hs.trans (List.suffix_cons t rest))⟩
      split
      · rfl
      · next header body hm => simpa using h _ header body (List.suffix_refl _) hm

instance (tokens : List Token) : Decidable (HeadersKeepBraces tokens) :=
  decidable_of_iff _ (keepsBraces_iff tokens)

theorem HeadersKeepBraces.mono {ts tokens : List Token} (h : HeadersKeepBraces tokens) (hs : ts <:+ tokens) :
    HeadersKeepBraces ts :=
  fun us header body hsuffix => h us header body (hsuffix.trans hs)

/-- The opening brace of the module is the only brace of such a header. -/
theorem header?_leaves {ts body : List Token} {header : Header} (h : HeadersKeepBraces ts)
    (hm : header? ts = some (header, body)) (b : Braces) :
    ∃ brace, brace.kind = .braceOpen ∧ Leaves b ts (b.meet brace) body := by
  have hkeeps := h ts header body (List.suffix_refl ts) hm
  obtain ⟨brace, hbrace, taken, rfl, ht⟩ := header?_takes hm
  have htaken : taken <+: (taken ++ brace :: body).take ((taken ++ brace :: body).length - body.length) :=
    List.prefix_of_prefix_length_le (List.prefix_append ..) (List.take_prefix ..) (by simp; omega)
  have hinner : Takes isInner (taken ++ brace :: body) (brace :: body) := by
    refine ⟨taken, rfl, fun t hmem => ?_⟩
    have hhead := ht t hmem
    have hclose := hkeeps t (htaken.mem hmem)
    simp only [isHead, isInner, Bool.and_eq_true, bne_iff_ne] at hhead ⊢
    exact ⟨hhead, hclose⟩
  exact ⟨brace, hbrace, (hinner.leaves b).trans (.tail b rfl)⟩

/-! ## Reports -/

/-- How many of the diagnostics are of this severity and have this message. -/
def reports (severity : Severity) (message : String) (ds : List Diagnostic) : Nat :=
  ds.countP fun d => d.severity = severity ∧ d.message = message

/-- A problem counts by its own severity and message, wherever it is shown. -/
theorem reports_problemAt (severity : Severity) (message : String) (problem : Problem) (ts : List Token) :
    reports severity message [problemAt file problem ts] =
      if problem.severity = severity ∧ problem.message = message then 1 else 0 := by
  rw [reports, List.countP_singleton]
  exact if_congr (by cases ts <;> exact decide_eq_true_iff) rfl rfl

/-- The reports of a missing closing brace. -/
def missingBraces (ds : List Diagnostic) : Nat := reports .error "Expected '\x7d'" ds

/-- The reports of a stray closing brace. -/
def strayBraces (ds : List Diagnostic) : Nat := reports .warning "Unexpected '\x7d'" ds

theorem missingBraces_append (ds ds' : List Diagnostic) :
    missingBraces (ds ++ ds') = missingBraces ds + missingBraces ds' := List.countP_append

theorem strayBraces_append (ds ds' : List Diagnostic) :
    strayBraces (ds ++ ds') = strayBraces ds + strayBraces ds' := List.countP_append

/-- The message about a parameter is longer than those about a brace. -/
theorem missingValue_message_length (parameter : String) :
    30 ≤ (Problem.missingValue parameter).message.length := by
  change 30 ≤ ("Expected value for parameter '" ++ parameter ++ "'").length
  have hfront : "Expected value for parameter '".length = 30 := by decide
  rw [String.length_append, String.length_append, hfront]
  omega

/-- Only blocks report a brace. -/
theorem readStatement_reports (file : String) (ts : List Token) :
    missingBraces (readStatement file ts).problems = 0 ∧ strayBraces (readStatement file ts).problems = 0 := by
  rcases readStatement_problems_eq file ts with h | ⟨problem, shown, h, hproblem⟩
  · rw [h]
    exact ⟨rfl, rfl⟩
  have hmessage : problem.message ≠ "Expected '\x7d'" := by
    rcases hproblem with rfl | ⟨parameter, rfl⟩
    · decide
    · intro he
      have hlong := missingValue_message_length parameter
      rw [he] at hlong
      exact absurd hlong (by decide)
  have hseverity : problem.severity ≠ .warning := by
    rcases hproblem with rfl | ⟨parameter, rfl⟩ <;> simp [Problem.severity]
  rw [h]
  exact ⟨(reports_problemAt ..).trans (if_neg fun hm => hmessage hm.2),
    (reports_problemAt ..).trans (if_neg fun hm => hseverity hm.1)⟩

/-! ## Blocks -/

theorem skipLines_of_eof {ts : List Token} (h : nextKind ts = .eof) : skipLines ts = ts := by
  cases ts with
  | nil => rfl
  | cons t ts =>
    have ht : t.kind = .eof := h
    simp [skipLines, skipKinds, ht]

/-- Nothing is read at the end token. -/
theorem Reads.after_of_eof {nested : Bool} {ts after : List Token} {out : List Statement}
    {problems : List Diagnostic} (h : Reads file nested ts out after problems) (hk : nextKind ts = .eof) :
    after = ts :=
  (h.unique (.done (skipLines_of_eof hk) (.inl hk))).2.1.symm

theorem exists_cons_of_nextKind {ts : List Token} {k : TokenKind} (h : nextKind ts = k) (hk : k ≠ .eof) :
    ∃ t, ts = t :: ts.tail ∧ t.kind = k := by
  cases ts with
  | nil => exact absurd h.symm hk
  | cons t ts => exact ⟨t, rfl, h⟩

/-- From `ts` to `after`, as many opening braces are left as closing ones are reported missing, and as many
closing braces as are reported stray; only at the end is one missing. -/
def Settles (b : Braces) (ts after : List Token) (problems : List Diagnostic) : Prop :=
  ∃ b', Leaves b ts b' after ∧
    b'.opening.length = b.opening.length + missingBraces problems ∧
    b'.closing.length = b.closing.length + strayBraces problems ∧
    (missingBraces problems = 0 ∨ nextKind after = .eof)

/-- Outside of all blocks no opening brace waits, unless the end is reached. -/
def IsReady (nested : Bool) (b : Braces) (ts : List Token) : Prop :=
  nested = true ∨ b.opening = [] ∨ nextKind ts = .eof

section

variable {nested : Bool} {b : Braces} {ts middle after body : List Token}
  {problems found : List Diagnostic} {children later : List Statement}

theorem Leaves.settles (h : Leaves b ts b middle) (k : Settles b middle after problems) :
    Settles b ts after problems := by
  obtain ⟨b', hleaves, hcounts⟩ := k
  exact ⟨b', h.trans hleaves, hcounts⟩

theorem Settles.of_skipLines (hk : HeadersKeepBraces ts) (hb : IsReady nested b ts)
    (k : HeadersKeepBraces (skipLines ts) → IsReady nested b (skipLines ts) →
      Settles b (skipLines ts) after problems) : Settles b ts after problems := by
  refine ((skipLines_takes ts).leaves b).settles (k (hk.mono (skipLines_takes ts).suffix) ?_)
  refine hb.imp_right (Or.imp_right fun h => ?_)
  rw [skipLines_of_eof h, h]

/-- Problems that are not about a closing brace do not count. -/
theorem Settles.unrelated (h : Settles b ts after found) (ds : List Diagnostic)
    (hm : missingBraces ds = 0) (hs : strayBraces ds = 0) : Settles b ts after (ds ++ found) := by
  simpa only [Settles, missingBraces_append, strayBraces_append, hm, hs, Nat.zero_add] using h

theorem Settles.trans (h : Settles b ts middle problems) (hts : nextKind ts ≠ .eof)
    (hk : HeadersKeepBraces ts) (hb : IsReady nested b ts) (there : Reads file nested middle later after found)
    (k : HeadersKeepBraces middle → ∀ {b'}, IsReady nested b' middle → Settles b' middle after found) :
    Settles b ts after (problems ++ found) := by
  obtain ⟨b', hleaves, ho, hc, hm⟩ := h
  have hready : IsReady nested b' middle := by
    refine hb.imp_right fun hb => hm.imp (fun hm => ?_) id
    rw [hb.resolve_right hts, hm] at ho
    exact List.length_eq_zero_iff.1 ho
  obtain ⟨b'', hleaves', ho', hc', hm'⟩ := k (hk.mono hleaves.suffix) hready
  refine ⟨b'', hleaves.trans hleaves', ?_, ?_, ?_⟩
  · rw [ho', ho, missingBraces_append, Nat.add_assoc]
  · rw [hc', hc, strayBraces_append, Nat.add_assoc]
  · rcases hm with hm | hm
    · rw [missingBraces_append, hm, Nat.zero_add]
      exact hm'
    · exact .inr (there.after_of_eof hm ▸ hm)

/-- A closing brace while no opening one waits. -/
theorem Settles.strayBrace (hk : nextKind ts = .braceClose) (hb : b.opening = []) :
    Settles b ts ts.tail [problemAt file .strayCloseBrace ts] := by
  obtain ⟨brace, hts, hbrace⟩ := exists_cons_of_nextKind hk (by simp)
  have hmissing : missingBraces [problemAt file .strayCloseBrace ts] = 0 := reports_problemAt ..
  have hstray : strayBraces [problemAt file .strayCloseBrace ts] = 1 := reports_problemAt ..
  refine ⟨b.meet brace, .tail b hts, ?_, ?_, .inl hmissing⟩
  · rw [Braces.meet_close_nil hbrace hb, hmissing]
    rfl
  · rw [Braces.meet_close_nil hbrace hb, hstray]
    rfl

/-- A block whose opening brace was just taken, with its closing brace; at the end that one is missing. -/
theorem Settles.closeBrace {brace : Token} (hbrace : brace.kind = .braceOpen)
    (h : Leaves b ts (b.meet brace) body) (k : Settles (b.meet brace) body middle problems)
    (hend : nextKind middle = .eof ∨ nextKind middle = .braceClose) :
    Settles b ts (closeBrace file middle).rest (problems ++ (closeBrace file middle).problems) := by
  obtain ⟨b', hleaves, ho, hc, hm⟩ := k
  rw [b.meet_open hbrace] at ho hc
  rw [List.length_cons] at ho
  have hto := h.trans hleaves
  rcases hend with hk | hk
  · have hclose : Spec.closeBrace file middle = ⟨(), middle, [problemAt file .missingBrace middle]⟩ := by
      simp [Spec.closeBrace, hk]
    have hmissing : missingBraces [problemAt file .missingBrace middle] = 1 := reports_problemAt ..
    have hstray : strayBraces [problemAt file .missingBrace middle] = 0 := reports_problemAt ..
    rw [hclose]
    refine ⟨b', hto, ?_, ?_, .inr hk⟩
    · rw [ho, missingBraces_append, hmissing]
      omega
    · rw [hc, strayBraces_append, hstray]
      rfl
  · obtain ⟨close, hmiddle, hclose⟩ := exists_cons_of_nextKind hk (by simp)
    have hrest : Spec.closeBrace file middle = ⟨(), middle.tail, []⟩ := by simp [Spec.closeBrace, hk]
    have hm : missingBraces problems = 0 := hm.resolve_right (by simp [hk])
    obtain ⟨o, opening, hb⟩ := List.exists_cons_of_length_pos (l := b'.opening) (by omega)
    rw [hb, List.length_cons, hm] at ho
    rw [hrest, List.append_nil]
    refine ⟨b'.meet close, hto.trans (.tail b' hmiddle), ?_, ?_, .inl hm⟩
    · rw [Braces.meet_close_cons hclose hb, hm]
      exact Nat.succ.inj ho
    · rw [Braces.meet_close_cons hclose hb]
      exact hc

/-- A block, from before its opening brace on, and what follows it. -/
theorem Settles.block {brace : Token} (hts : nextKind ts ≠ .eof) (hk : HeadersKeepBraces ts)
    (hb : IsReady nested b ts) (hbrace : brace.kind = .braceOpen) (hopen : Leaves b ts (b.meet brace) body)
    (inside : Reads file true body children middle problems)
    (there : Reads file nested (Spec.closeBrace file middle).rest later after found)
    (ihi : HeadersKeepBraces body → ∀ {b'}, IsReady true b' body → Settles b' body middle problems)
    (iht : HeadersKeepBraces (Spec.closeBrace file middle).rest →
      ∀ {b'}, IsReady nested b' (Spec.closeBrace file middle).rest →
        Settles b' (Spec.closeBrace file middle).rest after found) :
    Settles b ts after (problems ++ (Spec.closeBrace file middle).problems ++ found) := by
  have hinside : Settles (b.meet brace) body middle problems := ihi (hk.mono hopen.suffix) (.inl rfl)
  exact (hinside.closeBrace hbrace hopen (inside.ends.imp_right And.left)).trans hts hk hb there iht

end

/-- **What reading a block reports of the braces that it passes.** -/
theorem Reads.settles {nested : Bool} {ts after : List Token} {out : List Statement}
    {problems : List Diagnostic} (h : Reads file nested ts out after problems) (hk : HeadersKeepBraces ts)
    {b : Braces} (hb : IsReady nested b ts) : Settles b ts after problems := by
  induction h generalizing b with
  | done h => exact h ▸ ⟨b, (skipLines_takes _).leaves b, rfl, rfl, .inl rfl⟩
  | stray h hc there ih =>
    subst h
    refine .of_skipLines hk hb fun hk hb => ?_
    have hopening : b.opening = [] := by simpa [IsReady, hc] using hb
    exact (Settles.strayBrace hc hopening).trans (by simp [hc]) hk hb there ih
  | loose h ho inside there ihi iht =>
    subst h
    refine .of_skipLines hk hb fun hk hb => ?_
    obtain ⟨brace, hahead, hbrace⟩ := exists_cons_of_nextKind ho (by simp)
    have hblock := Settles.block (by simp [ho]) hk hb hbrace (.tail b hahead) inside there ihi iht
    exact hblock.unrelated [_] (reports_problemAt ..) (reports_problemAt ..)
  | module h hm inside there ihi iht =>
    subst h
    refine .of_skipLines hk hb fun hk hb => ?_
    obtain ⟨brace, hbrace, hopen⟩ := header?_leaves hk hm b
    refine Settles.block (fun he => ?_) hk hb hbrace hopen inside there ihi iht
    rw [header?_eq_none (.inl he)] at hm
    cases hm
  | @statement nested ts _ _ _ _ _ h hm hkind hr there ih =>
    subst h hr
    refine .of_skipLines hk hb fun hk hb => ?_
    have htaken := readStatement_takes file (skipLines ts)
    have hreports := readStatement_reports file (skipLines ts)
    refine (htaken.leaves b).settles (.unrelated (ih (hk.mono htaken.suffix) ?_) _ hreports.1 hreports.2)
    exact hb.imp_right fun hb => .inl (hb.resolve_right hkind.1)

/-! ## Documents -/

/-- What remains at the only end token holds no brace. -/
theorem Leaves.unmatched_eq {tokens rest : List Token} {b : Braces} (h : Leaves {} tokens b rest)
    (hk : nextKind rest = .eof) (honly : ∀ t ∈ tokens.dropLast, t.kind ≠ .eof) : unmatched tokens = b := by
  obtain ⟨taken, rfl, rfl⟩ := h
  match rest with
  | [] => rw [List.append_nil, unmatched]
  | [last] =>
    have hlast : last.kind = .eof := hk
    rw [unmatched, List.foldl_append, List.foldl_cons, List.foldl_nil, Braces.meet_other]
    simp [hlast]
  | t :: u :: rest => exact absurd hk (honly t (by simp))

theorem parse_problems (file : String) (tokens : List Token) :
    (parse file tokens).problems = (readBlock file false tokens).problems := by
  cases tokens with
  | nil => exact ((reads file false []).unique (.done rfl (.inl rfl))).2.2
  | cons first rest => rfl

theorem tokenize_eof_last (source : String) :
    ∀ t ∈ (tokenize source).tokens.dropLast, t.kind ≠ .eof := by
  obtain ⟨ps, htokens, -, hpieces⟩ := exists_pieces none .origin source.toList
  rw [tokenize, htokens, placed_append, placed_cons, placed_nil, List.dropLast_concat]
  intro t ht
  obtain ⟨q, hq, hk, -⟩ := exists_piece ht
  exact hk ▸ (hpieces q hq).1

/-- **The reports about closing braces are those that the braces call for.** When the braces among the tokens
of a text are paired, a closing brace is reported missing as often as an opening brace has no partner, and a
closing brace is reported stray as often as one has none, if no module header keeps a closing brace among
its arguments. -/
theorem brace_reports (file source : String) (h : HeadersKeepBraces (tokenize source).tokens) :
    ((parse file (tokenize source).tokens).problems.countP fun d =>
        d.severity = .error ∧ d.message = "Expected '\x7d'") =
      (unmatched (tokenize source).tokens).opening.length ∧
    ((parse file (tokenize source).tokens).problems.countP fun d =>
        d.severity = .warning ∧ d.message = "Unexpected '\x7d'") =
      (unmatched (tokenize source).tokens).closing.length := by
  have run := reads file false (tokenize source).tokens
  obtain ⟨b, hleaves, ho, hc, -⟩ := run.settles h (b := {}) (.inr (.inl rfl))
  have hend : nextKind _ = .eof := run.ends.resolve_right (by simp)
  rw [hleaves.unmatched_eq hend (tokenize_eof_last source), parse_problems, ho, hc]
  exact ⟨(Nat.zero_add _).symm, (Nat.zero_add _).symm⟩

theorem brace_reports_both :
    HeadersKeepBraces (tokenize "\x7da:b(c)\x7b").tokens ∧
    ((parse "<input>" (tokenize "\x7da:b(c)\x7b").tokens).problems.countP fun d =>
        d.severity = .error ∧ d.message = "Expected '\x7d'") = 1 ∧
    ((parse "<input>" (tokenize "\x7da:b(c)\x7b").tokens).problems.countP fun d =>
        d.severity = .warning ∧ d.message = "Unexpected '\x7d'") = 1 := by
  have hkeeps : HeadersKeepBraces (tokenize "\x7da:b(c)\x7b").tokens := (keepsBraces_iff _).1 (by cbv)
  obtain ⟨ho, hc⟩ := brace_reports "<input>" "\x7da:b(c)\x7b" hkeeps
  exact ⟨hkeeps, ho.trans (by cbv), hc.trans (by cbv)⟩

/-- A module in `s` whose argument is a closing brace. -/
def argumentBrace : List Token := (tokenize "s\x7ba:b(\x7d)\x7b\x7d").tokens

theorem reads_argumentBrace :
    ∃ children after problems, Reads "<input>" false argumentBrace children after problems ∧
      missingBraces problems = 1 := by
  have hend (nested : Bool) : Reads "<input>" nested (argumentBrace.drop 10) [] (argumentBrace.drop 10) [] :=
    .done (by cbv) (.inl (by cbv))
  have hblock : Reads "<input>" true (argumentBrace.drop 9) [] (argumentBrace.drop 9) [] :=
    .done (by cbv) (.inr ⟨by cbv, rfl⟩)
  have hclose : closeBrace "<input>" (argumentBrace.drop 9) = ⟨(), argumentBrace.drop 10, []⟩ := by cbv
  have hmissing : closeBrace "<input>" (argumentBrace.drop 10) =
      ⟨(), argumentBrace.drop 10, [problemAt "<input>" .missingBrace (argumentBrace.drop 10)]⟩ := by cbv
  have hinner : header? (argumentBrace.drop 2) =
      some (⟨"a", [], [⟨"b", ["\x7d"]⟩], none⟩, argumentBrace.drop 9) := by cbv
  have houter : header? argumentBrace = some (⟨"s", [], [], none⟩, argumentBrace.drop 2) := by cbv
  have hafter : Reads "<input>" true (closeBrace "<input>" (argumentBrace.drop 9)).rest []
      (argumentBrace.drop 10) [] := by
    rw [hclose]
    exact hend true
  have hlast : Reads "<input>" false (closeBrace "<input>" (argumentBrace.drop 10)).rest []
      (argumentBrace.drop 10) [] := by
    rw [hmissing]
    exact hend false
  have inside := Reads.module
    (show skipLines (argumentBrace.drop 2) = argumentBrace.drop 2 by cbv) hinner hblock hafter
  have run := Reads.module (show skipLines argumentBrace = argumentBrace by cbv) houter inside hlast
  refine ⟨_, _, _, run, ?_⟩
  rw [hclose, hmissing]
  exact reports_problemAt ..

/-- The brace in the parentheses closes `s`, yet it is read as an argument, and `s` has no closing brace. -/
theorem argumentBrace_not_reported :
    ((parse "<input>" (tokenize "s\x7ba:b(\x7d)\x7b\x7d").tokens).problems.countP fun d =>
        d.severity = .error ∧ d.message = "Expected '\x7d'") = 1 ∧
      (unmatched (tokenize "s\x7ba:b(\x7d)\x7b\x7d").tokens).opening.length = 0 := by
  obtain ⟨children, after, problems, run, hmissing⟩ := reads_argumentBrace
  obtain ⟨-, -, hproblems⟩ := (reads "<input>" false argumentBrace).unique run
  refine ⟨?_, by cbv⟩
  rw [parse_problems]
  change missingBraces (readBlock "<input>" false argumentBrace).problems = 1
  rw [← hproblems, hmissing]

end SpecTree.Spec
