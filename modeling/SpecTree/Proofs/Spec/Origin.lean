import SpecTree.Proofs.Spec.Taking

/-!
# Where a document comes from

Every character of an include's path stands in the source (`mem_source_of_mentions`), and what parsing
finds wrong is wrong with this one text: it says nothing of other files (`parseSource_problems_isLocal`).

Both are inductions over `Reads`. The first one needs that every reader gives back tokens that it was
given.
-/

namespace SpecTree.Spec

variable {file : String}

/-! ## The tokens that remain -/

theorem skipKinds_subset (p : TokenKind → Bool) (ts : List Token) : skipKinds p ts ⊆ ts :=
  (List.dropWhile_suffix _).subset

theorem tail_subset (ts : List Token) : ts.tail ⊆ ts :=
  (List.tail_suffix ts).subset

theorem header?_subset {ts body : List Token} {header : Header}
    (h : header? ts = some (header, body)) : body ⊆ ts := by
  obtain ⟨brace, -, htakes⟩ := header?_takes h
  exact fun _ hx => htakes.suffix.subset (List.mem_cons_of_mem brace hx)

theorem readStatement_subset (file : String) (ts : List Token) : (readStatement file ts).rest ⊆ ts :=
  (readStatement_takes file ts).suffix.subset

theorem closeBrace_subset (file : String) (ts : List Token) : (closeBrace file ts).rest ⊆ ts := by
  unfold closeBrace
  split
  · exact tail_subset ts
  · exact fun _ h => h

theorem Reads.subset {nested : Bool} {ts after : List Token} {out : List Statement}
    {problems : List Diagnostic} (h : Reads file nested ts out after problems) : after ⊆ ts := by
  induction h with
  | done h => exact h ▸ skipKinds_subset _ _
  | stray h _ _ ih => exact fun x hx => skipKinds_subset _ _ (h ▸ tail_subset _ (ih hx))
  | loose h _ _ _ ihi iht =>
    exact fun x hx => skipKinds_subset _ _ (h ▸ tail_subset _ (ihi (closeBrace_subset _ _ (iht hx))))
  | module h hm _ _ ihi iht =>
    exact fun x hx =>
      skipKinds_subset _ _ (h ▸ header?_subset hm (ihi (closeBrace_subset _ _ (iht hx))))
  | statement h _ _ hr _ ih =>
    exact fun x hx => skipKinds_subset _ _ (h ▸ readStatement_subset file _ (hr ▸ ih hx))

/-! ## What the readers give -/

theorem readInclude_value {ts : List Token} {s : Statement} (h : (readInclude file ts).value = some s) :
    ∃ path, s = .inclusion path (spanBetween file ts (readInclude file ts).rest) := by
  unfold readInclude at h ⊢
  dsimp only at h ⊢
  split at h
  · cases h
  · next hpath =>
    rw [if_neg hpath]
    exact ⟨_, (Option.some.inj h).symm⟩

theorem readParam_value {ts : List Token} {s : Statement} (h : (readParam file ts).value = some s) :
    ∃ name value, s = .param name value (spanBetween file ts (readParam file ts).rest) := by
  unfold readParam at h ⊢
  dsimp only at h ⊢
  split at h <;> exact ⟨_, _, (Option.some.inj h).symm⟩

theorem exists_param_of_readParam (file : String) (ts : List Token) :
    ∃ name value span, (readParam file ts).value = some (.param name value span) := by
  unfold readParam
  dsimp only
  split <;> exact ⟨_, _, _, rfl⟩

theorem readProse_rest (file : String) (ts : List Token) :
    (readProse file ts).rest = (readRun [] false true ts).rest := by
  unfold readProse
  dsimp only
  split
  · rfl
  · split <;> rfl

/-- The statement that a run of free text gives, if it gives one. -/
theorem readProse_value {ts : List Token} {s : Statement} (h : (readProse file ts).value = some s) :
    s = (if (readRun [] false true ts).terminated then Statement.constraint else Statement.prose)
      (Text.strip (String.join (readRun [] false true ts).parts.reverse))
      (readRun [] false true ts).important (spanBetween file ts (readRun [] false true ts).rest) := by
  unfold readProse at h
  dsimp only at h
  split at h
  · cases h
  · split at h
    · next ht => rw [if_pos ht, ← Option.some.inj h]
    · next ht => rw [if_neg ht, ← Option.some.inj h]

/-- A statement is a comment, or one of the other readers gives it. -/
theorem readStatement_cases {ts : List Token} {s : Statement}
    (h : (readStatement file ts).value = some s) :
    (∃ t rest, ts = t :: rest ∧
      readStatement file ts = ⟨some (.comment t.text (spanBetween file ts rest)), rest, []⟩) ∨
    readStatement file ts = readInclude file ts ∨ readStatement file ts = readParam file ts ∨
    readStatement file ts = readProse file ts := by
  cases ts with
  | nil => cases h
  | cons t rest =>
    rw [readStatement]
    split
    · exact .inl ⟨t, rest, rfl, rfl⟩
    split
    · exact .inr (.inl rfl)
    split
    · exact .inr (.inr (.inl rfl))
    · exact .inr (.inr (.inr rfl))

/-- A statement that is read is an include only where an include is read. -/
theorem readStatement_inclusion {ts : List Token} {path : String} {span : Span}
    (h : (readStatement file ts).value = some (.inclusion path span)) :
    (readInclude file ts).value = some (.inclusion path span) := by
  rcases readStatement_cases h with ⟨t, rest, -, hr⟩ | hr | hr | hr <;> rw [hr] at h
  · cases h
  · exact h
  · obtain ⟨_, _, hs⟩ := readParam_value h
    cases hs
  · have hs := readProse_value h
    split at hs <;> cases hs

theorem readStatement_ne_module {ts : List Token} {header : Header} {children : List Statement}
    {span : Span} : (readStatement file ts).value ≠ some (.module header children span) := by
  intro h
  rcases readStatement_cases h with ⟨t, rest, -, hr⟩ | hr | hr | hr <;> rw [hr] at h
  · cases h
  · obtain ⟨_, hs⟩ := readInclude_value h
    cases hs
  · obtain ⟨_, _, hs⟩ := readParam_value h
    cases hs
  · have hs := readProse_value h
    split at hs <;> cases hs

/-! ## The characters of a path -/

/-- Tokens hold the characters of the text and no others. -/
theorem mem_of_mem_tokenizeFrom {previous : Option Char} {p : Position} {cs : List Char} {t : Token}
    {c : Char} (ht : t ∈ (tokenizeFrom previous p cs).tokens) (hc : c ∈ t.text.toList) : c ∈ cs := by
  fun_induction tokenizeFrom previous p cs with
  | case1 previous p =>
    simp only [List.mem_singleton] at ht
    simp [ht] at hc
  | case2 previous p d cs lexeme stop later ih =>
    rw [← scan_append previous d cs]
    rcases List.mem_cons.1 ht with rfl | ht
    · rw [String.toList_ofList] at hc
      exact List.mem_append_left _ hc
    · exact List.mem_append_right _ (ih ht)

theorem mem_of_mem_replacePair {a b c : Char} {cs : List Char} (h : c ∈ replacePair a b b cs) :
    c ∈ cs := by
  fun_induction replacePair a b b cs with
  | case1 | case2 => exact h
  | case3 x y cs hxy ih =>
    rcases List.mem_cons.1 h with rfl | h
    · simp [hxy.2]
    · exact List.mem_cons_of_mem _ (List.mem_cons_of_mem _ (ih h))
  | case4 x y cs _ ih =>
    rcases List.mem_cons.1 h with rfl | h
    · exact List.mem_cons_self
    · exact List.mem_cons_of_mem _ (ih h)

theorem mem_of_mem_stripQuotes {c : Char} {cs : List Char} (h : c ∈ stripQuotes cs) : c ∈ cs := by
  unfold stripQuotes at h
  split at h
  · split at h
    · exact List.mem_cons_of_mem _ (List.dropLast_subset _ h)
    · exact List.mem_cons_of_mem _ h
  · exact h

theorem mem_of_mem_pathText {t : Token} {c : Char} (h : c ∈ (pathText t).toList) :
    c ∈ t.text.toList := by
  unfold pathText at h
  split at h
  · rw [unquote, String.toList_ofList] at h
    exact mem_of_mem_stripQuotes (mem_of_mem_replacePair (mem_of_mem_replacePair h))
  · exact h

theorem mem_of_mem_strip {c : Char} {text : String} (h : c ∈ (Text.strip text).toList) :
    c ∈ text.toList := by
  rw [Text.strip, Text.stripChars, String.toList_ofList, List.mem_reverse] at h
  have h := (List.dropWhile_suffix _).subset h
  rw [List.mem_reverse] at h
  exact (List.dropWhile_suffix _).subset h

theorem mem_of_mem_readInclude {ts : List Token} {path : String} {span : Span} {c : Char}
    (h : (readInclude file ts).value = some (.inclusion path span)) (hc : c ∈ path.toList) :
    ∃ t ∈ ts, c ∈ t.text.toList := by
  unfold readInclude at h
  dsimp only at h
  split at h
  · cases h
  · obtain ⟨rfl, -⟩ := Statement.inclusion.inj (Option.some.inj h)
    have hc := mem_of_mem_strip hc
    rw [String.toList_join, List.mem_flatMap] at hc
    obtain ⟨part, hpart, hc⟩ := hc
    obtain ⟨t, ht, rfl⟩ := List.mem_map.1 hpart
    exact ⟨t, tail_subset _ (skipKinds_subset _ _ ((List.takeWhile_prefix _).subset ht)),
      mem_of_mem_pathText hc⟩

/-! ## The paths of a document -/

/-- The statements hold an include of `path`, at some depth of modules. -/
inductive Mentions : List Statement → String → Prop
  | here {path : String} {span : Span} {statements : List Statement}
      (h : .inclusion path span ∈ statements) : Mentions statements path
  | inside {header : Header} {children statements : List Statement} {span : Span} {path : String}
      (h : .module header children span ∈ statements) (there : Mentions children path) :
      Mentions statements path

theorem not_mentions_nil (path : String) : ¬ Mentions [] path := by
  intro h
  cases h with
  | here h => cases h
  | inside h => cases h

theorem mentions_append {a b : List Statement} {path : String} :
    Mentions (a ++ b) path ↔ Mentions a path ∨ Mentions b path := by
  constructor
  · intro h
    cases h with
    | here h => exact (List.mem_append.1 h).imp .here .here
    | inside h there => exact (List.mem_append.1 h).imp (.inside · there) (.inside · there)
  · rintro (h | h)
    · cases h with
      | here h => exact .here (List.mem_append_left _ h)
      | inside h there => exact .inside (List.mem_append_left _ h) there
    · cases h with
      | here h => exact .here (List.mem_append_right _ h)
      | inside h there => exact .inside (List.mem_append_right _ h) there

theorem mentions_singleton {one : Statement} {path : String} :
    Mentions [one] path ↔
      (∃ span, one = .inclusion path span) ∨
        ∃ header children span, one = .module header children span ∧ Mentions children path := by
  constructor
  · intro h
    cases h with
    | here h => exact .inl ⟨_, (List.mem_singleton.1 h).symm⟩
    | inside h there => exact .inr ⟨_, _, _, (List.mem_singleton.1 h).symm, there⟩
  · rintro (⟨span, rfl⟩ | ⟨header, children, span, rfl, there⟩)
    · exact .here (List.mem_singleton_self _)
    · exact .inside (List.mem_singleton_self _) there

theorem mentions_cons {one : Statement} {rest : List Statement} {path : String} :
    Mentions (one :: rest) path ↔ Mentions [one] path ∨ Mentions rest path :=
  mentions_append (a := [one])

/-- The characters of a path that is read stand in the tokens. -/
theorem Reads.mem_of_mentions {nested : Bool} {ts after : List Token} {out : List Statement}
    {problems : List Diagnostic} (h : Reads file nested ts out after problems) {path : String}
    (hp : Mentions out path) {c : Char} (hc : c ∈ path.toList) : ∃ t ∈ ts, c ∈ t.text.toList := by
  induction h with
  | done => exact absurd hp (not_mentions_nil path)
  | stray h _ _ ih =>
    obtain ⟨t, ht, htc⟩ := ih hp
    exact ⟨t, skipKinds_subset _ _ (h ▸ tail_subset _ ht), htc⟩
  | loose h _ inside _ ihi iht =>
    rcases mentions_append.1 hp with hp | hp
    · obtain ⟨t, ht, htc⟩ := ihi hp
      exact ⟨t, skipKinds_subset _ _ (h ▸ tail_subset _ ht), htc⟩
    · obtain ⟨t, ht, htc⟩ := iht hp
      exact ⟨t, skipKinds_subset _ _ (h ▸ tail_subset _ (inside.subset (closeBrace_subset _ _ ht))),
        htc⟩
  | module h hm inside _ ihi iht =>
    rcases mentions_cons.1 hp with hp | hp
    · obtain ⟨_, hone⟩ | ⟨_, _, _, hone, hp⟩ := mentions_singleton.1 hp
      · cases hone
      · cases hone
        obtain ⟨t, ht, htc⟩ := ihi hp
        exact ⟨t, skipKinds_subset _ _ (h ▸ header?_subset hm ht), htc⟩
    · obtain ⟨t, ht, htc⟩ := iht hp
      exact ⟨t, skipKinds_subset _ _
        (h ▸ header?_subset hm (inside.subset (closeBrace_subset _ _ ht))), htc⟩
  | @statement nested ts ahead after one later found h hm hk hr there ih =>
    rcases mentions_append.1 hp with hp | hp
    · cases hv : one.value with
      | none =>
        rw [hv] at hp
        exact absurd hp (not_mentions_nil path)
      | some found =>
        rw [hv] at hp
        rw [← hr] at hv
        obtain ⟨_, rfl⟩ | ⟨_, _, _, rfl, _⟩ := mentions_singleton.1 hp
        · obtain ⟨t, ht, htc⟩ := mem_of_mem_readInclude (readStatement_inclusion hv) hc
          exact ⟨t, skipKinds_subset _ _ (h ▸ ht), htc⟩
        · exact absurd hv readStatement_ne_module
    · obtain ⟨t, ht, htc⟩ := ih hp
      exact ⟨t, skipKinds_subset _ _ (h ▸ readStatement_subset file _ (hr ▸ ht)), htc⟩

/-- **Paths come from the source**, character by character. -/
theorem mem_source_of_mentions {source path : String} {c : Char}
    (h : Mentions (parseSource file source).document.children path) (hc : c ∈ path.toList) :
    c ∈ source.toList := by
  have run := reads file false (tokenize source).tokens
  rw [(run.parseSource_eq rfl).1] at h
  obtain ⟨t, ht, htc⟩ := run.mem_of_mentions h hc
  exact mem_of_mem_tokenizeFrom ht htc

/-! ## Problems of one text -/

/-- The problem says nothing of any file but the one that it is found in. -/
def Problem.isLocal : Problem → Bool
  | .remoteImport | .circularImport _ | .unreadableImport _ | .unreadableFile _ => false
  | _ => true

/-- What is wrong with a token says nothing of other files. -/
def Lexeme.IsLocal (l : Lexeme) : Prop := ∀ problem ∈ l.fault, problem.isLocal = true

theorem Lexeme.IsLocal.of_none {l : Lexeme} (h : l.fault = none) : l.IsLocal := by
  rw [IsLocal, h]
  exact nofun

theorem Lexeme.IsLocal.of_some {l : Lexeme} {fault : Problem} (h : l.fault = some fault)
    (hf : fault.isLocal = true) : l.IsLocal := by
  rw [IsLocal, h]
  exact fun problem hp => Option.some.inj hp ▸ hf

theorem scanDelimited_isLocal {kind : TokenKind} {opening mark cs : List Char} {fault : Problem}
    (hf : fault.isLocal = true) : (scanDelimited kind opening mark fault cs).IsLocal := by
  unfold scanDelimited
  split
  · exact .of_none rfl
  · exact .of_some rfl hf

theorem scanInlineCode_isLocal (cs : List Char) : (scanInlineCode cs).IsLocal := by
  unfold scanInlineCode
  dsimp only
  split
  · exact .of_none rfl
  · exact .of_some rfl rfl

theorem scanString_isLocal (cs : List Char) : (scanString cs).IsLocal := by
  unfold scanString
  dsimp only
  split
  · exact .of_none rfl
  · exact .of_some rfl rfl

theorem scanNumber_isLocal (cs : List Char) : (scanNumber cs).IsLocal := by
  unfold scanNumber
  dsimp only
  split
  · split <;> exact .of_none rfl
  · exact .of_none rfl

theorem scanText_isLocal (c : Char) (cs : List Char) : (scanText c cs).IsLocal := by
  unfold scanText
  split <;> exact .of_none rfl

theorem scan_isLocal (previous : Option Char) (c : Char) (cs : List Char) :
    (scan previous c cs).IsLocal := by
  fun_cases scan previous c cs with
  | case1 | case2 | case4 | case8 | case9 | case11 => exact .of_none rfl
  | case3 | case5 => exact scanDelimited_isLocal rfl
  | case6 => exact scanInlineCode_isLocal cs
  | case7 => exact scanString_isLocal cs
  | case10 => exact scanNumber_isLocal _
  | case12 => exact scanText_isLocal c cs

theorem tokenizeFrom_isLocal {previous : Option Char} {p : Position} {cs : List Char} {e : LexError}
    (h : e ∈ (tokenizeFrom previous p cs).errors) : e.problem.isLocal = true := by
  fun_induction tokenizeFrom previous p cs with
  | case1 => cases h
  | case2 previous p c cs lexeme stop later ih =>
    rcases List.mem_append.1 h with h | h
    · obtain ⟨fault, hf, rfl⟩ := Option.map_eq_some_iff.1 (Option.mem_toList.1 h)
      exact scan_isLocal previous c cs fault hf
    · exact ih h

theorem problemAt_problem (problem : Problem) (ts : List Token) :
    (problemAt file problem ts).problem = problem := by
  cases ts <;> rfl

theorem readProse_problems (file : String) (ts : List Token) : (readProse file ts).problems = [] := by
  unfold readProse
  dsimp only
  split
  · rfl
  · split <;> rfl

/-- A statement that lacks its path or its value is told, once. -/
theorem readStatement_problems_eq (file : String) (ts : List Token) :
    (readStatement file ts).problems = [] ∨
      ∃ problem shown, (readStatement file ts).problems = [problemAt file problem shown] ∧
        (problem = .missingPath ∨ ∃ parameter, problem = .missingValue parameter) := by
  unfold readStatement
  split
  · exact .inl rfl
  split
  · exact .inl rfl
  split
  · unfold readInclude
    dsimp only
    split
    · exact .inr ⟨.missingPath, _, rfl, .inl rfl⟩
    · exact .inl rfl
  split
  · unfold readParam
    dsimp only
    split
    · exact .inl rfl
    · dsimp only
      split
      · exact .inr ⟨_, _, rfl, .inr ⟨_, rfl⟩⟩
      · exact .inl rfl
  · exact .inl (readProse_problems ..)

theorem readStatement_isLocal {ts : List Token} {d : Diagnostic}
    (h : d ∈ (readStatement file ts).problems) : d.problem.isLocal = true := by
  rcases readStatement_problems_eq file ts with hp | ⟨problem, shown, hp, rfl | ⟨parameter, rfl⟩⟩
  · rw [hp] at h
    cases h
  all_goals
    rw [hp] at h
    rw [List.mem_singleton.1 h, problemAt_problem]
    rfl

theorem closeBrace_isLocal {ts : List Token} {d : Diagnostic}
    (h : d ∈ (closeBrace file ts).problems) : d.problem.isLocal = true := by
  unfold closeBrace at h
  split at h
  · cases h
  · rw [List.mem_singleton.1 h, problemAt_problem]
    rfl

theorem Reads.isLocal {nested : Bool} {ts after : List Token} {out : List Statement}
    {problems : List Diagnostic} (h : Reads file nested ts out after problems) :
    ∀ d ∈ problems, d.problem.isLocal = true := by
  induction h with
  | done => simp
  | stray _ _ _ ih =>
    intro d hd
    rcases List.mem_cons.1 hd with rfl | hd
    · rw [problemAt_problem]
      rfl
    · exact ih d hd
  | loose _ _ _ _ ihi iht =>
    intro d hd
    rcases List.mem_cons.1 hd with rfl | hd
    · rw [problemAt_problem]
      rfl
    · rcases List.mem_append.1 hd with hd | hd
      · exact (List.mem_append.1 hd).elim (ihi d) closeBrace_isLocal
      · exact iht d hd
  | module _ _ _ _ ihi iht =>
    intro d hd
    rcases List.mem_append.1 hd with hd | hd
    · exact (List.mem_append.1 hd).elim (ihi d) closeBrace_isLocal
    · exact iht d hd
  | statement _ _ _ hr _ ih =>
    intro d hd
    exact (List.mem_append.1 hd).elim (fun hd => readStatement_isLocal (hr ▸ hd)) (ih d)

/-- **Parsing tells only of the text that it parses.** -/
theorem parseSource_problems_isLocal {source : String} {d : Diagnostic}
    (h : d ∈ (parseSource file source).problems) : d.problem.isLocal = true := by
  have run := reads file false (tokenize source).tokens
  rw [(run.parseSource_eq rfl).2] at h
  rcases List.mem_append.1 h with h | h
  · obtain ⟨e, he, rfl⟩ := List.mem_map.1 h
    exact tokenizeFrom_isLocal he
  · exact run.isLocal d h

end SpecTree.Spec
