import SpecTree.Proofs.Spec.Taking

/-!
# The end token is never passed

The tokens may come in any order, whatever their texts, with end tokens in the middle. No reader goes on
past the first end token (`StopsBy`), and the document is read up to it: neither more nor less
(`parser_consumes_all`).

No header and no statement takes an end token; the blocks go by induction over `Reads`.
-/

namespace SpecTree.Spec

variable {file : String}

/-- The place of the first end token. -/
def firstEnd (ts : List Token) : Nat := ts.findIdx (·.kind == .eof)

/-- `rest` begins at a place of `ts` that is not past the first end token. -/
def StopsBy (ts rest : List Token) : Prop := ∃ n ≤ firstEnd ts, rest = ts.drop n

/-! ## Places before the end -/

theorem firstEnd_append {taken : List Token} (h : ∀ t ∈ taken, t.kind ≠ .eof) (rest : List Token) :
    firstEnd (taken ++ rest) = taken.length + firstEnd rest := by
  induction taken with
  | nil => simp
  | cons t taken ih =>
    have ht : (t.kind == TokenKind.eof) = false := beq_false_of_ne (h t List.mem_cons_self)
    have := ih fun u hu => h u (List.mem_cons_of_mem _ hu)
    unfold firstEnd at this ⊢
    rw [List.cons_append, List.findIdx_cons, ht, cond_false, this, List.length_cons]
    omega

theorem firstEnd_lt {ts : List Token} (h : ts.getLast?.map Token.kind = some .eof) :
    firstEnd ts < ts.length := by
  obtain ⟨t, ht, hk⟩ := Option.map_eq_some_iff.1 h
  exact List.findIdx_lt_length_of_exists ⟨t, List.mem_of_getLast? ht, by simp [hk]⟩

/-- What was taken holds no end token. -/
theorem stopsBy_iff {ts rest : List Token} :
    StopsBy ts rest ↔ ∃ taken, ts = taken ++ rest ∧ ∀ t ∈ taken, t.kind ≠ .eof := by
  constructor
  · rintro ⟨n, hn, rfl⟩
    refine ⟨ts.take n, (List.take_append_drop n ts).symm, fun t ht => ?_⟩
    obtain ⟨i, hi, rfl⟩ := List.mem_take_iff_getElem.1 ht
    have := List.not_of_lt_findIdx (Nat.lt_of_lt_of_le (by omega) hn : i < firstEnd ts)
    simpa using this
  · rintro ⟨taken, rfl, h⟩
    exact ⟨taken.length, by rw [firstEnd_append h]; omega, by simp⟩

theorem StopsBy.refl (ts : List Token) : StopsBy ts ts := ⟨0, Nat.zero_le _, rfl⟩

theorem StopsBy.trans {ts middle rest : List Token} (h : StopsBy ts middle) (k : StopsBy middle rest) :
    StopsBy ts rest := by
  obtain ⟨before, rfl, hb⟩ := stopsBy_iff.1 h
  obtain ⟨taken, rfl, ht⟩ := stopsBy_iff.1 k
  exact stopsBy_iff.2 ⟨before ++ taken, (List.append_assoc _ _ _).symm,
    fun t hm => (List.mem_append.1 hm).elim (hb t) (ht t)⟩

instance : Trans StopsBy StopsBy StopsBy where
  trans := StopsBy.trans

theorem StopsBy.cons {t : Token} {ts rest : List Token} (ht : t.kind ≠ .eof) (h : StopsBy ts rest) :
    StopsBy (t :: ts) rest :=
  .trans (stopsBy_iff.2 ⟨[t], rfl, by simpa using ht⟩) h

theorem StopsBy.tail {ts : List Token} (h : nextKind ts ≠ .eof) : StopsBy ts ts.tail :=
  match ts with
  | [] => absurd rfl h
  | _ :: _ => .cons h (.refl _)

/-- A reader that stops at an end token has stopped at the first one. -/
theorem StopsBy.eq_drop {ts rest : List Token} (h : StopsBy ts rest) (hk : nextKind rest = .eof) :
    rest = ts.drop (firstEnd ts) := by
  obtain ⟨taken, rfl, ht⟩ := stopsBy_iff.1 h
  have hrest : firstEnd rest = 0 := by
    cases rest with
    | nil => rfl
    | cons t rest => simp [firstEnd, List.findIdx_cons, show t.kind = .eof from hk]
  rw [firstEnd_append ht, hrest, Nat.add_zero, List.drop_left]

theorem StopsBy.exists_pos {ts rest : List Token} (h : StopsBy ts rest) (hl : rest.length < ts.length) :
    ∃ n, 0 < n ∧ n ≤ firstEnd ts ∧ rest = ts.drop n := by
  obtain ⟨n, hn, rfl⟩ := h
  refine ⟨n, Nat.pos_of_ne_zero ?_, hn, rfl⟩
  rintro rfl
  exact absurd hl (by simp)

/-! ## Headers and statements -/

/-- Readers that take no end token stop by the first one. -/
theorem Takes.stopsBy {p : TokenKind → Bool} {ts rest : List Token} (h : Takes p ts rest)
    (hp : p .eof = false) : StopsBy ts rest := by
  obtain ⟨taken, rfl, ht⟩ := h
  refine stopsBy_iff.2 ⟨taken, rfl, fun t hm hk => ?_⟩
  have := ht t hm
  rw [hk, hp] at this
  cases this

theorem skipLines_stopsBy (ts : List Token) : StopsBy ts (skipLines ts) := (skipLines_takes ts).stopsBy rfl

theorem header?_stopsBy {ts body : List Token} {header : Header}
    (h : header? ts = some (header, body)) : StopsBy ts body := by
  obtain ⟨brace, hk, htaken⟩ := header?_takes h
  exact (htaken.stopsBy rfl).trans (.cons (by simp [hk]) (.refl body))

theorem readStatement_stopsBy (file : String) (ts : List Token) : StopsBy ts (readStatement file ts).rest :=
  (readStatement_takes file ts).stopsBy rfl

/-! ## Blocks and modules -/

theorem closeBrace_stopsBy (file : String) (ts : List Token) : StopsBy ts (closeBrace file ts).rest := by
  unfold closeBrace
  split
  · next h => exact .tail (by simp [h])
  · exact .refl ts

theorem Reads.stopsBy {nested : Bool} {ts after : List Token} {out : List Statement}
    {problems : List Diagnostic} (h : Reads file nested ts out after problems) : StopsBy ts after := by
  induction h with
  | done h => exact h ▸ skipLines_stopsBy _
  | stray h hk _ ih => exact (h ▸ skipLines_stopsBy _).trans ((StopsBy.tail (by simp [hk])).trans ih)
  | loose h hk _ _ ihi iht =>
    exact (h ▸ skipLines_stopsBy _).trans <| (StopsBy.tail (by simp [hk])).trans <|
      ihi.trans ((closeBrace_stopsBy file _).trans iht)
  | module h hm _ _ ihi iht =>
    exact (h ▸ skipLines_stopsBy _).trans <| (header?_stopsBy hm).trans <|
      ihi.trans ((closeBrace_stopsBy file _).trans iht)
  | statement h _ _ hr _ ih =>
    exact (h ▸ skipLines_stopsBy _).trans ((hr ▸ readStatement_stopsBy file _).trans ih)

/-- The statements of a file go on until there is an end token ahead. -/
theorem Reads.nextKind_eq {ts after : List Token} {out : List Statement} {problems : List Diagnostic}
    (h : Reads file false ts out after problems) : nextKind after = .eof :=
  h.ends.resolve_right fun hk => absurd hk.2 (by simp)

theorem readBlock_stopsBy (file : String) (nested : Bool) (ts : List Token) :
    StopsBy ts (readBlock file nested ts).rest :=
  (reads file nested ts).stopsBy

/-- What remains behind a module whose statements begin at `body`. -/
def afterModule (file : String) (body : List Token) : List Token :=
  (closeBrace file (readBlock file true body).rest).rest

theorem afterModule_stopsBy (file : String) {ts body : List Token} {header : Header}
    (h : header? ts = some (header, body)) : StopsBy ts (afterModule file body) :=
  (header?_stopsBy h).trans ((readBlock_stopsBy file true body).trans (closeBrace_stopsBy file _))

theorem afterModule_length (file : String) {ts body : List Token} {header : Header}
    (h : header? ts = some (header, body)) : (afterModule file body).length < ts.length :=
  Nat.lt_of_le_of_lt
    (Nat.le_trans (closeBrace_length file _) (readBlock file true body).rest_length)
    (header?_length h)

/-- The document ends where the first end token starts. -/
theorem parse_stop {tokens : List Token} (h : tokens.getLast?.map Token.kind = some .eof) :
    tokens[firstEnd tokens]?.map Token.start = some (parse file tokens).document.span.stop := by
  cases tokens with
  | nil => cases h
  | cons first rest =>
    have hrest := (readBlock_stopsBy file false (first :: rest)).eq_drop (reads file false _).nextKind_eq
    have hlt := firstEnd_lt h
    simp only [parse, hrest]
    rw [List.drop_eq_getElem_cons hlt, List.headD_cons, List.getElem?_eq_getElem hlt, Option.map_some]

/-- **The parser consumes all of its tokens, and no more.** Of any tokens with an end token last:
a block, free text, an include from its word on, a parameter from its name on and a module from its header on
stop at the first end token at the latest; a statement takes a token at least, a module does so too; the
statements of the file stop at the first end token, and there the document ends. -/
theorem parser_consumes_all (file : String) (tokens : List Token)
    (h : tokens.getLast?.map Token.kind = some .eof) :
    (∀ nested, StopsBy tokens (readBlock file nested tokens).rest) ∧
    (∀ header body, header? tokens = some (header, body) → StopsBy tokens (afterModule file body)) ∧
    (startsParam tokens = true → StopsBy tokens (readParam file tokens).rest) ∧
    (nextKind tokens = .includeWord → StopsBy tokens (readInclude file tokens).rest) ∧
    StopsBy tokens (readProse file tokens).rest ∧
    (nextKind tokens ≠ .eof ∧ nextKind tokens ≠ .braceOpen ∧ nextKind tokens ≠ .braceClose →
      ∃ n, 0 < n ∧ n ≤ firstEnd tokens ∧
        (match header? tokens with
          | some (_, body) => afterModule file body
          | none => (readStatement file tokens).rest) = tokens.drop n) ∧
    (readBlock file false tokens).rest = tokens.drop (firstEnd tokens) ∧
    firstEnd tokens < tokens.length ∧
    tokens[firstEnd tokens]?.map Token.start = some (parse file tokens).document.span.stop := by
  refine ⟨fun nested => readBlock_stopsBy file nested tokens,
    fun header body hm => afterModule_stopsBy file hm, fun hp => (readParam_takes file hp).stopsBy rfl,
    fun hi => (readInclude_takes file hi).stopsBy rfl, (readProse_takes file tokens).stopsBy rfl, fun hk => ?_,
    (readBlock_stopsBy file false tokens).eq_drop (reads file false tokens).nextKind_eq, firstEnd_lt h,
    parse_stop h⟩
  split
  · next header body hm => exact (afterModule_stopsBy file hm).exists_pos (afterModule_length file hm)
  · refine (readStatement_stopsBy file tokens).exists_pos ?_
    cases tokens with
    | nil => cases h
    | cons t rest => exact Nat.lt_succ_of_le (readStatement_rest_length file t rest hk)

/-- The word `include` without a path, a name that is blank, and a brace between two end tokens. -/
def strayTokens : List Token :=
  [⟨.includeWord, "", .origin⟩, ⟨.identifier, " ", .origin⟩, ⟨.eof, "\x7b", .origin⟩,
    ⟨.braceClose, "", .origin⟩, ⟨.eof, "", .origin⟩]

theorem parser_consumes_all_strayTokens :
    strayTokens.getLast?.map Token.kind = some .eof ∧
      (readBlock "stray.aid" false strayTokens).rest = strayTokens.drop 2 :=
  ⟨rfl, (parser_consumes_all "stray.aid" strayTokens rfl).2.2.2.2.2.2.1⟩

end SpecTree.Spec
