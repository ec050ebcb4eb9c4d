import SpecTree.Proofs.Spec.Reading

/-!
# The kinds of tokens that readers take

What each reader takes from the tokens ahead, by the kinds of what it takes (`Takes`): a statement takes
neither a brace nor an end token (`isInner`), and a module's header takes one opening brace, the last of its
tokens (`header?_takes`). Only a closing brace may still be among the tokens of a header.

The readers are put together from skips and runs, for which it is enough to know the kinds that they pass.
-/

namespace SpecTree.Spec

open Text (splitWhile splitWhile_append)

variable {file : String}

/-- Tokens of the kinds that `p` allows are taken from `ts`, and `rest` remains. -/
def Takes (p : TokenKind → Bool) (ts rest : List Token) : Prop :=
  ∃ taken, ts = taken ++ rest ∧ ∀ t ∈ taken, p t.kind = true

section

variable {p : TokenKind → Bool} {ts middle rest : List Token}

theorem Takes.refl (ts : List Token) : Takes p ts ts := ⟨[], rfl, nofun⟩

theorem Takes.trans (h : Takes p ts middle) (k : Takes p middle rest) : Takes p ts rest := by
  obtain ⟨before, rfl, hb⟩ := h
  obtain ⟨taken, rfl, ht⟩ := k
  exact ⟨before ++ taken, (List.append_assoc ..).symm,
    fun t hm => (List.mem_append.1 hm).elim (hb t) (ht t)⟩

instance : Trans (Takes p) (Takes p) (Takes p) where
  trans := Takes.trans

theorem Takes.cons {t : Token} (ht : p t.kind = true) (h : Takes p ts rest) : Takes p (t :: ts) rest :=
  .trans ⟨[t], rfl, by simpa using ht⟩ h

theorem Takes.tail (h : p (nextKind ts) = true) : Takes p ts ts.tail :=
  match ts with
  | [] => .refl []
  | _ :: _ => .cons h (.refl _)

theorem Takes.mono {q : TokenKind → Bool} (hq : ∀ k, p k = true → q k = true) (h : Takes p ts rest) :
    Takes q ts rest := by
  obtain ⟨taken, rfl, ht⟩ := h
  exact ⟨taken, rfl, fun t hm => hq _ (ht t hm)⟩

theorem Takes.suffix (h : Takes p ts rest) : rest <:+ ts := by
  obtain ⟨taken, rfl, -⟩ := h
  exact List.suffix_append taken rest

theorem splitWhile_takes {q : Token → Bool} (hq : ∀ t, q t = true → p t.kind = true) (ts : List Token) :
    Takes p ts (splitWhile q ts).2 :=
  ⟨(splitWhile q ts).1, (splitWhile_append q ts).symm,
    fun t ht => hq t (List.all_eq_true.1 List.all_takeWhile t ht)⟩

theorem skipKinds_takes {q : TokenKind → Bool} (hq : ∀ k, q k = true → p k = true) (ts : List Token) :
    Takes p ts (skipKinds q ts) :=
  splitWhile_takes (q := fun t => q t.kind) (fun t => hq t.kind) ts

end

/-! ## Skips -/

/-- Neither a brace nor an end token. -/
def isInner (k : TokenKind) : Bool := k != .eof && k != .braceOpen && k != .braceClose

theorem skipBlanks_takes (ts : List Token) : Takes isInner ts (skipBlanks ts) :=
  skipKinds_takes (fun k => by cases k <;> decide) ts

theorem skipLines_takes (ts : List Token) : Takes isInner ts (skipLines ts) :=
  skipKinds_takes (fun k => by cases k <;> decide) ts

theorem skipBlanksAndComments_takes (ts : List Token) : Takes isInner ts (skipBlanksAndComments ts) :=
  skipKinds_takes (fun k => by cases k <;> decide) ts

theorem skipInsignificant_takes (ts : List Token) : Takes isInner ts (skipInsignificant ts) :=
  skipKinds_takes (fun k => by cases k <;> decide) ts

theorem skipSemicolon_takes (ts : List Token) : Takes isInner ts (skipSemicolon ts) := by
  unfold skipSemicolon
  split
  · next h => exact .tail (by rw [h]; rfl)
  · exact .refl ts

/-! ## Module headers -/

/-- Neither an opening brace nor an end token. -/
def isHead (k : TokenKind) : Bool := k != .eof && k != .braceOpen

theorem Takes.head {ts rest : List Token} (h : Takes isInner ts rest) : Takes isHead ts rest :=
  h.mono fun k => by cases k <;> decide

theorem readArguments_takes {ts rest : List Token} {args : List String}
    (h : readArguments ts = some (args, rest)) : Takes isHead ts rest := by
  unfold readArguments at h
  split at h
  · cases h
    exact .refl _
  · next t r =>
    split at h
    · next hk =>
      dsimp only at h
      split at h
      · next close after hs =>
        split at h
        · next hclose =>
          cases h
          have harguments : ∀ k, (!endsArguments k) = true → isHead k = true :=
            fun k => by cases k <;> decide
          have hrun := splitWhile_takes (p := isHead) (q := fun t => !endsArguments t.kind)
            (fun t => harguments t.kind) r
          rw [hs] at hrun
          exact .cons (by rw [hk]; rfl) (hrun.trans (.cons (by rw [hclose]; rfl) (.refl _)))
        · cases h
      · cases h
    · cases h
      exact .refl _

theorem readSuffixes_takes {ts rest : List Token} {tags : List String} {pseudos : List Pseudo}
    (h : readSuffixes ts = some (tags, pseudos, rest)) : Takes isHead ts rest := by
  fun_induction readSuffixes ts generalizing tags pseudos rest with
  | case1 | case5 | case6 =>
    cases h
    exact .refl _
  | case2 mark name r hn hd ih =>
    obtain ⟨⟨tags', pseudos', rest'⟩, h', heq⟩ := Option.map_eq_some_iff.1 h
    cases heq
    simp only [ne_eq, Decidable.not_not] at hn
    exact .cons (by rw [hd]; rfl) (.cons (by rw [hn]; rfl) (ih h'))
  | case3 => cases h
  | case4 mark name r hn _ hc args after ha ih =>
    obtain ⟨⟨tags', pseudos', rest'⟩, h', heq⟩ := Option.map_eq_some_iff.1 h
    cases heq
    simp only [ne_eq, Decidable.not_not] at hn
    exact .cons (by rw [hc]; rfl) (.cons (by rw [hn]; rfl) ((readArguments_takes ha).trans (ih h')))

/-- A header ends with its opening brace. -/
theorem header?_takes {ts body : List Token} {header : Header} (h : header? ts = some (header, body)) :
    ∃ brace, brace.kind = .braceOpen ∧ Takes isHead ts (brace :: body) := by
  obtain ⟨name, rest, after, brace, hs, hk, hr, hb, hbk, -⟩ := header?_eq_some_iff.1 h
  have hname : Takes isHead ts (name :: rest) := by
    rw [← hs]
    split
    · next hc =>
      have hcombinator : ∀ k, (combinator? k).isSome = true → isHead k = true :=
        fun k => by cases k <;> decide
      exact .trans (.tail (hcombinator _ hc)) (skipBlanks_takes _).head
    · exact .refl ts
  have hbrace : Takes isHead after (brace :: body) := hb ▸ (skipInsignificant_takes after).head
  refine ⟨brace, hbk, ?_⟩
  calc Takes isHead ts (name :: rest) := hname
    Takes isHead _ rest := .cons (by rw [hk]; rfl) (.refl _)
    Takes isHead _ after := readSuffixes_takes hr
    Takes isHead _ (brace :: body) := hbrace

/-! ## Statements -/

theorem quotedValue?_takes {ts after : List Token} {value : String}
    (h : quotedValue? ts = some (value, after)) : Takes isInner ts after := by
  unfold quotedValue? at h
  split at h
  · cases h
  · dsimp only at h
    split at h
    · next hk =>
      cases h
      exact .cons (by rw [hk.1]; rfl) (skipBlanks_takes _)
    · cases h

/-- From the word `include` on; the path may be missing. -/
theorem readInclude_takes (file : String) {ts : List Token} (h : nextKind ts = .includeWord) :
    Takes isInner ts (readInclude file ts).rest := by
  have hpath : ∀ k, isPathToken k = true → isInner k = true := fun k => by cases k <;> decide
  have hall : Takes isInner ts (skipSemicolon (skipBlanksAndComments
      (splitWhile (fun t => isPathToken t.kind) (skipBlanks ts.tail)).2)) := calc
    Takes isInner ts ts.tail := .tail (by rw [h]; rfl)
    Takes isInner _ (skipBlanks ts.tail) := skipBlanks_takes _
    Takes isInner _ _ := splitWhile_takes (fun t => hpath t.kind) _
    Takes isInner _ _ := skipBlanksAndComments_takes _
    Takes isInner _ _ := skipSemicolon_takes _
  unfold readInclude
  dsimp only
  split <;> exact hall

/-- From the name on; the equals sign is there, the value may be missing. -/
theorem readParam_takes (file : String) {ts : List Token} (h : startsParam ts = true) :
    Takes isInner ts (readParam file ts).rest := by
  simp only [startsParam, Bool.and_eq_true, beq_iff_eq] at h
  have hstart : Takes isInner ts (skipBlanks (skipBlanks ts.tail).tail) := calc
    Takes isInner ts ts.tail := .tail (by rw [h.1]; rfl)
    Takes isInner _ (skipBlanks ts.tail) := skipBlanks_takes _
    Takes isInner _ (skipBlanks ts.tail).tail := .tail (by rw [h.2]; rfl)
    Takes isInner _ (skipBlanks (skipBlanks ts.tail).tail) := skipBlanks_takes _
  unfold readParam
  dsimp only
  split
  · next hq => exact hstart.trans ((quotedValue?_takes hq).trans (skipSemicolon_takes _))
  · have hvalue : ∀ k, (!(endsStatement k || k == .comment)) = true → isInner k = true :=
      fun k => by cases k <;> decide
    exact hstart.trans ((splitWhile_takes (fun t => hvalue t.kind) _).trans (skipSemicolon_takes _))

theorem readRun_takes (parts : List String) (important lineStart : Bool) (ts : List Token) :
    Takes isInner ts (readRun parts important lineStart ts).rest := by
  have hprose : ∀ k, endsProse k = false → isInner k = true :=
      fun k => by cases k <;> decide
  fun_induction readRun parts important lineStart ts with
  | case1 | case2 => exact .refl _
  | case3 _ _ _ _ _ _ hs => exact .cons (by rw [hs]; rfl) (.refl _)
  | case4 _ _ _ _ _ _ _ hi ih => exact .cons (by rw [hi]; rfl) ih
  | case5 _ _ _ t ts he _ _ ih =>
    simp only [Bool.or_eq_true, not_or, Bool.not_eq_true] at he
    exact .cons (hprose _ he.1) ih

theorem readProse_takes (file : String) (ts : List Token) : Takes isInner ts (readProse file ts).rest := by
  have hrun := readRun_takes [] false true ts
  unfold readProse
  dsimp only
  split
  · exact hrun
  · split <;> exact hrun

theorem readStatement_takes (file : String) (ts : List Token) :
    Takes isInner ts (readStatement file ts).rest := by
  unfold readStatement
  split
  · exact .refl _
  split
  · next hc => exact .cons (by rw [hc]; rfl) (.refl _)
  split
  · next hi => exact readInclude_takes file hi.1
  split
  · next hp => exact readParam_takes file hp
  · exact readProse_takes file _

end SpecTree.Spec
