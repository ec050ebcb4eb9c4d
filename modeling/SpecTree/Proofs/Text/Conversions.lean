import Mathlib.Data.List.Basic
import Mathlib.Data.List.Infix
import Mathlib.Data.List.TakeWhile
import Mathlib.Data.String.Basic
import SpecTree.Text.Blank
import SpecTree.Text.Lowercase
import SpecTree.Text.Pieces

/-!
# Stripping, splitting and lower case

Stripping takes away nothing but the blanks around a text: a text between blanks is what is left of it
(`stripChars_between`), and every text is what is left of it between blanks (`exists_stripChars`).

Splitting a text makes more than one piece exactly when the separator stands somewhere in it
(`one_lt_length_splitOn_iff`).

The lower-case form of a text is its own lower-case form (`lower_lower`). A look at the runs of capitals, two
at a time, shows that no capital has a capital for its small letter (`apart_capitalRuns`): where small letters
stand between capitals, the two alternate. The two exceptions give small letters as well.
-/

namespace SpecTree.Text

/-! ## Stripping -/

theorem dropWhile_append_of_stop {p : Char → Bool} {blanks cs : List Char}
    (hb : ∀ c ∈ blanks, p c = true) (h : ∀ c, cs.head? = some c → p c = false) :
    (blanks ++ cs).dropWhile p = cs := by
  have := splitWhile_of_all hb h
  rw [splitWhile, Prod.mk.injEq] at this
  exact this.2

theorem stripChars_between {front cs back : List Char} (hf : ∀ c ∈ front, isBlank c = true)
    (hb : ∀ c ∈ back, isBlank c = true) (hne : cs ≠ [])
    (h : ∀ c ∈ cs.head?, isBlank c = false) (hl : ∀ c ∈ cs.getLast?, isBlank c = false) :
    stripChars (front ++ cs ++ back) = cs := by
  have hfront : (front ++ cs ++ back).dropWhile isBlank = cs ++ back := by
    rw [List.append_assoc]
    obtain ⟨d, cs, rfl⟩ := List.exists_cons_of_ne_nil hne
    exact dropWhile_append_of_stop hf h
  have hback : (cs ++ back).reverse.dropWhile isBlank = cs.reverse := by
    rw [List.reverse_append]
    refine dropWhile_append_of_stop (fun c hc => hb c (List.mem_reverse.1 hc)) fun c hc => hl c ?_
    rwa [List.head?_reverse] at hc
  rw [stripChars, hfront, hback, List.reverse_reverse]

/-- **Stripping takes the blanks around a text.** -/
theorem strip_between {front cs back : List Char} (hf : ∀ c ∈ front, isBlank c = true)
    (hb : ∀ c ∈ back, isBlank c = true) (hne : cs ≠ [])
    (h : ∀ c ∈ cs.head?, isBlank c = false) (hl : ∀ c ∈ cs.getLast?, isBlank c = false) :
    strip (String.ofList (front ++ cs ++ back)) = String.ofList cs := by
  rw [strip, String.toList_ofList, stripChars_between hf hb hne h hl]

theorem strip_of_not_isBlank {s : String} (h : ∀ c ∈ s.toList, isBlank c = false) : strip s = s := by
  by_cases hs : s.toList = []
  · rw [String.toList_eq_nil_iff] at hs
    subst hs
    rfl
  · have := strip_between (List.forall_mem_nil _) (List.forall_mem_nil _) hs
      (fun c hc => h c (List.mem_of_mem_head? hc)) fun c hc => h c (List.mem_of_mem_getLast? hc)
    simpa using this

/-- **Stripping takes nothing else.** -/
theorem exists_stripChars (cs : List Char) : ∃ front back, cs = front ++ stripChars cs ++ back ∧
    (∀ c ∈ front, isBlank c = true) ∧ ∀ c ∈ back, isBlank c = true := by
  refine ⟨cs.takeWhile isBlank, ((cs.dropWhile isBlank).reverse.takeWhile isBlank).reverse, ?_, ?_, ?_⟩
  · rw [stripChars, List.append_assoc, ← List.reverse_append, List.takeWhile_append_dropWhile,
      List.reverse_reverse, List.takeWhile_append_dropWhile]
  · exact fun c hc => List.mem_takeWhile_imp hc
  · exact fun c hc => List.mem_takeWhile_imp (List.mem_reverse.1 hc)

/-! ## Splitting -/

section

open String

/-- Splitting goes on with `rest`, behind `front` and a beginning `met` of the separator. The present piece
starts at `start`, and `done` are the pieces before it, last one first. -/
def searchFrom (sep : List Char) (start : Pos.Raw) (front met rest : List Char) (done : List String) :
    List String :=
  splitOnAux (ofList (front ++ met ++ rest)) (ofList sep) start ⟨utf8Len (front ++ met)⟩ ⟨utf8Len met⟩
    done

section

variable {start : Pos.Raw} {front met rest more tail : List Char} {c d e : Char} {done : List String}

theorem searchFrom_nil (sep : List Char) :
    ∃ piece, searchFrom sep start front met [] done = (piece :: done).reverse := by
  rw [searchFrom, splitOnAux, if_pos ((atEnd_of_valid _ _).2 rfl)]
  exact ⟨_, rfl⟩

theorem searchFrom_cons : searchFrom (met ++ d :: tail) start front met (c :: rest) done =
    let text := ofList (front ++ met ++ c :: rest)
    let sep := ofList (met ++ d :: tail)
    let i : Pos.Raw := ⟨utf8Len (front ++ met) + c.utf8Size⟩
    let j : Pos.Raw := ⟨utf8Len met + d.utf8Size⟩
    if c == d then
      if j.atEnd sep then splitOnAux text sep i i 0 (start.extract text (i.unoffsetBy j) :: done)
      else splitOnAux text sep start i j done
    else
      splitOnAux text sep start
        (Pos.Raw.next text (Pos.Raw.unoffsetBy ⟨utf8Len (front ++ met)⟩ ⟨utf8Len met⟩)) 0 done := by
  rw [searchFrom, splitOnAux, if_neg (mt (atEnd_of_valid _ _).1 (List.cons_ne_nil _ _)), get_of_valid,
    get_of_valid, next_of_valid, next_of_valid, List.headD_cons, List.headD_cons]

theorem utf8Len_concat (cs : List Char) (c : Char) : utf8Len (cs ++ [c]) = utf8Len cs + c.utf8Size := by
  simp

theorem atEnd_concat :
    Pos.Raw.atEnd (ofList (met ++ c :: tail)) ⟨utf8Len met + c.utf8Size⟩ = true ↔ tail = [] := by
  have hend := atEnd_of_valid (met ++ [c]) tail
  rwa [← List.append_cons, utf8Len_concat] at hend

/-- The next character of the separator is met. -/
theorem searchFrom_hit (htail : tail ≠ []) :
    searchFrom (met ++ c :: tail) start front met (c :: rest) done =
      searchFrom (met ++ c :: tail) start front (met ++ [c]) rest done := by
  rw [searchFrom_cons]
  dsimp only
  rw [if_pos (beq_self_eq_true c), if_neg (mt atEnd_concat.1 htail), searchFrom, ← List.append_assoc,
    utf8Len_concat, utf8Len_concat, ← List.append_cons]

/-- Behind a whole separator, the next piece starts. -/
theorem searchFrom_found : ∃ next piece, searchFrom (met ++ [c]) start front met (c :: rest) done =
    searchFrom (met ++ [c]) next (front ++ met ++ [c]) [] rest (piece :: done) := by
  rw [searchFrom_cons]
  dsimp only
  rw [if_pos (beq_self_eq_true c), if_pos (atEnd_concat.2 rfl)]
  simp only [searchFrom, List.append_nil, utf8Len_concat, ← List.append_cons]
  exact ⟨_, _, rfl⟩

/-- Another character is met, and the search starts again, one character behind where it had started. -/
theorem searchFrom_miss (hcd : c ≠ d) (he : met ++ c :: rest = e :: more) :
    searchFrom (met ++ d :: tail) start front met (c :: rest) done =
      searchFrom (met ++ d :: tail) start (front ++ [e]) [] more done := by
  have hback : Pos.Raw.unoffsetBy ⟨utf8Len (front ++ met)⟩ ⟨utf8Len met⟩ = ⟨utf8Len front⟩ := by
    simp [Pos.Raw.unoffsetBy]
  rw [searchFrom_cons]
  dsimp only
  rw [if_neg (by simpa using hcd), hback, List.append_assoc, he, next_of_valid, searchFrom, List.append_nil,
    utf8Len_concat, ← List.append_cons]
  rfl

end

/-- **What is left becomes more than one piece exactly when there is a separator in it.** -/
theorem searchFrom_iff {sep : List Char} (start : Pos.Raw) (front met rest : List Char) (done : List String)
    (hm : met <+: sep) (hne : met ≠ sep) :
    done.length < (searchFrom sep start front met rest done).length ∧
      (done.length + 1 < (searchFrom sep start front met rest done).length ↔ sep <:+: met ++ rest) := by
  obtain ⟨tail, rfl⟩ := hm
  obtain ⟨d, tail, rfl⟩ :=
    List.exists_cons_of_ne_nil fun he : tail = [] => hne (by rw [he, List.append_nil])
  cases rest with
  | nil =>
    obtain ⟨piece, hfound⟩ := @searchFrom_nil start front met done (met ++ d :: tail)
    have hshort : ¬met ++ d :: tail <:+: met ++ [] := fun h => by
      have hlength := h.length_le
      simp only [List.length_append, List.length_cons, List.length_nil] at hlength
      omega
    rw [hfound]
    simpa using hshort
  | cons c rest =>
    by_cases hcd : c = d
    · subst hcd
      by_cases htail : tail = []
      · subst htail
        obtain ⟨next, piece, hfound⟩ := @searchFrom_found start front met rest c done
        have later := @searchFrom_iff (met ++ [c]) next (front ++ met ++ [c]) [] rest (piece :: done)
          List.nil_prefix (by simp)
        rw [hfound, List.append_cons met c rest]
        exact ⟨Nat.lt_of_succ_lt later.1, iff_of_true later.1 (List.prefix_append _ _).isInfix⟩
      · rw [searchFrom_hit htail, List.append_cons met c rest, List.append_cons met c tail]
        exact searchFrom_iff start front (met ++ [c]) rest done (List.prefix_append _ _)
          (by simpa using htail)
    · obtain ⟨e, more, he⟩ := List.exists_cons_of_ne_nil
        (List.append_ne_nil_of_right_ne_nil met (List.cons_ne_nil c rest))
      have hfirst : ¬met ++ d :: tail <+: e :: more := by
        rw [← he, List.prefix_append_right_inj, List.cons_prefix_cons]
        exact fun h => hcd h.1.symm
      rw [searchFrom_miss hcd he, he, List.infix_cons_iff, or_iff_right hfirst]
      exact searchFrom_iff start (front ++ [e]) [] more done List.nil_prefix (by simp)
-- What is still to be searched becomes shorter, or a character of it is met and stays to be searched.
termination_by (met.length + rest.length, rest.length)
decreasing_by
  · exact Prod.Lex.left _ _ (by simp only [List.length_nil, List.length_cons]; omega)
  · rw [List.length_append, List.length_singleton, Nat.add_assoc, Nat.add_comm 1]
    exact Prod.Lex.right _ (Nat.lt_succ_self _)
  · have hlength := congrArg List.length he
    rw [List.length_append, List.length_cons, List.length_cons] at hlength
    exact Prod.Lex.left _ _ (by simp only [List.length_nil, List.length_cons]; omega)

theorem one_lt_length_splitOn_iff (s : String) {sep : String} (h : sep ≠ "") :
    1 < (s.splitOn sep).length ↔ sep.toList <:+: s.toList := by
  have hne : sep.toList ≠ [] := fun he => h (String.toList_eq_nil_iff.1 he)
  have hsearch := searchFrom_iff 0 [] [] s.toList [] List.nil_prefix hne.symm
  simp only [searchFrom, List.nil_append, ofList_toList, utf8Len_nil] at hsearch
  rw [splitOn, if_neg (by simpa using h)]
  exact hsearch.2

end

/-! ## Runs of capitals -/

/-- Whether a code is that of a capital of the run. -/
def isCapitalOf (n : Nat) : Nat × Nat × Nat × Nat → Bool := fun (first, last, step, _) =>
  first ≤ n && n ≤ last && (n - first) % step == 0

/-- Whether the small letters of the run `r`, from the first to the last, overlap the capitals of `s`. -/
def meets (r s : Nat × Nat × Nat × Nat) : Bool :=
  Nat.ble s.1 (r.2.2.2 + (r.2.1 - r.1)) && Nat.ble r.2.2.2 s.2.1

/-- The small letters of `r` and the capitals of `s` take every other code at most, the one the odd and the
other the even ones. -/
def alternates (r s : Nat × Nat × Nat × Nat) : Bool :=
  (r.2.2.1 == 2 || r.1 == r.2.1) && s.2.2.1 == 2 && (r.2.2.2 + s.1) % 2 == 1

/-- The small letters of the run are characters. -/
def hasCharacters : Nat × Nat × Nat × Nat → Bool := fun (first, last, _, lower) =>
  lower + (last - first) < 0xD800 || (0xDFFF < lower && lower + (last - first) < 0x110000)

/-- The run of the capital I with a dot, which has its own rule. -/
def dottedRun : Nat × Nat × Nat × Nat := (0x130, 0x130, 1, 0x69)

theorem apart_capitalRuns :
    capitalRuns.all fun r =>
      hasCharacters r && ((dottedRun :: capitalRuns).filter (meets r)).all (alternates r) := by
  decide +kernel

/-- No small letter of `r` is a capital of `s`. -/
theorem not_isCapitalOf {n : Nat} {r s : Nat × Nat × Nat × Nat} (h : isCapitalOf n r = true)
    (ha : meets r s = true → alternates r s = true) : isCapitalOf (r.2.2.2 + (n - r.1)) s = false := by
  obtain ⟨first, last, step, lower⟩ := r
  obtain ⟨first', last', step', lower'⟩ := s
  simp only [isCapitalOf, meets, alternates, Bool.and_eq_true, Bool.or_eq_true, decide_eq_true_eq, beq_iff_eq,
    Bool.eq_false_iff, ne_eq, Nat.ble_eq] at h ha ⊢
  rintro ⟨⟨hfirst, hlast⟩, hstep⟩
  obtain ⟨⟨rfl | rfl, rfl⟩, hodd⟩ := ha ⟨by omega, by omega⟩
  · omega
  · omega

/-! ## Characters -/

theorem lowerChar_of_not_isCapitalOf {c : Char} (h : ∀ r ∈ capitalRuns, isCapitalOf c.toNat r = false) :
    lowerChar c = c := by
  have hnone : capitalRuns.find? (isCapitalOf c.toNat) = none :=
    List.find?_eq_none.2 fun r hr => by simp [h r hr]
  unfold lowerChar
  split
  · next hsome =>
    rw [show capitalRuns.find? (isCapitalOf c.toNat) = _ from hsome] at hnone
    cases hnone
  · rfl

/-- A character is its own small letter, or a capital of one of the runs. -/
theorem lowerChar_cases (c : Char) :
    lowerChar c = c ∨ ∃ r ∈ capitalRuns, isCapitalOf c.toNat r = true ∧
      lowerChar c = Char.ofNat (r.2.2.2 + (c.toNat - r.1)) := by
  unfold lowerChar
  split
  · next first last step lower hsome =>
    exact .inr ⟨(first, last, step, lower), List.mem_of_find?_eq_some hsome, List.find?_some hsome, rfl⟩
  · exact .inl rfl

theorem toNat_ofNat_of_hasCharacters {n : Nat} {r : Nat × Nat × Nat × Nat} (h : isCapitalOf n r = true)
    (hc : hasCharacters r = true) : (Char.ofNat (r.2.2.2 + (n - r.1))).toNat = r.2.2.2 + (n - r.1) := by
  obtain ⟨first, last, step, lower⟩ := r
  simp only [isCapitalOf, hasCharacters, Bool.and_eq_true, Bool.or_eq_true, decide_eq_true_eq] at h hc ⊢
  have hvalid : (lower + (n - first)).isValidChar := by
    rcases hc with hc | hc
    · exact .inl (by omega)
    · exact .inr ⟨by omega, by omega⟩
  rw [Char.ofNat, dif_pos hvalid]
  rfl

/-- Characters that are not changed, whatever stands beside them. -/
structure IsSmall (c : Char) : Prop where
  ne_sigma : c ≠ 'Σ'
  ne_dotted : c ≠ 'İ'
  lowerChar_eq : lowerChar c = c

theorem isSmall_lowerChar {c : Char} (hs : c ≠ 'Σ') (hd : c ≠ 'İ') : IsSmall (lowerChar c) := by
  rcases lowerChar_cases c with h | ⟨r, hr, hcapital, h⟩
  · rw [h]
    exact ⟨hs, hd, h⟩
  · have hall := List.all_eq_true.1 apart_capitalRuns r hr
    rw [Bool.and_eq_true] at hall
    have hcode : (lowerChar c).toNat = r.2.2.2 + (c.toNat - r.1) := by
      rw [h]
      exact toNat_ofNat_of_hasCharacters hcapital hall.1
    have hnot : ∀ r' ∈ dottedRun :: capitalRuns, isCapitalOf (lowerChar c).toNat r' = false := by
      intro r' hr'
      rw [hcode]
      exact not_isCapitalOf hcapital fun hm => List.all_eq_true.1 hall.2 r' (List.mem_filter.2 ⟨hr', hm⟩)
    obtain ⟨hdotted, hruns⟩ := List.forall_mem_cons.1 hnot
    refine ⟨?_, ?_, lowerChar_of_not_isCapitalOf hruns⟩
    · intro he
      have := hruns (0x3A3, 0x3AB, 1, 0x3C3) (by decide +kernel)
      rw [he] at this
      exact absurd this (by decide)
    · intro he
      rw [he] at hdotted
      exact absurd hdotted (by decide)

theorem isSmall_of_mem_lowerFrom {before cs : List Char} {c : Char} (h : c ∈ lowerFrom before cs) :
    IsSmall c := by
  induction cs generalizing before with
  | nil => cases h
  | cons d cs ih =>
    rw [lowerFrom] at h
    rcases List.mem_append.1 h with h | h
    · split at h
      · split at h
        · rw [List.mem_singleton.1 h]
          exact ⟨by decide, by decide, by decide +kernel⟩
        · rw [List.mem_singleton.1 h]
          exact ⟨by decide, by decide, by decide +kernel⟩
      · next hsigma =>
        split at h
        · have hpair : IsSmall 'i' ∧ IsSmall '\u0307' :=
            ⟨⟨by decide, by decide, by decide +kernel⟩, ⟨by decide, by decide, by decide +kernel⟩⟩
          rcases List.mem_pair.1 h with rfl | rfl
          · exact hpair.1
          · exact hpair.2
        · next hdotted =>
          rw [List.mem_singleton.1 h]
          exact isSmall_lowerChar hsigma hdotted
    · exact ih h

theorem lowerFrom_of_isSmall {before cs : List Char} (h : ∀ c ∈ cs, IsSmall c) :
    lowerFrom before cs = cs := by
  induction cs generalizing before with
  | nil => rfl
  | cons c cs ih =>
    obtain ⟨hc, hcs⟩ := List.forall_mem_cons.1 h
    rw [lowerFrom, if_neg hc.ne_sigma, if_neg hc.ne_dotted, hc.lowerChar_eq, ih hcs]
    rfl

/-- **A lower-case text is its own lower-case form.** -/
theorem lower_lower (s : String) : lower (lower s) = lower s := by
  have hsmall : lowerFrom [] (lower s).toList = (lower s).toList := by
    refine lowerFrom_of_isSmall fun c hc => ?_
    rw [lower, String.toList_ofList] at hc
    exact isSmall_of_mem_lowerFrom hc
  rw [lower, hsmall, String.ofList_toList]

end SpecTree.Text
