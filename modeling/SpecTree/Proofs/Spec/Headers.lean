import SpecTree.Proofs.Spec.Reading
import SpecTree.Proofs.Spec.Canonical

/-!
# Module headers recovered from their text

The pieces of a header (`Header.pieces`) are what its text is cut into (`Header.isCut`), and the reader
takes the header from them (`header?_placed`).
-/

namespace SpecTree.Spec

/-! ## Pieces as tokens -/

theorem joinTexts_placed (p : Position) (ps : List Piece) :
    joinTexts (placed p ps) = String.ofList (spelled ps) := by
  rw [← String.toList_inj, joinTexts, String.toList_join, String.toList_ofList]
  induction ps generalizing p with
  | nil => rfl
  | cons q ps ih => simp [ih]

theorem exists_piece {p : Position} {ps : List Piece} {t : Token} (h : t ∈ placed p ps) :
    ∃ q ∈ ps, t.kind = q.kind ∧ t.text = String.ofList q.text := by
  induction ps generalizing p with
  | nil => cases h
  | cons q ps ih =>
    rcases List.mem_cons.1 h with rfl | h
    · exact ⟨q, List.mem_cons_self, rfl, rfl⟩
    · obtain ⟨q', hq', hk⟩ := ih h
      exact ⟨q', List.mem_cons_of_mem _ hq', hk⟩

/-! ## Pieces in a row -/

/-- The text of the pieces is cut into these pieces where `rest` follows. -/
def IsCut (ps : List Piece) (rest : List Char) : Prop :=
  ∀ previous, ∃ last, Cuts previous (spelled ps ++ rest) ps last rest

theorem IsCut.nil (rest : List Char) : IsCut [] rest := fun previous => ⟨previous, .done previous rest⟩

theorem IsCut.append {ps qs : List Piece} {rest : List Char} (h : IsCut ps (spelled qs ++ rest))
    (k : IsCut qs rest) : IsCut (ps ++ qs) rest := by
  intro previous
  obtain ⟨middle, hps⟩ := h previous
  obtain ⟨last, hqs⟩ := k middle
  refine ⟨last, ?_⟩
  rw [spelled_append, List.append_assoc]
  exact hps.trans hqs

theorem IsCut.cons {q : Piece} {ps : List Piece} {rest : List Char}
    (h : ∀ previous, ∃ last, Cuts previous (q.text ++ (spelled ps ++ rest)) [q] last (spelled ps ++ rest))
    (k : IsCut ps rest) : IsCut (q :: ps) rest := by
  have hq : IsCut [q] (spelled ps ++ rest) := by
    intro previous
    rw [spelled_cons, spelled_nil, List.append_nil]
    exact h previous
  exact hq.append k

theorem isCut_punctuation {c : Char} {kind : TokenKind} {ps : List Piece} {rest : List Char}
    (h : punctuation? c = some kind) (k : IsCut ps rest) : IsCut (⟨kind, [c]⟩ :: ps) rest :=
  .cons (fun previous => ⟨_, cuts_punctuation h previous _⟩) k

/-- A name is cut off where something other than a name follows. -/
theorem isCut_name {n : String} (hn : IsName n) {ps : List Piece} {rest : List Char}
    (hr : ∀ c, (spelled ps ++ rest).head? = some c → isNameChar c = false) (k : IsCut ps rest) :
    IsCut (⟨.identifier, n.toList⟩ :: ps) rest := by
  refine .cons (fun previous => ⟨n.toList.getLast?, ?_⟩) k
  have := cuts_name hn.plain hr previous
  rwa [if_neg hn.ne_include] at this

theorem isCut_blank {ps : List Piece} {rest : List Char}
    (hr : ∀ c, (spelled ps ++ rest).head? = some c → isInlineBlank c = false) (k : IsCut ps rest) :
    IsCut (⟨.whitespace, [' ']⟩ :: ps) rest :=
  .cons (fun previous => ⟨_, cuts_blanks (n := 0) hr previous⟩) k

/-! ## Arguments -/

def argumentPiece (a : String) : Piece :=
  ⟨if isPlainName a.toList then if a.toList = includeName then .includeWord else .identifier
    else .number, a.toList⟩

/-- What stands between the parentheses. -/
def listedPieces (a : String) (args : List String) : List Piece :=
  argumentPiece a :: args.flatMap fun x => [⟨.text, [',']⟩, ⟨.whitespace, [' ']⟩, argumentPiece x]

theorem listedPieces_cons (a b : String) (args : List String) :
    listedPieces a (b :: args) =
      argumentPiece a :: ⟨.text, [',']⟩ :: ⟨.whitespace, [' ']⟩ :: listedPieces b args := by
  simp [listedPieces]

@[simp] theorem spelled_listedPieces (a : String) (args : List String) :
    spelled (listedPieces a args) = listed a args := by
  induction args generalizing a with
  | nil => simp [listedPieces, listed, argumentPiece]
  | cons b args ih =>
    rw [listedPieces_cons, listed_cons, ← ih]
    simp [argumentPiece]

theorem isCut_argument {a : String} (h : IsArgument a) {ps : List Piece} {rest : List Char}
    (hr : ∀ c, (spelled ps ++ rest).head? = some c → c = ',' ∨ c = ')') (k : IsCut ps rest) :
    IsCut (argumentPiece a :: ps) rest := by
  have hstop : ∀ c, (spelled ps ++ rest).head? = some c →
      isNameChar c = false ∧ isDigit c = false ∧ c ≠ '.' := by
    intro c hc
    rcases hr c hc with rfl | rfl <;> decide
  refine .cons (fun previous => ⟨a.toList.getLast?, ?_⟩) k
  by_cases hn : isPlainName a.toList = true
  · have := cuts_name hn (fun c hc => (hstop c hc).1) previous
    rwa [argumentPiece, if_pos hn]
  · rcases h with h | h
    · exact absurd h hn
    · have := cuts_digits h.1 h.2 (fun c hc => (hstop c hc).2) previous
      rwa [argumentPiece, if_neg hn]

theorem isCut_listed {a : String} {args : List String} (h : ∀ x ∈ a :: args, IsArgument x)
    {ps : List Piece} {rest : List Char}
    (hr : ∀ c, (spelled ps ++ rest).head? = some c → c = ')') (k : IsCut ps rest) :
    IsCut (listedPieces a args ++ ps) rest := by
  have ha := h a List.mem_cons_self
  induction args generalizing a with
  | nil => exact isCut_argument ha (fun c hc => .inr (hr c hc)) k
  | cons b args ih =>
    have hb := h b (by simp)
    have hlater := ih (fun x hx => h x (List.mem_cons_of_mem _ hx)) hb
    obtain ⟨c, cs, hbs⟩ := List.exists_cons_of_ne_nil hb.isNameChar.1
    have hblank : ∀ x, (spelled (listedPieces b args ++ ps) ++ rest).head? = some x →
        isInlineBlank x = false := by
      intro x hx
      simp only [spelled_append, spelled_listedPieces, listed, hbs, List.cons_append,
        List.head?_cons, Option.some.injEq] at hx
      subst hx
      exact isInlineBlank_of_not_mark (isMark_of_isNameChar (hb.isNameChar.2 c (by simp [hbs])))
    rw [listedPieces_cons]
    refine isCut_argument ha (by simp) (.cons (fun previous => ⟨some ',', ?_⟩) (isCut_blank hblank hlater))
    exact .step rfl (.done _ _)

theorem endsArguments_listedPieces {a : String} {args : List String} {q : Piece}
    (hq : q ∈ listedPieces a args) : endsArguments q.kind = false := by
  have hargument : ∀ x, endsArguments (argumentPiece x).kind = false := by
    intro x
    simp only [argumentPiece]
    split
    · split <;> rfl
    · rfl
  rcases List.mem_cons.1 hq with rfl | hq
  · exact hargument a
  · obtain ⟨x, -, hq⟩ := List.mem_flatMap.1 hq
    simp only [List.mem_cons, List.not_mem_nil, or_false] at hq
    rcases hq with rfl | rfl | rfl
    · rfl
    · rfl
    · exact hargument x

/-! ## Suffixes -/

def tagPieces (t : String) : List Piece := [⟨.dot, ['.']⟩, ⟨.identifier, t.toList⟩]

def argumentsPieces : List String → List Piece
  | [] => []
  | a :: args => ⟨.parenOpen, ['(']⟩ :: (listedPieces a args ++ [⟨.parenClose, [')']⟩])

def Pseudo.pieces (p : Pseudo) : List Piece :=
  ⟨.colon, [':']⟩ :: ⟨.identifier, p.name.toList⟩ :: argumentsPieces p.args

theorem Pseudo.toList_text (p : Pseudo) : p.text.toList = spelled p.pieces := by
  obtain ⟨name, args⟩ := p
  cases args with
  | nil => simp [Pseudo.text, Pseudo.pieces, argumentsPieces]
  | cons a args => simp [Pseudo.text, Pseudo.pieces, argumentsPieces, ← toList_intercalate_cons]

/-- What follows a name, a tag or a pseudo selector. -/
def IsSuffixEnd (cs : List Char) : Prop := ∀ c, cs.head? = some c → c = '.' ∨ c = ':' ∨ c = ' '

theorem IsSuffixEnd.isNameChar {cs : List Char} (h : IsSuffixEnd cs) :
    ∀ c, cs.head? = some c → isNameChar c = false := by
  intro c hc
  rcases h c hc with rfl | rfl | rfl <;> decide

theorem isCut_tags {tags : List String} (h : ∀ t ∈ tags, IsName t) {ps : List Piece} {rest : List Char}
    (hr : IsSuffixEnd (spelled ps ++ rest)) (k : IsCut ps rest) :
    IsCut (tags.flatMap tagPieces ++ ps) rest ∧
      IsSuffixEnd (spelled (tags.flatMap tagPieces ++ ps) ++ rest) := by
  induction tags with
  | nil => exact ⟨k, hr⟩
  | cons t tags ih =>
    obtain ⟨hcut, hend⟩ := ih fun x hx => h x (List.mem_cons_of_mem _ hx)
    refine ⟨isCut_punctuation rfl (isCut_name (h t List.mem_cons_self) hend.isNameChar hcut), ?_⟩
    rintro _ ⟨⟩
    exact .inl rfl

theorem isCut_pseudos {pseudos : List Pseudo}
    (h : ∀ p ∈ pseudos, IsName p.name ∧ ∀ a ∈ p.args, IsArgument a) {ps : List Piece} {rest : List Char}
    (hr : IsSuffixEnd (spelled ps ++ rest)) (k : IsCut ps rest) :
    IsCut (pseudos.flatMap Pseudo.pieces ++ ps) rest ∧
      IsSuffixEnd (spelled (pseudos.flatMap Pseudo.pieces ++ ps) ++ rest) := by
  induction pseudos with
  | nil => exact ⟨k, hr⟩
  | cons p pseudos ih =>
    obtain ⟨hcut, hend⟩ := ih fun x hx => h x (List.mem_cons_of_mem _ hx)
    obtain ⟨name, args⟩ := p
    have hp := h _ List.mem_cons_self
    have hpieces : (⟨name, args⟩ :: pseudos).flatMap Pseudo.pieces ++ ps = ⟨.colon, [':']⟩ ::
        ⟨.identifier, name.toList⟩ :: (argumentsPieces args ++ (pseudos.flatMap Pseudo.pieces ++ ps)) := by
      simp [Pseudo.pieces]
    rw [hpieces]
    refine ⟨isCut_punctuation rfl ?_, ?_⟩
    · cases args with
      | nil => exact isCut_name hp.1 hend.isNameChar hcut
      | cons a args =>
        have hinner : IsCut (listedPieces a args ++ (⟨.parenClose, [')']⟩ ::
            (pseudos.flatMap Pseudo.pieces ++ ps))) rest :=
          isCut_listed hp.2 (by simp) (isCut_punctuation rfl hcut)
        have hparens : IsCut (⟨.identifier, name.toList⟩ :: ⟨.parenOpen, ['(']⟩ :: (listedPieces a args ++
            (⟨.parenClose, [')']⟩ :: (pseudos.flatMap Pseudo.pieces ++ ps)))) rest :=
          isCut_name hp.1 (by simp; decide) (isCut_punctuation rfl hinner)
        simpa [argumentsPieces] using hparens
    · rintro _ ⟨⟩
      exact .inr (.inl rfl)

theorem readArguments_placed {args : List String} (h : ∀ a ∈ args, IsArgument a) {ts : List Token}
    (ht : nextKind ts ≠ .parenOpen) (p : Position) :
    readArguments (placed p (argumentsPieces args) ++ ts) = some (args, ts) := by
  cases args with
  | nil =>
    cases ts with
    | nil => rfl
    | cons t ts => exact if_neg ht
  | cons a args =>
    have hsplit (q : Position) (more : List Token) : Text.splitWhile (fun t => !endsArguments t.kind)
        (placed q (listedPieces a args) ++ (placed (q.after (listed a args)) [⟨.parenClose, [')']⟩]
          ++ more)) = (placed q (listedPieces a args),
            placed (q.after (listed a args)) [⟨.parenClose, [')']⟩] ++ more) := by
      refine Text.splitWhile_of_all (fun t ht => ?_) ?_
      · obtain ⟨x, hx, hk, -⟩ := exists_piece ht
        rw [hk, endsArguments_listedPieces hx]
        rfl
      · rintro _ ⟨⟩
        rfl
    rw [argumentsPieces, placed_cons, placed_append, List.cons_append, List.append_assoc, readArguments,
      if_pos rfl, spelled_listedPieces, hsplit]
    dsimp only
    rw [joinTexts_placed, spelled_listedPieces, ← toList_intercalate_cons, String.ofList_toList,
      splitAt_intercalate h]
    rfl

theorem readSuffixes_none {ts : List Token} (h : nextKind ts ≠ .dot ∧ nextKind ts ≠ .colon) :
    readSuffixes ts = some ([], [], ts) := by
  match ts with
  | [] => rw [readSuffixes]; simp
  | [_] => rw [readSuffixes]; simp
  | mark :: name :: rest =>
    have hdot : mark.kind ≠ .dot := h.1
    have hcolon : mark.kind ≠ .colon := h.2
    rw [readSuffixes, if_neg hdot, if_neg hcolon]
    split <;> rfl

theorem readSuffixes_pseudos {pseudos : List Pseudo} (h : ∀ p ∈ pseudos, ∀ a ∈ p.args, IsArgument a)
    {ts : List Token} (ht : nextKind ts ≠ .dot ∧ nextKind ts ≠ .colon) (hparen : nextKind ts ≠ .parenOpen)
    (p : Position) :
    readSuffixes (placed p (pseudos.flatMap Pseudo.pieces) ++ ts) = some ([], pseudos, ts) := by
  induction pseudos generalizing p with
  | nil => exact readSuffixes_none ht
  | cons s pseudos ih =>
    obtain ⟨name, args⟩ := s
    have hlater := ih fun x hx => h x (List.mem_cons_of_mem _ hx)
    have hnext (q : Position) :
        nextKind (placed q (pseudos.flatMap Pseudo.pieces) ++ ts) ≠ .parenOpen := by
      cases pseudos with
      | nil => exact hparen
      | cons s pseudos => nofun
    rw [List.flatMap_cons, Pseudo.pieces, List.cons_append, List.cons_append, placed_cons, placed_cons,
      placed_append, List.cons_append, List.cons_append, List.append_assoc, readSuffixes,
      if_neg (by simp), if_neg (by simp), if_pos rfl]
    split
    · next hn => simp [readArguments_placed (h _ List.mem_cons_self) (hnext _)] at hn
    · next hs =>
      rw [readArguments_placed (h _ List.mem_cons_self) (hnext _)] at hs
      cases hs
      rw [hlater]
      simp

theorem readSuffixes_tags {tags : List String} {pseudos : List Pseudo} {ts after : List Token}
    (h : readSuffixes ts = some ([], pseudos, after)) (p : Position) :
    readSuffixes (placed p (tags.flatMap tagPieces) ++ ts) = some (tags, pseudos, after) := by
  induction tags generalizing p with
  | nil => exact h
  | cons t tags ih =>
    rw [List.flatMap_cons, tagPieces, List.cons_append, List.cons_append, List.nil_append,
      placed_cons, placed_cons, List.cons_append, List.cons_append, readSuffixes, if_neg (by simp),
      if_pos rfl, ih]
    simp

/-! ## Headers -/

def combinatorKind : Combinator → TokenKind
  | .child => .greater
  | .adjacent => .plus
  | .general => .tilde

def leadPieces : Option Combinator → List Piece
  | none => []
  | some c => [⟨combinatorKind c, c.symbol.toList⟩, ⟨.whitespace, [' ']⟩]

def openingPieces : List Piece := [⟨.whitespace, [' ']⟩, ⟨.braceOpen, ['\x7b']⟩]

/-- The pieces of a header from its name on, its opening brace the last one. -/
def Header.namePieces (h : Header) : List Piece :=
  ⟨.identifier, h.name.toList⟩ ::
    (h.tags.flatMap tagPieces ++ h.pseudos.flatMap Pseudo.pieces ++ openingPieces)

def Header.pieces (h : Header) : List Piece := leadPieces h.combinator ++ h.namePieces

theorem Header.toList_text (h : Header) : h.text.toList ++ [' ', '\x7b'] = spelled h.pieces := by
  have htags : (String.join (h.tags.map ("." ++ ·))).toList = spelled (h.tags.flatMap tagPieces) := by
    rw [String.toList_join, List.flatMap_map]
    simp [spelled, tagPieces, List.flatMap_assoc]
  have hpseudos : (String.join (h.pseudos.map Pseudo.text)).toList =
      spelled (h.pseudos.flatMap Pseudo.pieces) := by
    rw [String.toList_join, List.flatMap_map]
    simp only [Pseudo.toList_text]
    simp [spelled, List.flatMap_assoc]
  obtain ⟨name, tags, pseudos, combinator⟩ := h
  dsimp only at htags hpseudos
  rcases combinator with _ | c
  · simp [Header.text, Header.pieces, Header.namePieces, leadPieces, openingPieces, htags,
      hpseudos]
  · simp [Header.text, Header.pieces, Header.namePieces, leadPieces, openingPieces, htags,
      hpseudos]

/-- A header is cut into its pieces. -/
theorem Header.isCut {h : Header} (hp : h.IsPlain) (rest : List Char) : IsCut h.pieces rest := by
  have hbrace : IsCut openingPieces rest :=
    isCut_blank (by simp; decide) (isCut_punctuation rfl (.nil rest))
  obtain ⟨hpseudos, hend⟩ := isCut_pseudos hp.pseudos (by simp [IsSuffixEnd, openingPieces]) hbrace
  obtain ⟨htags, hend⟩ := isCut_tags hp.tags hend hpseudos
  have hname := isCut_name hp.name hend.isNameChar htags
  rw [Header.pieces, Header.namePieces, List.append_assoc]
  cases h.combinator with
  | none => exact hname
  | some c =>
    refine .cons (fun previous => ?_) (isCut_blank ?_ hname)
    · cases c <;> exact ⟨_, cuts_punctuation rfl previous _⟩
    · obtain ⟨hne, hchars⟩ := IsArgument.isNameChar (.inl hp.name.plain)
      intro x hx
      refine isInlineBlank_of_not_mark (isMark_of_isNameChar (hchars x ?_))
      obtain ⟨d, n, hn⟩ := List.exists_cons_of_ne_nil hne
      rw [hn] at hx ⊢
      cases hx
      exact List.mem_cons_self

theorem placed_namePieces (h : Header) (p : Position) (ts : List Token) :
    ∃ q, placed p h.namePieces ++ ts = ⟨.identifier, h.name, p⟩ ::
      (placed (p.after h.name.toList) (h.tags.flatMap tagPieces ++ h.pseudos.flatMap Pseudo.pieces) ++
        (placed q openingPieces ++ ts)) := by
  refine ⟨(p.after h.name.toList).after
    (spelled (h.tags.flatMap tagPieces ++ h.pseudos.flatMap Pseudo.pieces)), ?_⟩
  rw [Header.namePieces, placed_cons, placed_append, List.cons_append, List.append_assoc,
    String.ofList_toList]

theorem readSuffixes_placed {h : Header} (hp : h.IsPlain) (p q : Position) (ts : List Token) :
    readSuffixes (placed p (h.tags.flatMap tagPieces ++ h.pseudos.flatMap Pseudo.pieces) ++
      (placed q openingPieces ++ ts)) = some (h.tags, h.pseudos, placed q openingPieces ++ ts) := by
  have hmark : nextKind (placed q openingPieces ++ ts) = .whitespace := rfl
  rw [placed_append, List.append_assoc]
  exact readSuffixes_tags (readSuffixes_pseudos (fun x hx => (hp.pseudos x hx).2) (by simp [hmark])
    (by simp [hmark]) _) p

/-- **The reader takes a header from its pieces.** -/
theorem header?_placed {h : Header} (hp : h.IsPlain) (p : Position) (ts : List Token) :
    header? (placed p h.pieces ++ ts) = some (h, ts) := by
  have hsuffixes := readSuffixes_placed hp
  have hname := placed_namePieces h
  obtain ⟨name, tags, pseudos, combinator⟩ := h
  rw [header?_eq_some_iff]
  rcases combinator with _ | c
  · obtain ⟨q, hq⟩ := hname p ts
    rw [show Header.pieces ⟨name, tags, pseudos, none⟩ = Header.namePieces ⟨name, tags, pseudos, none⟩
      from rfl, hq]
    exact ⟨_, _, _, _, rfl, rfl, hsuffixes _ q ts, rfl, rfl, rfl, rfl⟩
  · obtain ⟨q, hq⟩ := hname ((p.after c.symbol.toList).next ' ') ts
    have hlead : placed p (Header.pieces ⟨name, tags, pseudos, some c⟩) ++ ts =
        ⟨combinatorKind c, String.ofList c.symbol.toList, p⟩ :: ⟨.whitespace, " ", p.after c.symbol.toList⟩ ::
          (placed ((p.after c.symbol.toList).next ' ') (Header.namePieces ⟨name, tags, pseudos, some c⟩) ++
            ts) := rfl
    have hcombinator : combinator? (combinatorKind c) = some c := by cases c <;> rfl
    rw [hlead, hq]
    refine ⟨⟨.identifier, name, _⟩, _, _, _, if_pos ?_, rfl, hsuffixes _ q ts, rfl, rfl, rfl,
      hcombinator.symm⟩
    rw [nextKind, hcombinator]
    rfl

end SpecTree.Spec
