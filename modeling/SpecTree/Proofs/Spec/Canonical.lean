import Mathlib.Data.List.TakeDrop
import SpecTree.Proofs.Path.Spelling
import SpecTree.Proofs.Spec.Scanning
import SpecTree.Proofs.Text.Conversions
import SpecTree.Spec.Parser
import SpecTree.Text.Blank

/-!
# Canonical texts

Trees whose canonical text can be read back (`WellFormed`), and the characters of that text
(`toList_render_module`, `toList_renderAll`): each statement stands after a line end and its indentation.
Values in it are recovered from tokens.

1. A quoted value is one string token, and its value is unquoted again (`unquote_quoted`).
2. A bare value is a run of characters that mean nothing to the lexer (`isRunChar_of_isBareValue`).
3. Arguments in a row are taken apart at their commas again (`splitAt_intercalate`).
-/

namespace SpecTree.Spec

/-! ## Trees without places -/

namespace Statement

mutual

/-- The statement, wherever it stands. -/
def bare : Statement → Statement
  | module header children _ => .module header (bareAll children) default
  | prose text important _ => .prose text important default
  | constraint text important _ => .constraint text important default
  | inclusion path _ => .inclusion path default
  | param name value _ => .param name value default
  | comment text _ => .comment text default

def bareAll : List Statement → List Statement
  | [] => []
  | s :: rest => s.bare :: bareAll rest

end

end Statement

open Statement (bareAll)

/-! ## Trees that can be read back -/

/-- A name of a module, a tag, a pseudo selector or a parameter. -/
structure IsName (n : String) : Prop where
  plain : isPlainName n.toList = true
  ne_include : n.toList ≠ includeName

/-- Names and digits stand between the parentheses of a pseudo selector. -/
def IsArgument (a : String) : Prop :=
  isPlainName a.toList = true ∨ a.toList ≠ [] ∧ ∀ c ∈ a.toList, isDigit c = true

structure Header.IsPlain (h : Header) : Prop where
  name : IsName h.name
  tags : ∀ t ∈ h.tags, IsName t
  pseudos : ∀ p ∈ h.pseudos, IsName p.name ∧ ∀ a ∈ p.args, IsArgument a

/-- Letters, digits, and all other characters that are neither blank nor treated apart by the lexer. -/
def isWordChar (c : Char) : Bool := !isMark c && !Text.isBlank c

def IsWord (w : List Char) : Prop := w ≠ [] ∧ ∀ c ∈ w, isWordChar c = true

/-- Words with one blank between any two, which do not begin with the word `include`. -/
def IsPhrase (text : List Char) : Prop :=
  ∃ first words, text = Text.joinPieces ' ' (first :: words) ∧ (∀ w ∈ first :: words, IsWord w) ∧
    first.takeWhile isNameChar ≠ includeName

/-- A comment to the end of its line, or one between marks of its own. -/
inductive IsComment : List Char → Prop
  | hash {cs : List Char} (h : '\n' ∉ cs) : IsComment ('#' :: cs)
  | slashes {cs : List Char} (h : '\n' ∉ cs) : IsComment ('/' :: '/' :: cs)
  | block {body : List Char} (h : ¬ ['*', '/'] <:+: body) :
      IsComment ('/' :: ('*' :: body ++ ['*', '/']))

namespace Statement

/-- Prose and constraints differ only in how they end. -/
def isFree : Statement → Bool
  | prose .. | constraint .. => true
  | _ => false

end Statement

/-- Statements whose canonical text is read as these statements. -/
inductive WellFormed : List Statement → Prop
  | nil : WellFormed []
  | module {header : Header} {children rest : List Statement} {span : Span} (h : header.IsPlain)
      (inside : WellFormed children) (there : WellFormed rest) :
      WellFormed (.module header children span :: rest)
  | prose {text : String} {important : Bool} {span : Span} {rest : List Statement}
      (h : IsPhrase text.toList) (hn : ∀ s, rest.head? = some s → s.isFree = false)
      (there : WellFormed rest) : WellFormed (.prose text important span :: rest)
  | constraint {text : String} {important : Bool} {span : Span} {rest : List Statement}
      (h : IsPhrase text.toList) (there : WellFormed rest) :
      WellFormed (.constraint text important span :: rest)
  | param {name value : String} {span : Span} {rest : List Statement} (h : IsName name)
      (hv : value.toList.getLast? ≠ some '\n') (there : WellFormed rest) :
      WellFormed (.param name value span :: rest)
  | comment {text : String} {span : Span} {rest : List Statement} (h : IsComment text.toList)
      (there : WellFormed rest) : WellFormed (.comment text span :: rest)

/-! ## The characters of the text -/

/-- The blanks in front of a statement. -/
def indent (depth : Nat) : List Char := List.replicate (2 * depth) ' '

theorem toList_pushn (s : String) (c : Char) (n : Nat) :
    (s.pushn c n).toList = s.toList ++ List.replicate n c := by
  induction n with
  | zero => simp [String.pushn, Nat.repeat]
  | succ n ih =>
    rw [String.pushn] at ih ⊢
    rw [Nat.repeat, String.toList_push, ih, List.replicate_succ', List.append_assoc]

theorem toList_indentation (depth : Nat) : (indentation depth).toList = indent depth :=
  toList_pushn "" ' ' (2 * depth)

theorem toList_indented {text : String} (h : text ≠ "") (depth : Nat) :
    (indented depth text).toList = indent depth ++ text.toList := by
  rw [indented, if_neg (by simp [h]), String.toList_append, toList_indentation]

/-- Statements on lines of their own, each after a line end, and the text that follows them. -/
def lines (depth : Nat) (statements : List Statement) (rest : List Char) : List Char :=
  statements.flatMap (fun s => '\n' :: (s.render depth).toList) ++ rest

@[simp] theorem lines_nil (depth : Nat) (rest : List Char) : lines depth [] rest = rest := rfl

@[simp] theorem lines_cons (depth : Nat) (s : Statement) (statements : List Statement)
    (rest : List Char) : lines depth (s :: statements) rest =
      '\n' :: ((s.render depth).toList ++ lines depth statements rest) := by
  simp [lines]

theorem renderEach_eq (depth : Nat) (statements : List Statement) :
    Statement.renderEach depth statements = statements.map (Statement.render depth) := by
  induction statements with
  | nil => rw [Statement.renderEach, List.map_nil]
  | cons s statements ih => rw [Statement.renderEach, ih, List.map_cons]

theorem toList_joinLines {line : String} {more : List String} (h : ∀ l ∈ line :: more, l ≠ "") :
    (joinLines (line :: more)).toList =
      line.toList ++ more.flatMap (fun l => '\n' :: l.toList) := by
  have hall : (line :: more).filter (!·.isEmpty) = line :: more := by
    rw [List.filter_eq_self]
    intro l hl
    simp [h l hl]
  rw [joinLines, hall, String.toList_intercalate]
  clear hall h
  induction more generalizing line with
  | nil => simp
  | cons l more ih =>
    have hmore := @ih l
    simp only [List.map_cons] at hmore ⊢
    rw [List.intercalate_cons_cons, hmore]
    simp

theorem toList_renderAll {depth : Nat} {s : Statement} {rest : List Statement}
    (h : ∀ x ∈ s :: rest, x.render depth ≠ "") :
    (Statement.renderAll depth (s :: rest)).toList = (s.render depth).toList ++ lines depth rest [] := by
  have hlines : ∀ l ∈ (s :: rest).map (Statement.render depth), l ≠ "" := by
    intro l hl
    obtain ⟨x, hx, rfl⟩ := List.mem_map.1 hl
    exact h x hx
  rw [Statement.renderAll, renderEach_eq, List.map_cons] at *
  rw [toList_joinLines hlines, lines, List.append_nil, List.flatMap_map]

/-- The text of a module: its header, the lines of its statements, and its closing brace. -/
theorem toList_render_module {depth : Nat} {header : Header} {children : List Statement} {span : Span}
    (h : ∀ x ∈ children, x.render (depth + 1) ≠ "") :
    (Statement.render depth (.module header children span)).toList =
      indent depth ++ header.text.toList ++
        [' ', '{'] ++ lines (depth + 1) children ('\n' :: (indent depth ++ ['}'])) := by
  have hhead : (" \x7b\n" : String).toList = [' ', '{', '\n'] := by decide
  have hfoot : ("\x7d" : String).toList = ['}'] := by decide
  rw [Statement.render]
  cases children with
  | nil =>
    have hbody : Statement.renderAll (depth + 1) [] = "" := by
      rw [Statement.renderAll, renderEach_eq]
      rfl
    rw [hbody, if_pos (by rfl)]
    simp [toList_indentation, hhead, hfoot]
  | cons s rest =>
    have hbody := toList_renderAll h
    have hne : Statement.renderAll (depth + 1) (s :: rest) ≠ "" := by
      intro he
      rw [he, String.toList_empty, eq_comm, List.append_eq_nil_iff, String.toList_eq_nil_iff] at hbody
      exact h s List.mem_cons_self hbody.1
    rw [if_neg (by simp [hne])]
    simp [toList_indentation, hhead, hfoot, hbody, lines]

end SpecTree.Spec

namespace SpecTree.Spec

open Text (strip_between strip_of_not_isBlank)

/-! ## Quoted values -/

theorem escapeChars_cons_of_ne {c : Char} (hb : c ≠ '\\') (hq : c ≠ '"') (cs : List Char) :
    escapeChars (c :: cs) = c :: escapeChars cs := by
  rw [escapeChars]
  · exact fun h => hb h
  · exact fun h => hq h

/-- An escaped text ends at the quote after it. -/
theorem splitString_escapeChars (cs rest : List Char) :
    splitString (escapeChars cs ++ '"' :: rest) = (escapeChars cs ++ ['"'], rest, true) := by
  induction cs with
  | nil => rfl
  | cons c cs ih =>
    by_cases hb : c = '\\'
    · subst hb
      simp [escapeChars, splitString, ih]
    by_cases hq : c = '"'
    · subst hq
      simp [escapeChars, splitString, ih]
    rw [escapeChars_cons_of_ne hb hq, List.cons_append, splitString, ih]
    · rfl
    · exact fun h => hq h
    · exact fun d ds h => absurd h hb

theorem replacePair_cons_of_ne {a c : Char} (h : c ≠ a) (b new : Char) (cs : List Char) :
    replacePair a b new (c :: cs) = c :: replacePair a b new cs := by
  cases cs with
  | nil => rfl
  | cons d cs => rw [replacePair, if_neg fun hc => h hc.1]

theorem replacePair_cons_of_head {b : Char} {cs : List Char} (h : cs.head? ≠ some b)
    (a new c : Char) : replacePair a b new (c :: cs) = c :: replacePair a b new cs := by
  cases cs with
  | nil => rfl
  | cons d cs => rw [replacePair, if_neg fun hc => h (by rw [hc.2]; rfl)]

/-- The text with each backslash twice. -/
def doubled (cs : List Char) : List Char := cs.flatMap fun c => if c = '\\' then ['\\', '\\'] else [c]

theorem replacePair_doubled (cs : List Char) : replacePair '\\' '\\' '\\' (doubled cs) = cs := by
  induction cs with
  | nil => rfl
  | cons c cs ih =>
    rw [doubled, List.flatMap_cons]
    by_cases hb : c = '\\'
    · subst hb
      rw [if_pos rfl, List.cons_append, List.cons_append, List.nil_append, replacePair,
        if_pos ⟨rfl, rfl⟩]
      exact congrArg _ ih
    · rw [if_neg hb, List.singleton_append, replacePair_cons_of_ne hb]
      exact congrArg _ ih

theorem escapeChars_head (cs : List Char) : (escapeChars cs).head? ≠ some '"' := by
  fun_cases escapeChars cs with
  | case1 => nofun
  | case2 cs => simp
  | case3 cs => simp
  | case4 c cs hb hq => simpa using hq

/-- Undoing the escaped quotes leaves the escaped backslashes. -/
theorem replacePair_escapeChars (cs : List Char) :
    replacePair '\\' '"' '"' (escapeChars cs) = doubled cs := by
  induction cs with
  | nil => rfl
  | cons c cs ih =>
    rw [doubled, List.flatMap_cons]
    by_cases hb : c = '\\'
    · subst hb
      rw [escapeChars, replacePair_cons_of_head (by simp),
        replacePair_cons_of_head (escapeChars_head cs), ih]
      rfl
    by_cases hq : c = '"'
    · subst hq
      rw [escapeChars, replacePair, if_pos ⟨rfl, rfl⟩, ih]
      rfl
    rw [escapeChars_cons_of_ne hb hq, replacePair_cons_of_ne hb, ih, if_neg hb]
    rfl

/-- **Quoting is undone.** -/
theorem unquote_quoted (value : String) : unquote ("\"" ++ escape value ++ "\"") = value := by
  have hstrip : stripQuotes ("\"" ++ escape value ++ "\"").toList = escapeChars value.toList := by
    simp [stripQuotes, escape]
  rw [unquote, hstrip, replacePair_escapeChars, replacePair_doubled, String.ofList_toList]

theorem cuts_quoted (value : String) (rest : List Char) (previous : Option Char) :
    Cuts previous (("\"" ++ escape value ++ "\"").toList ++ rest)
      [⟨.string, ("\"" ++ escape value ++ "\"").toList⟩] (some '"') rest := by
  have hcut := cuts_string (splitString_escapeChars value.toList rest) previous
  have hlast : ('"' :: (escapeChars value.toList ++ ['"'])).getLast? = some '"' :=
    List.getLast?_concat (l := '"' :: escapeChars value.toList)
  rw [hlast] at hcut
  simpa [escape] using hcut

/-- **Quoting is lossless.** A quoted text is one string token and the end token, nothing is wrong with it,
and the token stands for the text. -/
theorem quoting_lossless (value : String) :
    tokenize ("\"" ++ escape value ++ "\"") =
        ⟨[⟨.string, "\"" ++ escape value ++ "\"", .origin⟩,
          ⟨.eof, "", Position.origin.after ("\"" ++ escape value ++ "\"").toList⟩], []⟩ ∧
      unquote ("\"" ++ escape value ++ "\"") = value := by
  refine ⟨?_, unquote_quoted value⟩
  have hcuts := cuts_quoted value [] none
  rw [List.append_nil] at hcuts
  rw [tokenize, tokenizeFrom_of_cuts hcuts, tokenizeFrom, placed_cons, String.ofList_toList, spelled_cons,
    spelled_nil, List.append_nil]
  rfl

/-! ## Bare values -/

/-- The blanks, by number. -/
def blankCodes : List Nat :=
  [9, 10, 11, 12, 13, 28, 29, 30, 31, 32, 0x85, 0xA0, 0x1680, 0x2000, 0x2001, 0x2002, 0x2003, 0x2004,
   0x2005, 0x2006, 0x2007, 0x2008, 0x2009, 0x200A, 0x2028, 0x2029, 0x202F, 0x205F, 0x3000]

theorem mem_blankCodes {c : Char} (h : Text.isBlank c = true) : c ∈ blankCodes.map Char.ofNat := by
  refine List.mem_map.2 ⟨c.toNat, ?_, Char.ofNat_toNat c⟩
  simp only [Text.isBlank, Bool.or_eq_true, Bool.and_eq_true, decide_eq_true_eq, beq_iff_eq] at h
  simp only [blankCodes, List.mem_cons, List.not_mem_nil, or_false]
  omega

/-- Decimal digits of any script stand in a run, and so do the characters of names. -/
theorem isRunChar_of_isDecimalDigit {c : Char}
    (h : Text.isDecimalDigit c = true ∨ isNameChar c = true) :
    isRunChar c = true ∧ Text.isBlank c = false := by
  have hblanks : (blankCodes.map Char.ofNat).all fun b => !(Text.isDecimalDigit b || isNameChar b) := by
    decide +kernel
  have hmarks : marks.all fun m => !(Text.isDecimalDigit m || isNameChar m) := by decide +kernel
  rw [← Bool.or_eq_true] at h
  constructor
  · cases hm : isMark c with
    | false => simp [isRunChar, hm]
    | true =>
      have := List.all_eq_true.1 hmarks c (mem_marks hm)
      rw [h] at this
      cases this
  · cases hb : Text.isBlank c with
    | false => rfl
    | true =>
      have := List.all_eq_true.1 hblanks c (mem_blankCodes hb)
      rw [h] at this
      cases this

theorem isNameChar_of_isAlphanum {c : Char} (h : c.isAlphanum = true) : isNameChar c = true := by
  delta Char.isAlphanum Char.isAlpha Char.isUpper Char.isLower Char.isDigit at h
  simp only [Bool.or_eq_true, Bool.and_eq_true, decide_eq_true_eq] at h
  simp only [isNameChar, isNameStart, isDigit, Char.le_def, Bool.or_eq_true, Bool.and_eq_true,
    decide_eq_true_eq]
  rcases h with (h | h) | h
  · exact .inl (.inl (.inr h))
  · exact .inl (.inl (.inl (.inr h)))
  · exact .inl (.inr h)

/-- Words of letters and digits make a phrase, unless the first one is `include`. -/
theorem isPhrase_of_isAlphanum {text first : String} {words : List String}
    (ht : text.toList = Text.joinPieces ' ' (first.toList :: words.map String.toList))
    (h : ∀ w ∈ first :: words, w ≠ "" ∧ w.toList.all Char.isAlphanum = true)
    (hi : first.toList ≠ includeName) : IsPhrase text.toList := by
  have hname : ∀ w ∈ first :: words, ∀ c ∈ w.toList, isNameChar c = true := fun w hw c hc =>
    isNameChar_of_isAlphanum (List.all_eq_true.1 (h w hw).2 c hc)
  refine ⟨first.toList, words.map String.toList, ht, fun w hw => ?_, ?_⟩
  · rw [← List.map_cons] at hw
    obtain ⟨x, hx, rfl⟩ := List.mem_map.1 hw
    refine ⟨by simpa using (h x hx).1, fun c hc => ?_⟩
    have hc := hname x hx c hc
    simp [isWordChar, isMark_of_isNameChar hc, isRunChar_of_isDecimalDigit (.inr hc)]
  · rwa [List.takeWhile_eq_self_iff.2 (hname first List.mem_cons_self)]

/-- Plain numbers and plain names are runs of such characters. -/
theorem isRunChar_of_isPlain {cs : List Char} (h : (isPlainNumber cs || isPlainName cs) = true) :
    cs ≠ [] ∧ ∀ c ∈ cs, isRunChar c = true ∧ Text.isBlank c = false := by
  rw [Bool.or_eq_true] at h
  rcases h with h | h
  · rw [isPlainNumber, List.span_eq_takeWhile_dropWhile] at h
    have happend := List.takeWhile_append_dropWhile (p := Text.isDecimalDigit) (l := cs)
    have hwhole : ∀ c ∈ cs.takeWhile Text.isDecimalDigit, Text.isDecimalDigit c = true :=
      fun c hc => List.mem_takeWhile_imp hc
    generalize cs.takeWhile Text.isDecimalDigit = whole, cs.dropWhile Text.isDecimalDigit = rest
      at h happend hwhole
    subst happend
    dsimp only at h
    split at h
    · rw [List.append_nil]
      exact ⟨by simpa using h, fun c hc => isRunChar_of_isDecimalDigit (.inl (hwhole c hc))⟩
    · simp only [Bool.and_eq_true, List.all_eq_true] at h
      refine ⟨by simp, fun c hc => ?_⟩
      rcases List.mem_append.1 hc with hc | hc
      · exact isRunChar_of_isDecimalDigit (.inl (hwhole c hc))
      rcases List.mem_cons.1 hc with rfl | hc
      · decide
      · exact isRunChar_of_isDecimalDigit (.inl (h.2 c hc))
    · cases h
  · cases cs with
    | nil => cases h
    | cons c cs =>
      simp only [isPlainName, Bool.and_eq_true, List.all_eq_true] at h
      refine ⟨by simp, fun x hx => isRunChar_of_isDecimalDigit (.inr ?_)⟩
      rcases List.mem_cons.1 hx with rfl | hx
      · exact isNameChar_of_isNameStart h.1
      · exact h.2 x hx

/-- A value without quotes is a run of such characters. -/
theorem isRunChar_of_isBareValue {cs : List Char} (h : isBareValue cs = true)
    (hn : cs.getLast? ≠ some '\n') :
    cs ≠ [] ∧ ∀ c ∈ cs, isRunChar c = true ∧ Text.isBlank c = false := by
  rw [isBareValue, if_neg hn] at h
  exact isRunChar_of_isPlain h

/-! ## Arguments in a row -/

theorem IsArgument.isNameChar {a : String} (h : IsArgument a) :
    a.toList ≠ [] ∧ ∀ c ∈ a.toList, isNameChar c = true := by
  rcases h with h | h
  · cases ha : a.toList with
    | nil => simp [ha, isPlainName] at h
    | cons c cs =>
      simp only [ha, isPlainName, Bool.and_eq_true, List.all_eq_true] at h
      exact ⟨by simp, List.forall_mem_cons.2 ⟨isNameChar_of_isNameStart h.1, h.2⟩⟩
  · exact ⟨h.1, fun c hc => isNameChar_of_isDigit (h.2 c hc)⟩

/-- The text between the parentheses. -/
def listed (a : String) (args : List String) : List Char :=
  a.toList ++ args.flatMap fun x => ',' :: ' ' :: x.toList

theorem listed_cons (a b : String) (args : List String) :
    listed a (b :: args) = a.toList ++ ',' :: ' ' :: listed b args := by
  simp [listed]

theorem toList_intercalate_cons (a : String) (args : List String) :
    (String.intercalate ", " (a :: args)).toList = listed a args := by
  rw [String.toList_intercalate]
  induction args generalizing a with
  | nil => simp [listed]
  | cons b args ih =>
    have hb := ih b
    simp only [List.map_cons] at hb ⊢
    rw [List.intercalate_cons_cons, hb, listed_cons]
    simp

theorem joinPieces_cons (a : String) (args : List String) :
    Text.joinPieces ',' (a.toList :: args.map fun x => ' ' :: x.toList) = listed a args := by
  suffices h : ∀ front, Text.joinPieces ',' (front :: args.map fun x => ' ' :: x.toList) =
      front ++ args.flatMap fun x => ',' :: ' ' :: x.toList from h a.toList
  induction args with
  | nil => simp [Text.joinPieces]
  | cons b args ih =>
    intro front
    rw [List.map_cons, Text.joinPieces, ih]
    simp

/-- The text between the parentheses is taken apart again. -/
theorem splitAt_intercalate {a : String} {args : List String} (h : ∀ x ∈ a :: args, IsArgument x) :
    ((Text.splitAt ',' (String.intercalate ", " (a :: args))).map Text.strip).filter (!·.isEmpty) =
      a :: args := by
  have hchar : ∀ x ∈ a :: args, ∀ c ∈ x.toList, c ≠ ',' ∧ Text.isBlank c = false := by
    intro x hx c hc
    have hname := (h x hx).isNameChar.2 c hc
    refine ⟨?_, (isRunChar_of_isDecimalDigit (.inr hname)).2⟩
    rintro rfl
    cases hname
  have hparts : Text.splitAt ',' (String.intercalate ", " (a :: args)) =
      a :: args.map fun x => String.ofList (' ' :: x.toList) := by
    rw [Text.splitAt, toList_intercalate_cons, ← joinPieces_cons,
      Text.pieces_joinPieces (List.cons_ne_nil _ _)]
    · simp
    · refine List.forall_mem_cons.2 ⟨fun hm => (hchar a List.mem_cons_self _ hm).1 rfl, fun p hp hm => ?_⟩
      obtain ⟨x, hx, rfl⟩ := List.mem_map.1 hp
      rcases List.mem_cons.1 hm with hm | hm
      · cases hm
      · exact (hchar x (List.mem_cons_of_mem _ hx) _ hm).1 rfl
  have hstrip : args.map (Text.strip ∘ fun x => String.ofList (' ' :: x.toList)) = args := by
    refine (List.map_congr_left fun x hx => ?_).trans (List.map_id args)
    have hx := List.mem_cons_of_mem a hx
    have hblank : ∀ c ∈ [' '], Text.isBlank c = true := by simp; rfl
    have := strip_between hblank (List.forall_mem_nil _) (h x hx).isNameChar.1
      (fun c hc => (hchar x hx c (List.mem_of_mem_head? hc)).2)
      fun c hc => (hchar x hx c (List.mem_of_mem_getLast? hc)).2
    simpa using this
  rw [hparts, List.map_cons, strip_of_not_isBlank fun c hc => (hchar a List.mem_cons_self c hc).2,
    List.map_map, hstrip, List.filter_eq_self]
  intro x hx
  have := (h x hx).isNameChar.1
  simpa using this

end SpecTree.Spec
