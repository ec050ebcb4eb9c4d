import SpecTree.Build.Header
import SpecTree.Text.Pieces

/-!
# Provenance headers taken off again

A header stands at the start of a file or behind its interpreter line, so it can be found again by its text.

1. `takeOff_insert` compares the content with what is left when the header is taken off: it is the content, but
   for the line break that an interpreter line without one is given.
2. `remove_add` says so of files. Only such an interpreter line and the same line with its end become one file.
-/

namespace SpecTree.Header

open Text (splitWhile splitWhile_of_all)

/-! ## Characters -/

section

variable {header content other : List Char}

def opensWithInterpreter (content : List Char) : Bool := ['#', '!'].isPrefixOf content

/-- The content is an interpreter line without an end. -/
def IsOpenLine (content : List Char) : Prop := opensWithInterpreter content = true ∧ '\n' ∉ content

instance : DecidablePred IsOpenLine := fun _ => inferInstanceAs (Decidable (_ ∧ _))

/-- The content with an end to its interpreter line. -/
def ended (content : List Char) : List Char := if IsOpenLine content then content ++ ['\n'] else content

/-- A text without the header, if that is how it starts. -/
def takeOffStart (header text : List Char) : List Char :=
  if header.isPrefixOf text then text.drop header.length else text

/-- A text without the header at its start or behind its interpreter line. -/
def takeOff (header text : List Char) : List Char :=
  if opensWithInterpreter text then
    match splitWhile (· != '\n') text with
    | (line, '\n' :: rest) => line ++ '\n' :: takeOffStart header rest
    | _ => text
  else takeOffStart header text

theorem takeOffStart_append (header rest : List Char) : takeOffStart header (header ++ rest) = rest := by
  rw [takeOffStart, if_pos (List.isPrefixOf_iff_prefix.2 (List.prefix_append header rest)), List.drop_left]

theorem splitWhile_line {line rest : List Char} (h : '\n' ∉ line) (hr : ∀ c, rest.head? = some c → c = '\n') :
    splitWhile (· != '\n') (line ++ rest) = (line, rest) :=
  splitWhile_of_all (fun c hc => bne_iff_ne.2 fun he => h (he ▸ hc)) fun c hc => by rw [hr c hc]; rfl

/-- What follows a line does not make it an interpreter line. -/
theorem opensWithInterpreter_line (line rest : List Char) :
    opensWithInterpreter (line ++ '\n' :: rest) = opensWithInterpreter line := by
  match line with
  | [] => rfl
  | [_] => simp [opensWithInterpreter, List.isPrefixOf]
  | _ :: _ :: _ => simp [opensWithInterpreter, List.isPrefixOf]

/-! ### The places of a header -/

theorem insert_start (header : String) (ho : opensWithInterpreter content = false) :
    insert header content = header.toList ++ content := by
  rw [opensWithInterpreter] at ho
  rw [insert, ho]
  rfl

/-- The header stands behind an interpreter line; `rest` is the line break and all that follows, if there is one. -/
theorem insert_behind (header : String) {line : List Char} (hl : '\n' ∉ line) (rest : List Char)
    (hr : ∀ c, rest.head? = some c → c = '\n') (ho : opensWithInterpreter (line ++ rest) = true) :
    insert header (line ++ rest) = line ++ '\n' :: header.toList ++ rest.drop 1 := by
  have hsplit := splitWhile_line hl hr
  rw [splitWhile, Prod.mk.injEq] at hsplit
  rw [opensWithInterpreter] at ho
  rw [insert, if_pos ho, hsplit.1, hsplit.2]

theorem insert_ended (header : String) (content : List Char) :
    insert header (ended content) = insert header content := by
  rw [ended]
  split
  · next hopen =>
    have hline := insert_behind header hopen.2 ['\n'] (by simp)
      ((opensWithInterpreter_line content []).trans hopen.1)
    have hopen' := insert_behind header hopen.2 [] (by simp) (by rw [List.append_nil]; exact hopen.1)
    rw [List.append_nil] at hopen'
    rw [hline, hopen']
    rfl
  · rfl

/-- A content that opens with an interpreter line, with an end to this line. -/
theorem exists_ended_eq (ho : opensWithInterpreter content = true) :
    ∃ line rest, '\n' ∉ line ∧ ended content = line ++ '\n' :: rest := by
  rw [ended]
  by_cases hm : '\n' ∈ content
  · obtain ⟨line, rest, hc, hl⟩ := List.eq_append_cons_of_mem hm
    exact ⟨line, rest, hl, by rw [if_neg fun hopen => hopen.2 hm, hc]⟩
  · exact ⟨content, [], hm, if_pos ⟨ho, hm⟩⟩

theorem opensWithInterpreter_ended (content : List Char) :
    opensWithInterpreter (ended content) = opensWithInterpreter content := by
  rw [ended]
  split
  · exact opensWithInterpreter_line content []
  · rfl

/-- **A header that was inserted is found again**, and what it was inserted into is left. -/
theorem takeOff_insert {header : String} (hh : ∀ rest, opensWithInterpreter (header.toList ++ rest) = false)
    (content : List Char) : takeOff header.toList (insert header content) = ended content := by
  cases ho : opensWithInterpreter content with
  | false =>
    rw [insert_start header ho, takeOff, hh, if_neg Bool.false_ne_true, takeOffStart_append, ended, if_neg]
    exact fun hopen => by rw [hopen.1] at ho; cases ho
  | true =>
    obtain ⟨line, rest, hl, he⟩ := exists_ended_eq ho
    have hline : opensWithInterpreter line = true := by
      rw [← opensWithInterpreter_line line rest, ← he, opensWithInterpreter_ended, ho]
    have hbehind := insert_behind header hl ('\n' :: rest) (by simp)
      ((opensWithInterpreter_line line rest).trans hline)
    rw [← insert_ended, he, hbehind, List.append_assoc, List.cons_append, takeOff, opensWithInterpreter_line,
      if_pos hline, splitWhile_line hl (by simp)]
    exact congrArg (line ++ '\n' :: ·) (takeOffStart_append _ _)

/-- Contents become one text when they are one with an end to their interpreter lines. -/
theorem insert_eq_insert_iff {header : String} (hh : ∀ rest, opensWithInterpreter (header.toList ++ rest) = false) :
    insert header content = insert header other ↔ ended content = ended other := by
  constructor
  · intro h
    rw [← takeOff_insert hh, h, takeOff_insert hh]
  · intro h
    rw [← insert_ended, h, insert_ended]

theorem ended_eq_ended_iff : ended content = ended other ↔ content = other ∨
    (IsOpenLine content ∧ other = content ++ ['\n']) ∨ IsOpenLine other ∧ content = other ++ ['\n'] := by
  have hmem (cs : List Char) : ¬ IsOpenLine (cs ++ ['\n']) := fun h => h.2 (by simp)
  constructor
  · intro h
    rw [ended, ended] at h
    split at h <;> split at h
    · exact .inl (List.append_cancel_right h)
    · next hc _ => exact .inr (.inl ⟨hc, h.symm⟩)
    · next _ ho => exact .inr (.inr ⟨ho, h⟩)
    · exact .inl h
  · rintro (rfl | ⟨hc, rfl⟩ | ⟨ho, rfl⟩)
    · rfl
    · rw [ended, if_pos hc, ended, if_neg (hmem content)]
    · rw [ended, if_neg (hmem other), ended, if_pos ho]

end

/-! ## Files -/

section

variable {path : String}

/-- The comment style for a file. -/
def styleOf? (path : String) : Option Style := styleFor? (Text.lower ((Path.extension? path).getD ""))

/-- The content of a file without its provenance. -/
def remove (content path nodePath : String) : String :=
  match styleOf? path with
  | none => content
  | some style => String.ofList (takeOff (text style nodePath).toList content.toList)

theorem styleFor?_cases {extension : String} {style : Style} (h : styleFor? extension = some style) :
    style = block ∨ style = hash ∨ style = markup ∨ style = dashes := by
  unfold styleFor? at h
  split at h
  · exact .inl (Option.some.inj h).symm
  · split at h
    · exact .inr (.inl (Option.some.inj h).symm)
    · split at h
      · exact .inr (.inr (.inl (Option.some.inj h).symm))
      · split at h
        · exact .inr (.inr (.inr (Option.some.inj h).symm))
        · cases h

/-- No header could be taken for an interpreter line. -/
theorem opensWithInterpreter_text {style : Style} (h : styleOf? path = some style) (nodePath : String)
    (rest : List Char) : opensWithInterpreter ((text style nodePath).toList ++ rest) = false := by
  rcases styleFor?_cases h with rfl | rfl | rfl | rfl <;>
    simp [text, block, hash, markup, dashes, opensWithInterpreter, List.isPrefixOf]

theorem add_of_none (h : styleOf? path = none) (content nodePath : String) :
    add content path nodePath = content := by
  rw [styleOf?] at h
  delta add
  rw [h]

theorem add_of_some {style : Style} (h : styleOf? path = some style) (content nodePath : String) :
    add content path nodePath = String.ofList (insert (text style nodePath) content.toList) := by
  rw [styleOf?] at h
  delta add
  rw [h]

theorem remove_of_none (h : styleOf? path = none) (content nodePath : String) :
    remove content path nodePath = content := by
  delta remove
  rw [h]

theorem remove_of_some {style : Style} (h : styleOf? path = some style) (content nodePath : String) :
    remove content path nodePath = String.ofList (takeOff (text style nodePath).toList content.toList) := by
  delta remove
  rw [h]

theorem remove_add_of_some {style : Style} (h : styleOf? path = some style) (content nodePath : String) :
    remove (add content path nodePath) path nodePath = String.ofList (ended content.toList) := by
  rw [remove_of_some h, add_of_some h, String.toList_ofList, takeOff_insert (opensWithInterpreter_text h nodePath)]

theorem add_eq_add_iff_of_some {style : Style} (h : styleOf? path = some style) (content other nodePath : String) :
    add content path nodePath = add other path nodePath ↔ ended content.toList = ended other.toList := by
  rw [add_of_some h, add_of_some h, String.ofList_inj, insert_eq_insert_iff (opensWithInterpreter_text h nodePath)]

theorem toList_eq_concat_iff {content other : String} :
    other.toList = content.toList ++ ['\n'] ↔ other = content ++ "\n" := by
  rw [← String.toList_inj, String.toList_append]
  rfl

/-- **A provenance header can be taken off again.** What is left is the content, but for an end to an interpreter
line that had none. So two contents become one file only if they differ in this. -/
theorem remove_add (content path nodePath : String) :
    (styleOf? path = none ∨ ¬ IsOpenLine content.toList →
      remove (add content path nodePath) path nodePath = content) ∧
    ((styleOf? path).isSome → IsOpenLine content.toList →
      remove (add content path nodePath) path nodePath = content ++ "\n") ∧
    ∀ other, add content path nodePath = add other path nodePath ↔
      content = other ∨ (styleOf? path).isSome ∧ (IsOpenLine content.toList ∧ other = content ++ "\n" ∨
        IsOpenLine other.toList ∧ content = other ++ "\n") := by
  cases hs : styleOf? path with
  | none =>
    refine ⟨fun _ => ?_, fun h => absurd h Bool.false_ne_true, fun other => ?_⟩
    · rw [remove_of_none hs, add_of_none hs]
    · rw [add_of_none hs, add_of_none hs]
      simp
  | some style =>
    refine ⟨fun h => ?_, fun _ h => ?_, fun other => ?_⟩
    · rw [remove_add_of_some hs, ended, if_neg (h.resolve_left (by simp)), String.ofList_toList]
    · rw [remove_add_of_some hs, ended, if_pos h, String.ofList_append, String.ofList_toList]
    · rw [add_eq_add_iff_of_some hs, ended_eq_ended_iff, String.toList_inj, toList_eq_concat_iff,
        toList_eq_concat_iff]
      simp

/-- A script keeps its first line, and its header can be taken off. -/
theorem remove_add_script :
    (styleOf? "run.sh" = none ∨ ¬ IsOpenLine "#!/bin/sh\necho hi".toList) ∧
      add "#!/bin/sh\necho hi" "run.sh" "tools" = "#!/bin/sh\n# Generated by AIDef from: tools\n" ++
        "# DO NOT EDIT - changes will be overwritten\n\necho hi" ∧
      remove (add "#!/bin/sh\necho hi" "run.sh" "tools") "run.sh" "tools" = "#!/bin/sh\necho hi" := by
  have h : styleOf? "run.sh" = none ∨ ¬ IsOpenLine "#!/bin/sh\necho hi".toList := .inr (by decide)
  exact ⟨h, by decide +kernel, (remove_add "#!/bin/sh\necho hi" "run.sh" "tools").1 h⟩

/-- An interpreter line without an end comes back with one, and it becomes the same file as with its end. -/
theorem openLine_not_given_back :
    (¬ ∀ content path nodePath : String, remove (add content path nodePath) path nodePath = content) ∧
      ¬ ∀ path nodePath : String, Function.Injective fun content => add content path nodePath := by
  have hs : styleOf? "run.sh" = some hash := rfl
  constructor
  · intro h
    have hremove := (h "#!/bin/sh" "run.sh" "tools").symm.trans (remove_add_of_some hs "#!/bin/sh" "tools")
    revert hremove
    decide
  · intro h
    have hsame : add "#!/bin/sh" "run.sh" "tools" = add "#!/bin/sh\n" "run.sh" "tools" :=
      (add_eq_add_iff_of_some hs "#!/bin/sh" "#!/bin/sh\n" "tools").2 (by decide)
    exact absurd (h "run.sh" "tools" hsame) (by decide)

end

end SpecTree.Header
