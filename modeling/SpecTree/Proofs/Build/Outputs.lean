import SpecTree.Build.OutputPath
import SpecTree.Proofs.Path.Spelling
import SpecTree.Proofs.Path.Resolution
import SpecTree.Proofs.Store.Below
import SpecTree.Proofs.Store.Files

/-!
# Where output paths lead

The steps of an output path lead to names. The path is refused for what it looks like before it is resolved,
or because its steps lead to no name or out of the root (`IsRefused`); otherwise it is spelled by those names
(`exists_names_of_normalize`). So an accepted path has one spelling and no way up
(`isInside_of_normalize`), and different paths lead to different places below the output root
(`placeOf_assemble`, `IsInside.parts_injective`).
-/

namespace SpecTree.OutputPath

open SpecTree.Path Text

variable {path inner : String} {cs : List Char} {names : List (List Char)}

/-- A path as its steps are read: without blanks around it, and with slashes for backslashes. -/
def cleared (path : String) : List Char := slashes (stripChars path.toList)

/-! ## What a path looks like -/

theorem isAsciiLetter_eq_isAlpha (c : Char) : isAsciiLetter c = c.isAlpha := by
  delta isAsciiLetter Char.isAlpha Char.isUpper Char.isLower
  simp only [Char.le_def, ge_iff_le, Bool.decide_and]

theorem startsWithDrive_iff :
    startsWithDrive cs = true ↔ ∃ letter rest, cs = letter :: ':' :: rest ∧ letter.isAlpha = true := by
  constructor
  · intro h
    unfold startsWithDrive at h
    split at h
    · next letter rest => exact ⟨letter, rest, rfl, isAsciiLetter_eq_isAlpha letter ▸ h⟩
    · cases h
  · rintro ⟨letter, rest, rfl, h⟩
    exact (isAsciiLetter_eq_isAlpha letter).trans h

theorem stripChars_eq_nil_iff : stripChars cs = [] ↔ ∀ c ∈ cs, isBlank c = true := by
  rw [stripChars, List.reverse_eq_nil_iff, List.dropWhile_eq_nil_iff]
  constructor
  · intro h c hc
    rw [← List.takeWhile_append_dropWhile (p := isBlank) (l := cs), List.mem_append] at hc
    exact hc.elim (List.mem_takeWhile_imp) fun hc => h c (List.mem_reverse.2 hc)
  · exact fun h c hc => h c ((List.dropWhile_suffix _).subset (List.mem_reverse.1 hc))

theorem cleared_eq_nil_iff : cleared path = [] ↔ ∀ c ∈ path.toList, isBlank c = true := by
  rw [cleared, slashes, List.map_eq_nil_iff, stripChars_eq_nil_iff]

/-- What a path is refused for whose steps lead to `names`. -/
inductive IsRefused (path : String) (names : List (List Char)) : Prop
  | blank (h : ∀ c ∈ path.toList, isBlank c = true)
  | slash (h : (cleared path).head? = some '/')
  | drive (letter : Char) (rest : List Char) (h : cleared path = letter :: ':' :: rest)
      (hl : letter.isAlpha = true)
  | driveAbsolute (h : isDriveAbsolute path.toList = true)
  | nowhere (h : names = [])
  | above (h : names.head? = some parent)

theorem isRefused_iff :
    IsRefused path names ↔
      (cleared path).isEmpty = true ∨
        (isAbsoluteChars (cleared path) || startsWithDrive (cleared path)
          || isDriveAbsolute path.toList) = true ∨
        (names = [] ∨ names.head? = some parent) := by
  simp only [Bool.or_eq_true, isAbsoluteChars_iff, startsWithDrive_iff, List.isEmpty_iff,
    cleared_eq_nil_iff]
  constructor
  · rintro (h | h | ⟨letter, rest, h, hl⟩ | h | h | h)
    · exact .inl h
    · exact .inr (.inl (.inl (.inl h)))
    · exact .inr (.inl (.inl (.inr ⟨letter, rest, h, hl⟩)))
    · exact .inr (.inl (.inr h))
    · exact .inr (.inr (.inl h))
    · exact .inr (.inr (.inr h))
  · rintro (h | ((h | ⟨letter, rest, h, hl⟩) | h) | h | h)
    · exact .blank h
    · exact .slash h
    · exact .drive letter rest h hl
    · exact .driveAbsolute h
    · exact .nowhere h
    · exact .above h

/-! ## Names of a path -/

theorem root_of_relative {cs : List Char} (h : isAbsoluteChars cs = false) : root cs = [] := by
  rw [root, takeWhile_slash_eq_nil fun he => by rw [isAbsoluteChars_iff.2 he] at h; cases h]

theorem resolves_splitOn_iff :
    Resolves (cs.splitOn '/') names ↔ names = resolveParents false (components cs) := by
  rw [resolves_iff, components_eq_counted]

theorem slash_not_mem (h : Resolves (cs.splitOn '/') names) : ∀ name ∈ names, '/' ∉ name := by
  intro name hname hs
  rw [← pieces_eq_splitOn] at h
  exact (mem_pieces (h.sublist.subset hname) hs).2 rfl

theorem pieces_joinPieces_names (h : Resolves (cs.splitOn '/') names) (hne : names ≠ []) :
    pieces '/' (joinPieces '/' names) = names :=
  pieces_joinPieces hne (slash_not_mem h)

theorem joinPieces_names_ne_nil (h : Resolves (cs.splitOn '/') names) (hne : names ≠ []) :
    joinPieces '/' names ≠ [] := by
  intro he
  have hnames := pieces_joinPieces_names h hne
  rw [he] at hnames
  exact (h.ne_nil_and_ne_here [] (hnames ▸ List.mem_cons_self)).1 rfl

/-- A path that leads to names is spelled by them. -/
theorem normalizeChars_of_resolves (habs : isAbsoluteChars cs = false)
    (h : Resolves (cs.splitOn '/') names) (hne : names ≠ []) :
    normalizeChars cs = joinPieces '/' names := by
  have hjoined := joinPieces_names_ne_nil h hne
  unfold normalizeChars
  dsimp only
  rw [habs, root_of_relative habs, List.nil_append, ← resolves_splitOn_iff.1 h]
  split
  · next he => exact absurd he hjoined
  · rfl

theorem leadsOut_joinPieces_iff (h : Resolves (cs.splitOn '/') names) (hne : names ≠ []) :
    leadsOut (joinPieces '/' names) = true ↔ names.head? = some parent := by
  have hnames := pieces_joinPieces_names h hne
  constructor
  · intro hout
    simp only [leadsOut, Bool.or_eq_true, beq_iff_eq] at hout
    rcases hout with (he | he) | hprefix
    · rw [he] at hnames
      exact absurd rfl (h.ne_nil_and_ne_here here (hnames ▸ List.mem_cons_self)).2
    · rw [he] at hnames
      rw [← hnames]
      rfl
    · obtain ⟨more, hmore⟩ := List.isPrefixOf_iff_prefix.1 hprefix
      rw [← hmore] at hnames
      rw [← hnames]
      exact congrArg List.head? (@pieces_append '/' parent (by decide) more)
  · intro hhead
    obtain ⟨rest, rfl⟩ := List.head?_eq_some_iff.1 hhead
    cases rest with
    | nil => rfl
    | cons name rest => rfl

theorem leadsOut_iff (habs : isAbsoluteChars cs = false) (h : Resolves (cs.splitOn '/') names) :
    leadsOut (normalizeChars cs) = true ↔ names = [] ∨ names.head? = some parent := by
  by_cases hne : names = []
  · subst hne
    refine iff_of_true ?_ (.inl rfl)
    unfold normalizeChars
    dsimp only
    rw [habs, root_of_relative habs, ← resolves_splitOn_iff.1 h]
    rfl
  · rw [normalizeChars_of_resolves habs h hne, leadsOut_joinPieces_iff h hne, or_iff_right hne]

/-! ## What is answered -/

theorem normalize_eq (path : String) :
    normalize path =
      if (cleared path).isEmpty then .error ⟨path, .empty⟩
      else if isAbsoluteChars (cleared path) || startsWithDrive (cleared path)
          || isDriveAbsolute path.toList then .error ⟨path, .absolute⟩
      else if leadsOut (normalizeChars (cleared path)) then .error ⟨path, .escapes⟩
      else .ok (String.ofList (normalizeChars (cleared path))) := rfl

theorem normalize_eq_error_of_isRefused (h : Resolves ((cleared path).splitOn '/') names)
    (hr : IsRefused path names) : ∃ reason, normalize path = .error ⟨path, reason⟩ := by
  have hr := isRefused_iff.1 hr
  rw [normalize_eq]
  split
  · exact ⟨_, rfl⟩
  next hempty =>
  split
  · exact ⟨_, rfl⟩
  next habsolute =>
  have hout := (hr.resolve_left hempty).resolve_left habsolute
  simp only [Bool.or_eq_true, not_or, Bool.not_eq_true] at habsolute
  rw [if_pos ((leadsOut_iff habsolute.1.1 h).2 hout)]
  exact ⟨_, rfl⟩

theorem normalize_eq_ok_of_not_isRefused (h : Resolves ((cleared path).splitOn '/') names)
    (hr : ¬IsRefused path names) : normalize path = .ok (String.ofList (joinPieces '/' names)) := by
  rw [isRefused_iff, not_or, not_or] at hr
  obtain ⟨hempty, habsolute, hin⟩ := hr
  rw [normalize_eq, if_neg hempty, if_neg habsolute]
  simp only [Bool.or_eq_true, not_or, Bool.not_eq_true] at habsolute
  rw [if_neg (mt (leadsOut_iff habsolute.1.1 h).1 hin),
    normalizeChars_of_resolves habsolute.1.1 h (not_or.1 hin).1]

/-- **What an accepted path is spelled by**: the names that its steps lead to. -/
theorem exists_names_of_normalize (h : normalize path = .ok inner) :
    ∃ names, Resolves ((cleared path).splitOn '/') names ∧ ¬IsRefused path names ∧
      inner.toList = joinPieces '/' names := by
  have hnames := resolves_resolveParents ((cleared path).splitOn '/')
  generalize resolveParents false _ = names at hnames
  have hr : ¬IsRefused path names := fun hr => by
    obtain ⟨reason, hreason⟩ := normalize_eq_error_of_isRefused hnames hr
    rw [h] at hreason
    cases hreason
  rw [normalize_eq_ok_of_not_isRefused hnames hr] at h
  exact ⟨names, hnames, hr, by rw [← Except.ok.inj h, String.toList_ofList]⟩

theorem down_of_not_isRefused (h : Resolves (cs.splitOn '/') names) (hr : ¬IsRefused path names) :
    ∀ name ∈ names, name ≠ [] ∧ name ≠ here ∧ name ≠ parent := fun name hname =>
  ⟨(h.ne_nil_and_ne_here name hname).1, (h.ne_nil_and_ne_here name hname).2, fun he =>
    hr (.above (h.head?_of_parent_mem (he ▸ hname)))⟩

/-! ## Paths that go down only -/

/-- A relative path that goes down only, under its one spelling. -/
structure IsInside (path : String) : Prop where
  ne_nil : parts path ≠ []
  down : ∀ n ∈ parts path, n ≠ ".."
  spelled : path.toList = joinPieces '/' ((parts path).map String.toList)

/-- Proper names spell a path that goes down only. -/
theorem isInside_of_names {names : List String} (hne : names ≠ []) (hn : ∀ n ∈ names, Store.IsProper n)
    (hs : path.toList = joinPieces '/' (names.map String.toList)) :
    IsInside path ∧ parts path = names := by
  have hparts : parts path = names := by
    rw [parts, hs, components_joinPieces, List.map_map]
    · exact (List.map_congr_left fun _ _ => String.ofList_toList).trans (List.map_id _)
    · intro q hq
      obtain ⟨n, hm, rfl⟩ := List.mem_map.1 hq
      exact ⟨(hn n hm).1.ne_nil, (hn n hm).1.slash_not_mem, (hn n hm).1.ne_here⟩
  exact ⟨⟨hparts ▸ hne, hparts ▸ fun n hm => (hn n hm).2, hparts.symm ▸ hs⟩, hparts⟩

/-- **An accepted path goes down only.** -/
theorem isInside_of_normalize (h : normalize path = .ok inner) : IsInside inner := by
  obtain ⟨names, hnames, hr, hinner⟩ := exists_names_of_normalize h
  have htexts : (names.map String.ofList).map String.toList = names := by
    rw [List.map_map]
    exact (List.map_congr_left fun _ _ => String.toList_ofList).trans (List.map_id _)
  refine (isInside_of_names (mt List.map_eq_nil_iff.1 fun he => hr (.nowhere he)) ?_
    (by rw [htexts, hinner])).1
  rw [List.forall_mem_map]
  intro name hname
  obtain ⟨h0, h1, h2⟩ := down_of_not_isRefused hnames hr name hname
  have hslash := slash_not_mem hnames name hname
  rw [← String.toList_ofList (l := name)] at h0 h1 hslash
  exact ⟨⟨h0, hslash, h1⟩, fun he => h2 (String.ofList_inj.1 he)⟩

/-- The characters of an accepted path are those of the path as it was given, slashes and dots. -/
theorem mem_of_normalize {c : Char} (h : normalize path = .ok inner) (hc : c ∈ inner.toList) :
    c ∈ path.toList ∨ c = '/' ∨ c = '.' := by
  unfold normalize at h
  dsimp only at h
  split at h
  · cases h
  split at h
  · cases h
  split at h
  · cases h
  rw [← Except.ok.inj h, String.toList_ofList] at hc
  rcases mem_normalizeChars hc with hc | hc
  · obtain ⟨d, hd, rfl⟩ := List.mem_map.1 hc
    split
    · exact .inr (.inl rfl)
    · have hd := (List.dropWhile_suffix _).subset (List.mem_reverse.1 hd)
      exact .inl ((List.dropWhile_suffix _).subset (List.mem_reverse.1 hd))
  · exact .inr hc

/-! ## Places -/

theorem IsInside.parts_injective {other : String} (h : IsInside path) (k : IsInside other)
    (hp : parts path = parts other) : path = other := by
  rw [← String.toList_inj, h.spelled, k.spelled, hp]

theorem IsInside.not_isAbsolute (h : IsInside path) : isAbsoluteChars path.toList = false := by
  obtain ⟨n, names, hn⟩ := List.exists_cons_of_ne_nil h.ne_nil
  have hcomponent : IsComponent n := isComponent_of_mem_parts (hn ▸ List.mem_cons_self)
  obtain ⟨c, cs, hc⟩ := List.exists_cons_of_ne_nil hcomponent.ne_nil
  have hslash : '/' ≠ c := fun he => hcomponent.slash_not_mem (by rw [hc, ← he]; exact List.mem_cons_self)
  rw [h.spelled, hn, List.map_cons, hc]
  cases names <;> simp [joinPieces, isAbsoluteChars, List.isPrefixOf, hslash]

theorem IsInside.isProper (h : IsInside path) : ∀ n ∈ parts path, Store.IsProper n :=
  fun n hn => ⟨isComponent_of_mem_parts hn, h.down n hn⟩

theorem IsInside.assemble_eq_spell (h : IsInside path) (output : String) :
    assemble [output, path] = spell output (parts path) :=
  Path.assemble_eq_spell h.ne_nil (fun n hn => (h.isProper n hn).1)
    (List.forall_mem_singleton.2 h.not_isAbsolute) (List.flatMap_singleton ..)

/-- **An accepted path leads below the output root**, by its own names. -/
theorem placeOf_assemble (h : IsInside path) (output : String) :
    Store.placeOf (assemble [output, path]) = Store.placeOf output ++ parts path := by
  rw [h.assemble_eq_spell, Store.placeOf_spell output h.isProper]

/-- Below an output root without a zero character, only the path itself could have one. -/
theorem noZero_assemble (h : IsInside path) {output : String} (h0 : output.contains '\x00' = false)
    (hp : path.contains '\x00' = false) : (assemble [output, path]).contains '\x00' = false := by
  rw [h.assemble_eq_spell]
  exact Store.noZero_spell h0 (Store.zero_not_mem_parts hp)

end SpecTree.OutputPath
