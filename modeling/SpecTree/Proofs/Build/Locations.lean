import SpecTree.Proofs.Build.Outputs

/-!
# One spelling for each location

An output path is accepted or refused by what it looks like and where its steps lead, and two accepted
paths have the same spelling exactly when they lead to the same place (`normalize_by_names`).

A spelling is not looked at again. What made the path look relative, or hid its blanks, may be gone from it,
and then it is refused itself, or has another spelling (`normalize_spelling_iff`,
`spellings_not_accepted`).
-/

namespace SpecTree.OutputPath

open SpecTree.Path Text

variable {path inner : String} {cs : List Char} {steps names : List (List Char)}

/-! ## Places -/

/-- Taken one after the other, steps lead to the place of their names. -/
theorem descend_of_resolves (h : Resolves steps names) (hp : parent ∉ names) (place : Place) :
    Store.descend place ((counted steps).map String.ofList) = place ++ names.map String.ofList := by
  induction h with
  | nil => exact (List.append_nil place).symm
  | stay _ hs ih => rw [counted_concat_of_stay hs, ih hp]
  | @down _ _ step _ h0 h1 h2 ih =>
    have hstep : String.ofList step ≠ ".." := fun he => h2 (String.ofList_inj.1 he)
    rw [counted_concat h0 h1, List.map_append, Store.descend_append,
      ih fun hm => hp (List.mem_append_left _ hm), List.map_singleton, Store.descend, List.foldl_cons,
      if_neg hstep]
    simp
  | up _ hn ih =>
    rw [counted_concat (by decide) (by decide), List.map_append, Store.descend_append, ih]
    · rw [List.map_singleton, Store.descend, List.foldl_cons,
        if_pos (show String.ofList parent = ".." from rfl)]
      simp [← List.append_assoc]
    · intro hm
      rcases List.mem_append.1 hm with hm | hm
      · exact hp hm
      · exact hn (List.mem_singleton.1 hm).symm
  | out => exact absurd (List.mem_append_right _ List.mem_cons_self) hp

/-- **An accepted path leads to the place of its names**, as it was given. -/
theorem placeOf_assemble_cleared (h : Resolves ((cleared path).splitOn '/') names)
    (hr : ¬IsRefused path names) (output : String) :
    Store.placeOf (assemble [output, String.ofList (cleared path)])
      = Store.placeOf output ++ names.map String.ofList := by
  have hparts : parts (String.ofList (cleared path))
      = (counted ((cleared path).splitOn '/')).map String.ofList := by
    rw [parts, String.toList_ofList, components_eq_counted]
  have hne : parts (String.ofList (cleared path)) ≠ [] := by
    intro he
    rw [hparts, List.map_eq_nil_iff] at he
    exact hr (.nowhere (by rw [h.eq, he]; rfl))
  have habs : isAbsoluteChars (String.ofList (cleared path)).toList = false := by
    rw [String.toList_ofList, Bool.eq_false_iff]
    exact fun habs => hr (.slash (isAbsoluteChars_iff.1 habs))
  rw [assemble_eq_spell hne (fun n hn => isComponent_of_mem_parts hn)
      (List.forall_mem_singleton.2 habs) (List.flatMap_singleton ..),
    Store.placeOf, parts_spell output fun n hn => isComponent_of_mem_parts hn, Store.descend_append,
    hparts, descend_of_resolves h fun hm => (down_of_not_isRefused h hr parent hm).2.2 rfl]
  rfl

/-- **Output paths are canonical and contained.** The steps of a path, without blanks around it and with
slashes for backslashes, lead to one row of names. The path is refused for what it looks like, or when there
is no name or the first one is a parent step. Otherwise it is spelled by the names, and no other accepted
path that leads to the same place is spelled in another way. -/
theorem normalize_by_names (path : String) :
    ∃ names, (∀ found, Resolves ((cleared path).splitOn '/') found ↔ found = names) ∧
      (IsRefused path names → ∃ reason, normalize path = .error ⟨path, reason⟩) ∧
      (¬IsRefused path names → ∃ inner, normalize path = .ok inner ∧
        inner.toList = ['/'].intercalate names ∧ inner ≠ "" ∧ inner.toList.head? ≠ some '/' ∧
        (∀ name ∈ inner.toList.splitOn '/', name ≠ [] ∧ name ≠ here ∧ name ≠ parent) ∧
        ∀ other again, normalize other = .ok again → ∀ output,
          (Store.placeOf (assemble [output, String.ofList (cleared path)])
              = Store.placeOf (assemble [output, String.ofList (cleared other)]) ↔
            inner = again)) := by
  obtain ⟨names, hnames⟩ : ∃ names, Resolves ((cleared path).splitOn '/') names :=
    ⟨_, resolves_resolveParents _⟩
  refine ⟨names, fun found => by rw [resolves_iff, ← hnames.eq],
    normalize_eq_error_of_isRefused hnames, fun hr => ?_⟩
  have ho := normalize_eq_ok_of_not_isRefused hnames hr
  have hinside := isInside_of_normalize ho
  have hne : names ≠ [] := fun he => hr (.nowhere he)
  refine ⟨_, ho, ?_, ?_, ?_, ?_, ?_⟩
  · rw [String.toList_ofList, joinPieces_eq_intercalate]
  · intro he
    exact hinside.ne_nil (by rw [he]; rfl)
  · exact fun he => Bool.eq_false_iff.1 hinside.not_isAbsolute (isAbsoluteChars_iff.2 he)
  · rw [String.toList_ofList, ← pieces_eq_splitOn, pieces_joinPieces_names hnames hne]
    exact down_of_not_isRefused hnames hr
  · intro other again hother output
    obtain ⟨names', hnames', hr', hagain⟩ := exists_names_of_normalize hother
    rw [placeOf_assemble_cleared hnames hr, placeOf_assemble_cleared hnames' hr',
      List.append_cancel_left_eq, ← String.toList_inj, hagain, String.toList_ofList]
    constructor
    · intro hmap
      rw [List.map_injective_iff.2 (fun _ _ => String.ofList_inj.1) hmap]
    · intro hjoined
      rw [← pieces_joinPieces_names hnames hne, hjoined,
        pieces_joinPieces_names hnames' fun he => hr' (.nowhere he)]

/-! ## Spellings as paths -/

theorem backslash_not_mem_cleared (path : String) : '\\' ∉ cleared path := by
  intro h
  obtain ⟨c, -, hc⟩ := List.mem_map.1 h
  split at hc
  · cases hc
  · next hne => exact hne hc

theorem backslash_not_mem (h : normalize path = .ok inner) : '\\' ∉ inner.toList := by
  obtain ⟨names, hnames, -, hinner⟩ := exists_names_of_normalize h
  rw [hinner]
  intro hm
  obtain ⟨name, hname, hc⟩ := (mem_joinPieces hm).resolve_left (by decide)
  have hpiece := hnames.sublist.subset hname
  rw [← pieces_eq_splitOn] at hpiece
  exact backslash_not_mem_cleared path (mem_pieces hpiece hc).1

theorem slashes_of_not_mem (h : '\\' ∉ cs) : slashes cs = cs := by
  refine (List.map_congr_left fun c hc => if_neg ?_).trans (List.map_id cs)
  rintro rfl
  exact h hc

/-- A path without blanks around it and without backslashes is read as it is. -/
theorem cleared_of_strip (hs : strip path = path) (hb : '\\' ∉ path.toList) :
    cleared path = path.toList := by
  have hstrip : stripChars path.toList = path.toList := by
    rw [← String.toList_ofList (l := stripChars path.toList)]
    exact congrArg String.toList hs
  rw [cleared, hstrip, slashes_of_not_mem hb]

theorem splitMark_of_head?_ne (h : cs.head? ≠ some '/') : splitMark cs = (false, cs) := by
  unfold splitMark
  split
  · exact absurd rfl h
  · rfl

theorem startsWithShare_of_head?_ne (h : cs.head? ≠ some '/') : startsWithShare cs = false := by
  unfold startsWithShare
  split
  · exact absurd rfl h
  · rfl

/-- Without a slash in front, only a drive makes a path absolute. -/
theorem startsWithDrive_of_isDriveAbsolute (h : isDriveAbsolute cs = true)
    (hs : (slashes cs).head? ≠ some '/') : startsWithDrive (slashes cs) = true := by
  unfold isDriveAbsolute at h
  rw [splitMark_of_head?_ne hs] at h
  dsimp only at h
  rw [startsWithShare_of_head?_ne hs, Bool.false_or] at h
  split at h
  · assumption
  · cases h

theorem stripChars_sublist (cs : List Char) : (stripChars cs).Sublist cs := by
  have h := (List.dropWhile_sublist isBlank (l := (cs.dropWhile isBlank).reverse)).reverse
  rw [List.reverse_reverse] at h
  exact h.trans (List.dropWhile_sublist isBlank)

/-- **A spelling is no longer than the path as it was given**, without the blanks around it. -/
theorem length_le_of_normalize (h : normalize path = .ok inner) :
    inner.toList.length ≤ (stripChars path.toList).length := by
  obtain ⟨names, hnames, -, hinner⟩ := exists_names_of_normalize h
  have hle := length_joinPieces_le hnames.sublist '/'
  rw [← pieces_eq_splitOn, joinPieces_pieces] at hle
  rw [hinner]
  exact hle.trans (by rw [cleared, slashes, List.length_map])

/-- **A spelling is accepted again, as it is, exactly when it has no blanks around it and no drive in
front.** It never begins with a slash. -/
theorem normalize_spelling_iff (h : normalize path = .ok inner) :
    inner.toList.head? ≠ some '/' ∧
      (normalize inner = .ok inner ↔
        strip inner = inner ∧
          ¬∃ letter rest, inner.toList = letter :: ':' :: rest ∧ letter.isAlpha = true) := by
  have hslash : inner.toList.head? ≠ some '/' := fun he =>
    Bool.eq_false_iff.1 (isInside_of_normalize h).not_isAbsolute (isAbsoluteChars_iff.2 he)
  have hback := backslash_not_mem h
  refine ⟨hslash, fun hagain => ?_, fun ⟨hstrip, hdrive⟩ => ?_⟩
  · have hstrip : strip inner = inner := by
      rw [strip, (stripChars_sublist _).eq_of_length_le (length_le_of_normalize hagain),
        String.ofList_toList]
    refine ⟨hstrip, fun ⟨letter, rest, he, hl⟩ => ?_⟩
    obtain ⟨names, -, hr, -⟩ := exists_names_of_normalize hagain
    refine hr (.drive letter rest ?_ hl)
    rw [cleared_of_strip hstrip hback, he]
  · have hcleared := cleared_of_strip hstrip hback
    obtain ⟨names, hnames, hr, hinner⟩ := exists_names_of_normalize h
    have hne : names ≠ [] := fun he => hr (.nowhere he)
    have hdown := down_of_not_isRefused hnames hr
    have hself : Resolves ((cleared inner).splitOn '/') names := by
      rw [hcleared, hinner, ← pieces_eq_splitOn, pieces_joinPieces_names hnames hne]
      exact resolves_self hdown
    have hagain : ¬IsRefused inner names := by
      rintro (hr | hr | ⟨letter, rest, hr, hl⟩ | hr | hr | hr)
      · exact joinPieces_names_ne_nil hnames hne (hinner ▸ hcleared ▸ cleared_eq_nil_iff.2 hr)
      · exact hslash (hcleared ▸ hr)
      · exact hdrive ⟨letter, rest, hcleared ▸ hr, hl⟩
      · rw [← slashes_of_not_mem hback] at hslash hdrive
        exact hdrive (startsWithDrive_iff.1 (startsWithDrive_of_isDriveAbsolute hr hslash))
      · exact hne hr
      · obtain ⟨rest, hrest⟩ := List.head?_eq_some_iff.1 hr
        exact (hdown parent (hrest ▸ List.mem_cons_self)).2.2 rfl
    rw [normalize_eq_ok_of_not_isRefused hself hagain, ← hinner, String.ofList_toList]

theorem normalize_spelling_iff_backslashes :
    normalize "src\\.\\app.py" = .ok "src/app.py" ∧ normalize "src/app.py" = .ok "src/app.py" := by
  have h : normalize "src\\.\\app.py" = .ok "src/app.py" := by decide +kernel
  refine ⟨h, (normalize_spelling_iff h).2.2 ⟨by decide +kernel, ?_⟩⟩
  rintro ⟨letter, rest, he, -⟩
  cases (List.cons.inj (List.cons.inj he).2).1

/-- A drive behind a step that stays, and a blank name behind a detour, come to the front. -/
theorem spellings_not_accepted :
    normalize "./C:/x" = .ok "C:/x" ∧ normalize "C:/x" = .error ⟨"C:/x", .absolute⟩ ∧
      normalize "x/../ /" = .ok " " ∧ normalize " " = .error ⟨" ", .empty⟩ := by
  decide +kernel

end SpecTree.OutputPath
