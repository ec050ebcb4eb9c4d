import SpecTree.Proofs.Store.Below

/-!
# Writing and removing below a directory

1. `makeDirectories_old` and `makeDirectories_new` make a directory below another one, whether it is
   there or not.
2. `writeDeep_old` and `writeDeep_new` put a file into such a directory; a path that is too long
   changes nothing (`writeDeep_too_long`).
3. Wherever a file was written, it is found there (`find_of_writeDeep`).
4. `isSystem_of_writeDeep`: writing under a path without the zero character fails for no reasons but
   those of a file system, and a directory that could be made has no zero character in its path
   (`noZero_of_makeDirectories`).
-/

namespace SpecTree.Store

open SpecTree.Path

variable {s t : Store} {directory path : String} {base : Place} {names : List String} {last : String}

/-! ## Directories -/

theorem ensureDirectory_of_find {p q : Place} {e : Entry} (h : s.find false path = .ok (p, e))
    (hd : s.find true path = .ok (q, .directory)) : s.ensureDirectory path = .ok s := by
  obtain ⟨hl, he⟩ := find_eq_ok.1 h
  have hm : s.makeDirectory path = .error (.alreadyExists path) := by
    simp [makeDirectory, hl, he, bind, Except.bind, throw, throwThe, MonadExceptOf.throw]
  rw [ensureDirectory, hm]
  simp [isDirectory, ask_of_find hd, bind, Except.bind, pure, Except.pure]

theorem ensureDirectory_of_free {p : Place} (h : s.locate false path = .ok p)
    (he : s.entry? p = none) : s.ensureDirectory path = .ok (s.set p .directory) := by
  have hm : s.makeDirectory path = .ok (s.set p .directory) := by
    simp [makeDirectory, h, he, bind, Except.bind, pure, Except.pure]
  rw [ensureDirectory, hm]

theorem makeDirectories_of_ensure {place : Place} (hp : parts path = place)
    (hn : place = [] → t = s) (h : s.ensureDirectory (pathOf place) = .ok t) :
    s.makeDirectories path = (t, none) := by
  rw [makeDirectories, hp]
  cases hr : place.reverse with
  | nil => rw [makePath, hn (List.reverse_eq_nil_iff.1 hr)]
  | cons name above =>
    rw [makePath, ← hr, List.reverse_reverse]
    simp only [h]

/-- A name adds at least one byte to a path, which makes up for a slash in front. -/
theorem size_pathOf_lt (hl : IsComponent last)
    (hs : (spell directory (names ++ [last])).utf8ByteSize < pathLimit) :
    (pathOf (parts directory ++ names)).utf8ByteSize < pathLimit := by
  obtain ⟨k, hk, h⟩ := size_spell_concat directory names
  have hp := size_pathOf_le directory names
  have hb : last.utf8ByteSize ≠ 0 := fun h0 =>
    hl.ne_nil (by rw [String.utf8ByteSize_eq_zero_iff.1 h0]; rfl)
  have := h last
  omega

/-- A directory below another one that is already there stays as it is. -/
theorem makeDirectories_old (h : s.Anchored directory base) (hn : ∀ n ∈ names, IsFileName n)
    (hs : (pathOf (parts directory ++ names)).utf8ByteSize < pathLimit) (hl : s.Leads base names)
    (hp : parts path = parts directory ++ names) : s.makeDirectories path = (s, none) := by
  have hsp := spells_pathOf h.noZero hn hs
  refine makeDirectories_of_ensure hp (fun _ => rfl) ?_
  rcases List.eq_nil_or_concat' names with rfl | ⟨front, last, rfl⟩
  · obtain ⟨p, e, hf⟩ := h.exists_find_false hsp
    exact ensureDirectory_of_find hf (h.find_base hsp)
  · have he := hl _ (List.prefix_refl _) (by simp)
    have hf (follow : Bool) := h.find hsp (fun n hm => (hn n hm).plain)
      (fun pre hpre h0 => hl pre (hpre.trans (List.prefix_append _ _)) h0) he (by simp) follow
    exact ensureDirectory_of_find (hf false) (hf true)

/-- So does the directory itself. -/
theorem makeDirectories_base (h : s.Anchored directory base)
    (hs : (pathOf (parts directory)).utf8ByteSize < pathLimit) :
    s.makeDirectories directory = (s, none) :=
  makeDirectories_old h (nofun : ∀ n ∈ ([] : List String), IsFileName n) (by rwa [List.append_nil])
    (fun _ hp h0 => absurd (List.prefix_nil.1 hp) h0) (List.append_nil _).symm

/-- **A directory is made where nothing is.** -/
theorem makeDirectories_new (h : s.Anchored directory base)
    (hn : ∀ n ∈ names ++ [last], IsFileName n)
    (hs : (pathOf (parts directory ++ (names ++ [last]))).utf8ByteSize < pathLimit)
    (hl : s.Leads base names) (he : s.entry? (base ++ (names ++ [last])) = none)
    (hp : parts path = parts directory ++ (names ++ [last])) :
    s.makeDirectories path = (s.set (base ++ (names ++ [last])) .directory, none) := by
  refine makeDirectories_of_ensure hp (fun h0 => absurd h0 (by simp)) ?_
  refine ensureDirectory_of_free (h.locate (spells_pathOf h.noZero hn hs) (fun n hm => (hn n hm).plain) hl
    (fun _ ht => by rw [he] at ht; cases ht) false) he

/-! ## Files -/

theorem write_of_locate {p : Place} (h : s.locate true path = .ok p)
    (he : s.entry? p ≠ some .directory) (content : Content) :
    s.write path content = .ok (s.set p (.file content)) := by
  simp only [write, h, bind, Except.bind]
  rfl

/-- A file is written where nothing is, in a directory that is there or is made. -/
theorem writeDeep_of_locate {p : Place} {dir : String} (hd : Path.directory path = dir)
    (hm : s.makeDirectories dir = (t, none)) (h : t.locate true path = .ok p) (he : t.entry? p = none)
    (content : Content) : s.writeDeep path content = (t.set p (.file content), none) := by
  have hne : t.entry? p ≠ some .directory := by simp [he]
  simp only [writeDeep, hd, hm, write_of_locate h hne]

/-- **A file is written into a directory that is there.** -/
theorem writeDeep_old (h : s.Anchored directory base) (hn : ∀ n ∈ names ++ [last], IsFileName n)
    (hs : (spell directory (names ++ [last])).utf8ByteSize < pathLimit) (hl : s.Leads base names)
    (hd : s.entry? (base ++ (names ++ [last])) ≠ some .directory)
    (hlink : ∀ target, s.entry? (base ++ (names ++ [last])) ≠ some (.link target))
    (content : Content) :
    s.writeDeep (spell directory (names ++ [last])) content
      = (s.set (base ++ (names ++ [last])) (.file content), none) := by
  have hnames : ∀ n ∈ names, IsFileName n := fun n hm => hn n (List.mem_append_left _ hm)
  have hlast := hn last (by simp)
  have hm := makeDirectories_old h hnames
    (size_pathOf_lt hlast.toIsComponent hs) hl
    (parts_directory_spell (fun n hm => (hnames n hm).toIsComponent) hlast.toIsComponent)
  have hw := write_of_locate (h.locate (spells_spell h.noZero hn hs) (fun n hm => (hn n hm).plain)
    hl hlink true) hd content
  simp only [writeDeep, hm, hw]

/-- **A file is written into a directory that is made for it.** -/
theorem writeDeep_new {name : String} (h : s.Anchored directory base)
    (hn : ∀ n ∈ names ++ [name] ++ [last], IsFileName n)
    (hs : (spell directory (names ++ [name] ++ [last])).utf8ByteSize < pathLimit)
    (hl : s.Leads base names) (he : s.entry? (base ++ (names ++ [name])) = none)
    (hf : s.entry? (base ++ (names ++ [name] ++ [last])) = none) (content : Content) :
    s.writeDeep (spell directory (names ++ [name] ++ [last])) content
      = ((s.set (base ++ (names ++ [name])) .directory).set (base ++ (names ++ [name] ++ [last]))
          (.file content), none) := by
  have hnames : ∀ n ∈ names ++ [name], IsFileName n := fun n hm => hn n (List.mem_append_left _ hm)
  have hlast := hn last (by simp)
  have hm := makeDirectories_new h hnames (size_pathOf_lt hlast.toIsComponent hs) hl he
    (parts_directory_spell (fun n hm => (hnames n hm).toIsComponent) hlast.toIsComponent)
  have hset := entry?_set s (p := base ++ (names ++ [name])) (by simp) .directory
  have hl' : (s.set (base ++ (names ++ [name])) .directory).Leads base (names ++ [name]) := by
    intro pre hpre h0
    rw [hset]
    rcases List.prefix_concat_iff.1 hpre with rfl | hpre
    · rw [if_pos rfl]
    · rw [if_neg, hl pre hpre h0]
      intro heq
      rw [List.append_cancel_left_eq] at heq
      have := hpre.length_le
      rw [heq, List.length_append, List.length_singleton] at this
      omega
  have hne : base ++ (names ++ [name] ++ [last]) ≠ base ++ (names ++ [name]) := by simp
  have hfree : Store.entry? (s.set (base ++ (names ++ [name])) .directory)
      (base ++ (names ++ [name] ++ [last])) = none := by rw [hset, if_neg hne, hf]
  have hw := write_of_locate (((h.set (by simp) .directory).locate (spells_spell h.noZero hn hs)
    (fun n hm => (hn n hm).plain) hl' (fun _ ht => by rw [hfree] at ht; cases ht)) true)
    (by rw [hfree]; nofun) content
  simp only [writeDeep, hm, hw]

/-- A path that is too long changes nothing where its directory is there. -/
theorem writeDeep_too_long (h : s.Anchored directory base) (hn : ∀ n ∈ names ++ [last], IsFileName n)
    (hd : (pathOf (parts directory ++ names)).utf8ByteSize < pathLimit)
    (hs : pathLimit ≤ (spell directory (names ++ [last])).utf8ByteSize) (hl : s.Leads base names)
    (content : Content) :
    s.writeDeep (spell directory (names ++ [last])) content
      = (s, some (.nameTooLong (spell directory (names ++ [last])))) := by
  have hnames : ∀ n ∈ names, IsFileName n := fun n hm => hn n (List.mem_append_left _ hm)
  have hlast := hn last (by simp)
  have hm := makeDirectories_old h hnames
    hd hl (parts_directory_spell (fun n hm => (hnames n hm).toIsComponent) hlast.toIsComponent)
  have hw : s.write (spell directory (names ++ [last])) content
      = .error (.nameTooLong (spell directory (names ++ [last]))) := by
    simp only [write, locate, noZero_spell h.noZero fun n hm => (hn n hm).zero_not_mem, ge_iff_le, hs,
      Bool.false_eq_true, if_false, if_true, bind, Except.bind]
  simp only [writeDeep, hm, hw]

/-- **A file that was put where a path leads is found** under that path. -/
theorem find_of_set {p : Place} (hl : s.locate true path = .ok p) (hd : s.entry? p ≠ some .directory)
    (content : Content) : (s.set p (.file content)).find true path = .ok (p, .file content) := by
  obtain ⟨h0, hs, hwalk⟩ := locate_eq_ok.1 hl
  have hp : p ≠ [] := by
    rintro rfl
    exact hd rfl
  have hroot (q : Place) (h : q <+: []) (target : List String) : s.entry? q ≠ some (.link target) := by
    rw [List.prefix_nil.1 h, entry?_nil]
    exact nofun
  have hlink := walk_ne_link hroot hwalk
  refine find_eq_ok.2 ⟨locate_eq_ok.2 ⟨h0, hs, walk_set hp hd hlink hwalk⟩, ?_⟩
  rw [entry?_set s hp, if_pos rfl]

theorem find_of_writeDeep {content : Content} (hw : s.writeDeep path content = (t, none)) :
    ∃ p, t.find true path = .ok (p, .file content) := by
  obtain ⟨made, p, -, hl, hd, rfl⟩ := writeDeep_eq_none hw
  exact ⟨p, find_of_set hl hd content⟩

/-! ## Removing and listing -/

theorem removeTree_of_find {p : Place} (h : s.find false path = .ok (p, .directory)) :
    s.removeTree path = .ok (s.prune p) := by
  simp only [removeTree, h, bind, Except.bind]
  rfl

theorem removeFile_of_find {p : Place} {content : Content}
    (h : s.find false path = .ok (p, .file content)) : s.removeFile path = .ok (s.prune p) := by
  simp only [removeFile, h, bind, Except.bind]
  rfl

theorem list_of_find {p : Place} (h : s.find true path = .ok (p, .directory)) :
    s.list path = .ok (s.childrenOf p) := by
  simp only [list, h, bind, Except.bind]
  rfl

/-! ## Reasons to fail -/

theorem isSystem_of_find {follow : Bool} {e : FileError} (h0 : path.contains '\x00' = false)
    (h : s.find follow path = .error e) : e.isSystem = true := by
  rcases bind_eq_error h with hl | ⟨p, -, h⟩
  · exact isSystem_of_locate h0 hl
  · split at h
    · cases h
    · rw [← Except.error.inj h]
      rfl

theorem isSystem_of_ask {question : Entry → Bool} {e : FileError}
    (h0 : path.contains '\x00' = false) (h : s.ask question path = .error e) :
    e.isSystem = true := by
  unfold ask at h
  split at h
  · cases h
  · next hf =>
    split at h
    · cases h
    · rw [← Except.error.inj h]
      exact isSystem_of_find h0 hf

theorem isSystem_of_makeDirectory {e : FileError} (h0 : path.contains '\x00' = false)
    (h : s.makeDirectory path = .error e) : e.isSystem = true := by
  rcases bind_eq_error h with hl | ⟨p, -, h⟩
  · exact isSystem_of_locate h0 hl
  · split at h
    · rw [← Except.error.inj h]
      rfl
    · cases h

theorem isSystem_of_ensureDirectory {e : FileError} (h0 : path.contains '\x00' = false)
    (h : s.ensureDirectory path = .error e) : e.isSystem = true := by
  unfold ensureDirectory at h
  split at h
  · cases h
  · next e' hm =>
    rcases bind_eq_error h with hd | ⟨b, -, h⟩
    · exact isSystem_of_ask h0 hd
    · split at h
      · cases h
      · rw [← Except.error.inj h]
        exact isSystem_of_makeDirectory h0 hm

theorem isSystem_of_makePath {place : Place} {e : FileError}
    (h0 : ∀ n ∈ place, '\x00' ∉ n.toList) (h : (s.makePath place).2 = some e) :
    e.isSystem = true := by
  induction place generalizing s with
  | nil => cases h
  | cons name above ih =>
    have hp : (pathOf (name :: above).reverse).contains '\x00' = false :=
      noZero_pathOf fun n hn => h0 n (List.mem_reverse.1 hn)
    rw [makePath] at h
    split at h
    · cases h
    · split at h
      · next e' hm =>
        obtain rfl : e' = e := Option.some.inj h
        exact ih (fun n hn => h0 n (List.mem_cons_of_mem _ hn)) (congrArg Prod.snd hm)
      · split at h
        · cases h
        · next e' he =>
          obtain rfl : e' = e := Option.some.inj h
          exact isSystem_of_ensureDirectory hp he
    · next e' _ he =>
      obtain rfl : e' = e := Option.some.inj h
      exact isSystem_of_ensureDirectory hp he

theorem mem_directory {c : Char} (h : c ∈ (Path.directory path).toList) : c ∈ path.toList := by
  unfold Path.directory at h
  dsimp only at h
  split at h <;> rw [String.toList_ofList] at h
  · exact List.mem_reverse.1 ((List.dropWhile_sublist _).subset (List.mem_reverse.1 h))
  · have h' := (List.dropWhile_sublist _).subset (List.mem_reverse.1 h)
    rw [List.mem_reverse, List.mem_reverse] at h'
    exact List.mem_reverse.1 ((List.dropWhile_sublist _).subset h')

/-- **Writing fails for no reasons but those of a file system.** -/
theorem isSystem_of_writeDeep {content : Content} {e : FileError}
    (h0 : path.contains '\x00' = false) (h : (s.writeDeep path content).2 = some e) :
    e.isSystem = true := by
  unfold writeDeep at h
  split at h
  · next e' hm =>
    obtain rfl : e' = e := Option.some.inj h
    refine isSystem_of_makePath (fun n hn => ?_) (congrArg Prod.snd hm)
    refine zero_not_mem_parts (noZero_iff.2 fun hz => noZero_iff.1 h0 (mem_directory hz)) n ?_
    exact List.mem_reverse.1 hn
  · split at h
    · cases h
    · next e' hw =>
      obtain rfl : e' = e := Option.some.inj h
      rcases bind_eq_error hw with hl | ⟨p, -, hw⟩
      · exact isSystem_of_locate h0 hl
      · split at hw
        · rw [← Except.error.inj hw]
          rfl
        · cases hw

/-- A directory with an unusable path is not made. -/
theorem makeDirectories_of_locate {e : FileError} (hp : parts directory ≠ [])
    (hm : ∀ p, e ≠ .missing p)
    (hl : ∀ follow, s.locate follow (pathOf (parts directory)) = .error e) :
    (s.makeDirectories directory).2 = some e := by
  have he : s.ensureDirectory (pathOf (parts directory)) = .error e := by
    cases ha : e.meansAbsent <;>
      simp [ensureDirectory, makeDirectory, isDirectory, ask, find, hl, bind, Except.bind, ha, throw,
        throwThe, MonadExceptOf.throw]
  obtain ⟨name, above, hr⟩ := List.exists_cons_of_ne_nil (mt List.reverse_eq_nil_iff.1 hp)
  rw [makeDirectories, hr, makePath, ← hr, List.reverse_reverse]
  simp only [he]

/-- A directory that could be made has no zero character in its path. -/
theorem noZero_of_makeDirectories (h : (s.makeDirectories directory).2 = none) :
    directory.contains '\x00' = false := by
  rw [noZero_iff]
  intro hz
  obtain ⟨c, hc, hm⟩ := exists_component_of_mem hz (by decide) (by decide)
  have hpath : (pathOf (parts directory)).contains '\x00' = true := by
    rw [String.contains_char_eq, decide_eq_true_eq, toList_pathOf, map_toList_parts]
    exact List.mem_cons_of_mem _ (Text.mem_joinPieces_of_mem hc hm)
  have hne : parts directory ≠ [] := List.ne_nil_of_mem (List.mem_map_of_mem hc)
  have he : (s.makeDirectories directory).2 = some .zeroCharacter :=
    makeDirectories_of_locate hne (by simp) fun follow => by rw [locate, if_pos hpath]
  rw [he] at h
  cases h

/-- A directory that could be made has a path that is short enough. -/
theorem size_of_makeDirectories (h : (s.makeDirectories directory).2 = none) :
    (pathOf (parts directory)).utf8ByteSize < pathLimit := by
  by_cases hne : parts directory = []
  · rw [hne]
    decide
  · refine Nat.lt_of_not_le fun hs => ?_
    have h0 : (pathOf (parts directory)).contains '\x00' = false :=
      noZero_pathOf (zero_not_mem_parts (noZero_of_makeDirectories h))
    have he : (s.makeDirectories directory).2
        = some (.nameTooLong (pathOf (parts directory))) :=
      makeDirectories_of_locate hne (by simp) fun follow => by
        rw [locate, if_neg (by rw [h0]; decide), if_pos hs]
    rw [he] at h
    cases h

end SpecTree.Store
