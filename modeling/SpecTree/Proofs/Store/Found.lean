import SpecTree.Proofs.Store.Files
import SpecTree.Proofs.Store.Below

/-!
# What is still found after writing

Writing keeps all directories (`keepsDirectories_writeDeep`). So in a plain store a file is found after
other files were written as it was before (`find_of_writeDeep_elsewhere`). Where one file of a directory
is found, the others are found, too (`find_sibling`).
-/

namespace SpecTree.Store

open SpecTree.Path

variable {s t : Store} {path : String} {place p : Place} {names : List String} {content c : Content}

/-- Writing brings no links. -/
theorem plain_writeDeep (h : s.Plain) (path : String) (content : Content) :
    (s.writeDeep path content).1.Plain := by
  generalize hw : s.writeDeep path content = written
  obtain ⟨t, failure⟩ := written
  cases failure with
  | none => exact (wrote_writeDeep h hw).plain
  | some e => exact (sameFiles_writeDeep h hw).plain

/-! ## What can be found still can -/

/-- Every directory of `s` is one of `t`. -/
def KeepsDirectories (s t : Store) : Prop :=
  ∀ ⦃p : Place⦄, s.entry? p = some .directory → t.entry? p = some .directory

theorem KeepsDirectories.refl (s : Store) : s.KeepsDirectories s := fun _ h => h

theorem KeepsDirectories.trans {u : Store} (h : s.KeepsDirectories t) (k : t.KeepsDirectories u) :
    s.KeepsDirectories u := fun _ he => k (h he)

theorem keepsDirectories_set {e : Entry} (hp : p ≠ [])
    (he : s.entry? p = some .directory → e = .directory) : s.KeepsDirectories (s.set p e) := by
  intro q hq
  rw [entry?_set s hp]
  split
  · next hqp => rw [he (hqp ▸ hq)]
  · exact hq

theorem keepsDirectories_makePath (s : Store) (place : Place) :
    s.KeepsDirectories (s.makePath place).1 := by
  refine makePath_induct .refl .trans (fun {s path p} _ hfree => ?_) s place
  refine keepsDirectories_set ?_ fun _ => rfl
  rintro rfl
  cases hfree

/-- **Writing keeps all directories.** -/
theorem keepsDirectories_writeDeep (s : Store) (path : String) (content : Content) :
    s.KeepsDirectories (s.writeDeep path content).1 := by
  have hdirectories : s.KeepsDirectories (s.makeDirectories (Path.directory path)).1 :=
    keepsDirectories_makePath s _
  rcases writeDeep_cases s path content with ⟨e, he⟩ | ⟨made, p, hm, -, hd, hset⟩
  · rwa [he]
  · rw [hm] at hdirectories
    rw [hset]
    refine hdirectories.trans (keepsDirectories_set ?_ fun he => absurd he hd)
    rintro rfl
    exact hd rfl

/-- A walk goes through directories only. -/
theorem walk_of_keepsDirectories (h : s.Plain) (hk : s.KeepsDirectories t)
    (ht : Store.entry? t p = some (.file content)) {follow : Bool} {links : Nat}
    (hw : walk s path follow links place names = .ok p) :
    walk t path follow links place names = .ok p := by
  fun_induction walk s path follow links place names with
  | case1 => rw [walk, hw]
  | case2 => cases hw
  | case3 links place rest hn ih => rw [walk, if_neg hn, if_pos rfl, ih hw]
  | case4 links place name rest hn hp he ih =>
    rw [walk, if_neg hn, if_neg hp, hk he]
    exact ih hw
  | case5 links place name rest hn hp c he hr =>
    obtain rfl := Except.ok.inj hw
    rw [walk, if_neg hn, if_neg hp, ht]
    exact if_pos hr
  | case6 => cases hw
  | case7 _ _ _ _ _ _ target he => exact absurd he (h.linkless _ target)
  | case8 _ _ _ _ _ target he => exact absurd he (h.linkless _ target)
  | case9 _ _ _ _ _ target he => exact absurd he (h.linkless _ target)
  | case10 links place name rest hn hp he hr =>
    obtain rfl := Except.ok.inj hw
    rw [walk, if_neg hn, if_neg hp, ht]
    exact if_pos hr
  | case11 => cases hw

/-- **A file is found where it was found before**, as long as the directories are kept. -/
theorem find_of_keepsDirectories (h : s.Plain) (hk : s.KeepsDirectories t) {e : Entry}
    (hf : s.find true path = .ok (p, e)) (ht : Store.entry? t p = some (.file content)) :
    t.find true path = .ok (p, .file content) := by
  obtain ⟨hl, -⟩ := find_eq_ok.1 hf
  obtain ⟨h0, hs, hw⟩ := locate_eq_ok.1 hl
  exact find_eq_ok.2 ⟨locate_eq_ok.2 ⟨h0, hs, walk_of_keepsDirectories h hk ht hw⟩, ht⟩

/-- **Writing leaves the files at other places alone.** -/
theorem file_of_writeDeep (h : s.Plain) (hne : p ≠ placeOf path) :
    Store.entry? (s.writeDeep path content).1 p = some (.file c) ↔ s.entry? p = some (.file c) := by
  generalize hw : s.writeDeep path content = written
  obtain ⟨t, failure⟩ := written
  cases failure with
  | none => rw [(wrote_writeDeep h hw).file, if_neg hne]
  | some e => exact (sameFiles_writeDeep h hw).file p c

theorem find_of_writeDeep_elsewhere (h : s.Plain) {other : String}
    (hf : s.find true other = .ok (p, .file c)) (hne : placeOf other ≠ placeOf path) :
    (s.writeDeep path content).1.find true other = .ok (p, .file c) := by
  obtain ⟨hl, he⟩ := find_eq_ok.1 hf
  rw [← locate_eq_placeOf h hl] at hne
  exact find_of_keepsDirectories h (keepsDirectories_writeDeep s path content) hf
    ((file_of_writeDeep h hne).2 he)

/-! ## Files side by side -/

/-- From a directory a walk may take any name. -/
theorem walk_sibling (h : s.Plain) {follow : Bool} {links : Nat} {name last : String}
    (hw : walk s path follow links place (names ++ [name]) = .ok p) (hl : IsPlainName last)
    (path' : String) :
    walk s path' follow links place (names ++ [last]) = .ok (descend place names ++ [last]) := by
  induction names generalizing place with
  | nil => exact walk_last hl follow fun target => h.linkless _ target
  | cons n names ih =>
    have hne : ∀ m : String, (names ++ [m]).isEmpty = false := fun m => by simp
    rw [List.cons_append, walk] at hw ⊢
    rw [descend, List.foldl_cons]
    split at hw
    · cases hw
    next hn =>
    rw [if_neg hn]
    split at hw
    · next hup =>
      rw [if_pos hup, if_pos hup]
      exact ih hw
    next hup =>
    rw [if_neg hup, if_neg hup]
    split at hw
    · next he => exact ih hw
    · rw [hne, if_neg Bool.false_ne_true] at hw
      cases hw
    · next target he => exact absurd he (h.linkless _ target)
    · rw [hne, if_neg Bool.false_ne_true] at hw
      cases hw

/-- **Beside a file that is found, other files are.** -/
theorem find_sibling (h : s.Plain) {directory : String} {name last : String} {e : Entry}
    (hn : ∀ n ∈ names ++ [name], IsProper n)
    (hf : s.find true (spell directory (names ++ [name])) = .ok (p, e))
    (hl : IsFileName last)
    (hs : (spell directory (names ++ [last])).utf8ByteSize < pathLimit)
    (he : s.entry? (placeOf directory ++ (names ++ [last])) = some (.file c)) :
    s.find true (spell directory (names ++ [last]))
      = .ok (placeOf directory ++ (names ++ [last]), .file c) := by
  obtain ⟨hloc, -⟩ := find_eq_ok.1 hf
  obtain ⟨h0, -, hw⟩ := locate_eq_ok.1 hloc
  have hnames : ∀ n ∈ names, IsProper n := fun n hm => hn n (List.mem_append_left _ hm)
  rw [parts_spell directory fun n hm => (hn n hm).1, ← List.append_assoc] at hw
  have hparts : parts (spell directory (names ++ [last])) = parts directory ++ names ++ [last] := by
    rw [parts_spell, List.append_assoc]
    intro n hm
    rcases List.mem_append.1 hm with hm | hm
    · exact (hnames n hm).1
    · exact List.mem_singleton.1 hm ▸ hl.toIsComponent
  have hplace : descend [] (parts directory ++ names) ++ [last]
      = placeOf directory ++ (names ++ [last]) := by
    rw [descend_append, descend_of_forall fun n hm => (hnames n hm).2, List.append_assoc]
    rfl
  refine find_eq_ok.2 ⟨locate_eq_ok.2 ⟨?_, hs, ?_⟩, he⟩
  · obtain ⟨hdirectory, hzero⟩ := noZero_of_spell h0
    refine noZero_spell hdirectory fun n hm => ?_
    rcases List.mem_append.1 hm with hm | hm
    · exact hzero n (List.mem_append_left _ hm)
    · exact List.mem_singleton.1 hm ▸ hl.zero_not_mem
  · rw [hparts, walk_sibling h hw hl.plain, hplace]

end SpecTree.Store
