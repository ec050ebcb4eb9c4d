import SpecTree.Proofs.Path.Spelling
import SpecTree.Proofs.Store.Walk

/-!
# Files of a plain store

Absolute paths that lead to one place from one root (`location`) have one normal form, and no others have it
(`normalize_eq_iff`).

Where there are no links, a path leads to the place that its names spell (`placeOf`), whatever the
store holds. Making directories leaves all files as they are (`sameFiles_makeDirectories`), and writing a
file changes the file at its place (`wrote_writeDeep`) or, if it fails, none at all
(`sameFiles_writeDeep`).
-/

namespace SpecTree.Store

open SpecTree.Path

variable {s t : Store} {path : String} {place p : Place} {names : List String} {content c : Content}

/-! ## Plain stores -/

/-- A name that a path can spell and that stands for no other place. -/
def IsProper (name : String) : Prop := IsComponent name ∧ name ≠ ".."

instance : DecidablePred IsProper := fun name => inferInstanceAs (Decidable (IsComponent name ∧ _))

/-- No entry is a link, and all names are proper. -/
structure Plain (s : Store) : Prop where
  linkless (p : Place) (target : List String) : s.entry? p ≠ some (.link target)
  named (p : Place) (e : Entry) : s.entry? p = some e → ∀ n ∈ p, IsProper n

/-- It suffices to look at the entries. -/
theorem plain_of_entries
    (h : ∀ x ∈ s.entries, (x.2 matches .link _) = false ∧ ∀ n ∈ x.1, IsProper n) : s.Plain := by
  have hmem (p : Place) (e : Entry) (hp : p ≠ []) (he : s.entry? p = some e) : (p, e) ∈ s.entries := by
    rw [entry?_of_ne_nil s hp] at he
    exact mem_of_lookup he
  constructor
  · intro p target he
    by_cases hp : p = []
    · rw [hp, entry?_nil] at he
      cases he
    · cases (h _ (hmem p _ hp he)).1
  · intro p e he n hn
    exact (h _ (hmem p e (List.ne_nil_of_mem hn) he)).2 n hn

/-! ## Places without a store -/

/-- Where names lead from a place when each one is taken as it is. -/
def descend (place : Place) (names : List String) : Place :=
  names.foldl (fun p n => if n = ".." then p.dropLast else p ++ [n]) place

theorem descend_append (place : Place) (names more : List String) :
    descend place (names ++ more) = descend (descend place names) more := List.foldl_append

theorem descend_of_forall (h : ∀ n ∈ names, n ≠ "..") (place : Place) :
    descend place names = place ++ names := by
  induction names generalizing place with
  | nil => exact (List.append_nil _).symm
  | cons n names ih =>
    have hn := h n List.mem_cons_self
    have hnames : ∀ n ∈ names, n ≠ ".." := fun x hx => h x (List.mem_cons_of_mem _ hx)
    rw [descend, List.foldl_cons, if_neg hn]
    exact (ih hnames _).trans (by simp)

theorem mem_descend {n : String} (h : n ∈ descend place names) :
    n ∈ place ∨ n ∈ names ∧ n ≠ ".." := by
  induction names generalizing place with
  | nil => exact .inl h
  | cons name names ih =>
    rw [descend, List.foldl_cons] at h
    rcases ih h with h | ⟨h, hn⟩
    · split at h
      · exact .inl ((List.dropLast_prefix place).mem h)
      · next hn =>
        rcases List.mem_append.1 h with h | h
        · exact .inl h
        · obtain rfl := List.mem_singleton.1 h
          exact .inr ⟨List.mem_cons_self, hn⟩
    · exact .inr ⟨List.mem_cons_of_mem _ h, hn⟩

/-- The place that a path spells. -/
def placeOf (path : String) : Place := descend [] (parts path)

theorem isProper_of_mem_placeOf {n : String} (h : n ∈ placeOf path) : IsProper n :=
  have h := (mem_descend h).resolve_left List.not_mem_nil
  ⟨isComponent_of_mem_parts h.1, h.2⟩

theorem placeOf_spell (directory : String) (h : ∀ n ∈ names, IsProper n) :
    placeOf (spell directory names) = placeOf directory ++ names := by
  rw [placeOf, parts_spell directory fun n hn => (h n hn).1, descend_append,
    descend_of_forall fun n hn => (h n hn).2]
  rfl

/-! ## Normal forms -/

/-- From the root down, a parent step takes back the name before it, or leads nowhere else. -/
theorem reverse_foldl_push (cs : List (List Char)) {stack : List (List Char)} (hs : parent ∉ stack) :
    (cs.foldl (push true) stack).reverse
      = (descend (stack.reverse.map String.ofList) (cs.map String.ofList)).map String.toList := by
  induction cs generalizing stack with
  | nil => simp [descend]
  | cons c cs ih =>
    rw [List.foldl_cons, List.map_cons, descend, List.foldl_cons]
    by_cases hc : c = parent
    · subst hc
      rw [if_pos (show String.ofList parent = ".." from rfl)]
      cases stack with
      | nil => exact ih hs
      | cons top below =>
        have htop : top ≠ parent := fun e => hs (e ▸ List.mem_cons_self)
        have hpush : push true (top :: below) parent = below := by simp [push, htop]
        rw [hpush, ih fun hm => hs (List.mem_cons_of_mem _ hm)]
        simp [descend]
    · have hname : String.ofList c ≠ ".." := fun he => hc (String.ofList_inj.1 he)
      have hpush : push true stack c = c :: stack := if_neg hc
      rw [if_neg hname, hpush, ih fun hm => (List.mem_cons.1 hm).elim (fun e => hc e.symm) hs]
      simp [descend]

theorem map_toList_placeOf (path : String) :
    (placeOf path).map String.toList = resolveParents true (components path.toList) :=
  (reverse_foldl_push (components path.toList) List.not_mem_nil).symm

theorem toList_normalize (h : IsAbsolute path) : (Path.normalize path).toList
    = root path.toList ++ Text.joinPieces '/' ((placeOf path).map String.toList) := by
  have hroot : root path.toList ≠ [] := by
    intro he
    have hhead := head?_root h.head?_toList
    rw [he] at hhead
    cases hhead
  rw [map_toList_placeOf, Path.normalize, String.toList_ofList, normalizeChars,
    show isAbsoluteChars path.toList = true from h]
  split
  · next he => exact absurd (List.append_eq_nil_iff.1 he).1 hroot
  · rfl

/-- The normal form of an absolute path is spelled by the names of its place. -/
theorem normalize_eq_spell (h : IsAbsolute path) :
    Path.normalize path = spell (String.ofList (root path.toList)) (placeOf path) := by
  rw [← String.toList_inj, toList_normalize h, toList_spell, parts, String.toList_ofList,
    components_root, root_root]
  rfl

/-- Where a path leads: the slashes in front, as they count, and the names from there down. -/
def location (path : String) : List Char × Place := (root path.toList, placeOf path)

theorem parts_normalize (h : IsAbsolute path) : parts (Path.normalize path) = placeOf path := by
  rw [normalize_eq_spell h, parts_spell _ fun n hn => (isProper_of_mem_placeOf hn).1, parts,
    String.toList_ofList, components_root]
  rfl

/-- **A path and its normal form lead to one place.** -/
theorem location_normalize (h : IsAbsolute path) : location (Path.normalize path) = location path := by
  have hroot : root (Path.normalize path).toList = root path.toList := by
    rw [normalize_eq_spell h, root_spell _ fun n hn => (isProper_of_mem_placeOf hn).1,
      String.toList_ofList, root_root]
  have hplace : placeOf (Path.normalize path) = placeOf path := by
    rw [placeOf, parts_normalize h, descend_of_forall fun n hn => (isProper_of_mem_placeOf hn).2]
    rfl
  rw [location, location, hroot, hplace]

/-- **Absolute paths have one normal form exactly when they lead to one place.** -/
theorem normalize_eq_iff {other : String} (h : IsAbsolute path) (ho : IsAbsolute other) :
    Path.normalize path = Path.normalize other ↔ location path = location other := by
  constructor
  · intro he
    rw [← location_normalize h, he, location_normalize ho]
  · intro hl
    rw [normalize_eq_spell h, normalize_eq_spell ho, (Prod.mk.inj hl).1, (Prod.mk.inj hl).2]

theorem normalize_normalize (h : IsAbsolute path) :
    Path.normalize (Path.normalize path) = Path.normalize path :=
  (normalize_eq_iff h.normalize h).2 (location_normalize h)

/-- A path that is not absolute goes on from the place of the base. -/
theorem location_join (base : String) (h : ¬IsAbsolute path) :
    location (Path.join base path) = (root base.toList, descend (placeOf base) (parts path)) := by
  rw [location, root_join base h, placeOf, parts_join base h, descend_append]
  rfl

/-! ## Paths in a plain store -/

theorem walk_eq_descend (h : s.Plain) {follow : Bool} {links : Nat} {q : Place}
    (hw : walk s path follow links place names = .ok q) : q = descend place names := by
  fun_induction walk s path follow links place names with
  | case1 => exact (Except.ok.inj hw).symm
  | case2 => cases hw
  | case3 links place rest _ ih => exact ih hw
  | case4 links place name rest _ hn _ ih =>
    rw [descend, List.foldl_cons, if_neg hn]
    exact ih hw
  | case5 links place name rest _ hn _ _ hr =>
    rw [List.isEmpty_iff] at hr
    rw [hr, ← Except.ok.inj hw, descend, List.foldl_cons, if_neg hn]
    rfl
  | case6 => cases hw
  | case7 _ _ _ _ _ _ target he => exact absurd he (h.linkless _ target)
  | case8 _ _ _ _ _ target he => exact absurd he (h.linkless _ target)
  | case9 _ _ _ _ _ target he => exact absurd he (h.linkless _ target)
  | case10 links place name rest _ hn _ hr =>
    rw [List.isEmpty_iff] at hr
    rw [hr, ← Except.ok.inj hw, descend, List.foldl_cons, if_neg hn]
    rfl
  | case11 => cases hw

theorem locate_eq_placeOf (h : s.Plain) {follow : Bool} {q : Place}
    (hl : s.locate follow path = .ok q) : q = placeOf path :=
  walk_eq_descend h (locate_eq_ok.1 hl).2.2

/-! ## Stores with the same files -/

/-- Only directories tell the two stores apart. -/
structure SameFiles (s t : Store) : Prop where
  plain : t.Plain
  file (p : Place) (c : Content) : t.entry? p = some (.file c) ↔ s.entry? p = some (.file c)

theorem SameFiles.refl (h : s.Plain) : SameFiles s s := ⟨h, fun _ _ => Iff.rfl⟩

theorem SameFiles.trans {u : Store} (h : SameFiles s t) (k : SameFiles t u) : SameFiles s u :=
  ⟨k.plain, fun p c => (k.file p c).trans (h.file p c)⟩

theorem plain_set (h : s.Plain) (hp : placeOf path ≠ []) {e : Entry}
    (he : ∀ target, e ≠ .link target) : (s.set (placeOf path) e).Plain := by
  constructor
  · intro q target hq
    rw [entry?_set s hp] at hq
    split at hq
    · exact he target (Option.some.inj hq)
    · exact h.linkless q target hq
  · intro q old hq n hn
    rw [entry?_set s hp] at hq
    split at hq
    · next hqp => exact isProper_of_mem_placeOf (hqp ▸ hn)
    · exact h.named q old hq n hn

/-- What is left was there before. -/
theorem entry?_of_prune {q : Place} {e : Entry} (h : Store.entry? (s.prune p) q = some e) :
    s.entry? q = some e := by
  by_cases hq : q = []
  · rw [hq] at h ⊢
    exact h
  · rw [entry?_prune_of_ne_nil _ _ hq] at h
    split at h
    · cases h
    · exact h

theorem plain_prune (h : s.Plain) (p : Place) : (s.prune p).Plain :=
  ⟨fun q target he => h.linkless q target (entry?_of_prune he),
    fun q e he => h.named q e (entry?_of_prune he)⟩

/-- A directory that is made where nothing was is no file. -/
theorem sameFiles_set_directory (h : s.Plain) {follow : Bool} (hl : s.locate follow path = .ok p)
    (hfree : s.entry? p = none) : SameFiles s (s.set p .directory) := by
  obtain rfl := locate_eq_placeOf h hl
  have hp : placeOf path ≠ [] := by
    intro h0
    rw [h0] at hfree
    cases hfree
  refine ⟨plain_set h hp nofun, fun q c => ?_⟩
  rw [entry?_set s hp]
  split
  · next hq =>
    rw [hq, hfree]
    exact ⟨nofun, nofun⟩
  · exact Iff.rfl

theorem sameFiles_makePath (h : s.Plain) (place : Place) : SameFiles s (s.makePath place).1 :=
  makePath_induct (R := fun s t => s.Plain → SameFiles s t) (fun _ => .refl)
    (fun h k hs => (h hs).trans (k (h hs).plain)) (fun hl hfree hs => sameFiles_set_directory hs hl hfree)
    s place h

/-- **Making directories leaves all files as they are.** -/
theorem sameFiles_makeDirectories (h : s.Plain) (path : String) :
    SameFiles s (s.makeDirectories path).1 := sameFiles_makePath h _

/-! ## Writing -/

/-- Only the file at one place is another one, or a new one. -/
structure Wrote (s : Store) (place : Place) (content : Content) (t : Store) : Prop where
  plain : t.Plain
  file (p : Place) (c : Content) :
    t.entry? p = some (.file c) ↔ if p = place then c = content else s.entry? p = some (.file c)

theorem wrote_set (h : s.Plain) (hl : s.locate true path = .ok p) (hd : s.entry? p ≠ some .directory)
    (content : Content) : Wrote s (placeOf path) content (s.set p (.file content)) := by
  obtain rfl := locate_eq_placeOf h hl
  have hp : placeOf path ≠ [] := by
    intro h0
    exact hd (by rw [h0]; rfl)
  refine ⟨plain_set h hp nofun, fun q c => ?_⟩
  rw [entry?_set s hp]
  split
  · simp [eq_comm]
  · exact Iff.rfl

/-- **A file that is written is the only one that changes.** -/
theorem wrote_writeDeep (h : s.Plain) (hw : s.writeDeep path content = (t, none)) :
    Wrote s (placeOf path) content t := by
  have hdirectories := sameFiles_makeDirectories h (Path.directory path)
  obtain ⟨made, p, hm, hl, hd, rfl⟩ := writeDeep_eq_none hw
  rw [hm] at hdirectories
  have hwrote := wrote_set hdirectories.plain hl hd content
  refine ⟨hwrote.plain, fun p c => (hwrote.file p c).trans ?_⟩
  split
  · exact Iff.rfl
  · exact hdirectories.file p c

/-- **Where writing fails, all files are as before.** -/
theorem sameFiles_writeDeep {e : FileError} (h : s.Plain)
    (hw : s.writeDeep path content = (t, some e)) : SameFiles s t := by
  rw [writeDeep_eq_some hw]
  exact sameFiles_makeDirectories h _

end SpecTree.Store
