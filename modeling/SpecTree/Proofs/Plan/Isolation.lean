import Mathlib
import SpecTree.Proofs.Plan.Upkeep

/-!
# Nodes keep apart

Whatever names are asked for, at any depth: the nodes of a tree have paths and artifacts of their own, no
artifact stands where a node has its directory, and removing a node removes nothing of any node that is not
below it (`nodes_keep_apart`).

1. `Stands` gives each position of a tree its ancestry. Positions and ancestries determine each other
   (`Stands.eq_iff`), also as to what lies below what (`Stands.prefix_iff`).
2. The paths of artifacts and of directories are compared by the names that they spell.
3. Of a store, removing a node takes a directory with all that it holds (`invalidate_cases`), which is the
   node's own where no link lies on the way (`walk_linkless`).
-/

namespace SpecTree.Plan

open SpecTree.Path Store

variable {directory : String} {names : List String}

/-! ## Trees of names -/

/-- The node at a position of the tree has the ancestry. The tree gives for each position the names that are
asked for below it. -/
inductive Stands (tree : List Nat → List String) : List Nat → List String → Prop
  | root : Stands tree [] [rootName]
  | child {position : List Nat} {ancestry : List String} {i : Nat} {name : String}
      (above : Stands tree position ancestry) (h : (distinctNames (tree position))[i]? = some name) :
      Stands tree (position ++ [i]) (childAncestry ancestry name)

namespace Stands

variable {tree : List Nat → List String} {p p' : List Nat} {a a' : List String}

theorem isAncestry (h : Stands tree p a) : IsAncestry a := by
  induction h with
  | root => exact isAncestry_root
  | child _ hn ih =>
    rw [childAncestry_of_isAncestry ih]
    exact isAncestry_child ih (isNodeName_of_mem (List.mem_of_getElem? hn))

theorem exists_names (h : Stands tree p a) : ∃ names, a = rootName :: names ∧ ∀ n ∈ names, IsNodeName n :=
  h.isAncestry

theorem child_ancestry {name : String} (h : Stands tree p a) : childAncestry a name = a ++ [name] :=
  childAncestry_of_isAncestry h.isAncestry name

theorem length_eq (h : Stands tree p a) : a.length = p.length + 1 := by
  induction h with
  | root => rfl
  | child above _ ih => rw [above.child_ancestry, List.length_append, List.length_append, ih]; rfl

/-- **A node is known by its ancestry**, and an ancestry by its node. -/
theorem eq_iff (h : Stands tree p a) (h' : Stands tree p' a') : a = a' ↔ p = p' := by
  induction h generalizing p' a' with
  | root =>
    cases h' with
    | root => simp
    | child above' =>
      rw [above'.child_ancestry]
      have := above'.length_eq
      constructor
      · intro he
        have := congrArg List.length he
        simp only [List.length_append, List.length_singleton] at this
        omega
      · intro he
        simp at he
  | @child q b i n above hn ih =>
    cases h' with
    | root =>
      rw [above.child_ancestry]
      have := above.length_eq
      constructor
      · intro he
        have := congrArg List.length he
        simp only [List.length_append, List.length_singleton] at this
        omega
      · intro he
        simp at he
    | @child q' b' i' n' above' hn' =>
      rw [above.child_ancestry, above'.child_ancestry]
      constructor
      · intro he
        obtain ⟨hb, hnn⟩ := List.append_inj' he rfl
        obtain rfl := (ih above').1 hb
        obtain rfl : n = n' := by simpa using hnn
        have hi : i < (distinctNames (tree q)).length := (List.getElem?_eq_some_iff.1 hn).1
        rw [(List.getElem?_inj hi (nodup_distinctNames _)).1 (hn.trans hn'.symm)]
      · intro he
        obtain ⟨hq, hii⟩ := List.append_inj' he rfl
        obtain rfl : i = i' := by simpa using hii
        rw [(ih above').2 hq]
        subst hq
        rw [Option.some.inj (hn.symm.trans hn')]

/-- The nodes above a node stand on its ancestry. -/
theorem above (h : Stands tree p' a') (hp : p <+: p') : ∃ a, Stands tree p a ∧ a <+: a' := by
  induction h with
  | root =>
    rw [List.prefix_nil.1 hp]
    exact ⟨_, .root, List.prefix_refl _⟩
  | child above hn ih =>
    rcases List.prefix_concat_iff.1 hp with rfl | hp
    · exact ⟨_, .child above hn, List.prefix_refl _⟩
    · obtain ⟨a, ha, hpre⟩ := ih hp
      rw [above.child_ancestry]
      exact ⟨a, ha, hpre.trans (List.prefix_append _ _)⟩

theorem prefix_iff (h : Stands tree p a) (h' : Stands tree p' a') : a <+: a' ↔ p <+: p' := by
  constructor
  · intro hp
    have hle := hp.length_le
    rw [h.length_eq, h'.length_eq] at hle
    obtain ⟨b, hb, hb'⟩ := h'.above (List.take_prefix p.length p')
    have hlen : a.length = b.length := by
      rw [h.length_eq, hb.length_eq, List.length_take]
      omega
    have hab : a = b := (List.prefix_of_prefix_length_le hp hb' (by omega)).eq_of_length hlen
    rw [(h.eq_iff hb).1 hab]
    exact List.take_prefix _ _
  · intro hp
    obtain ⟨b, hb, hb'⟩ := h'.above hp
    rwa [(h.eq_iff hb).2 rfl]

theorem eq_of_nodePath_eq (h : Stands tree p a) (h' : Stands tree p' a') (he : nodePath a = nodePath a') :
    p = p' ∧ a = a' := by
  have ha := Plan.eq_of_nodePath_eq h.isAncestry h'.isAncestry he
  exact ⟨(h.eq_iff h').1 ha, ha⟩

end Stands

/-! ## Paths -/

/-- Where an artifact of a node is kept. -/
def Artifact.pathOf (x : Artifact) (directory node : String) : String :=
  match x with
  | .spec => planPath directory node
  | .context => contextPath directory node
  | .questions => questionsPath directory node
  | .record => metaPath directory node

theorem Artifact.pathOf_nodePath (x : Artifact) (directory : String) (names : List String) :
    x.pathOf directory (nodePath (rootName :: names)) = x.path directory names := by
  cases x with
  | spec => exact (String.append_empty).symm
  | context => rfl
  | questions => rfl
  | record => rfl

/-- The directory that the path of a node names. The root has its artifacts in the plan directory instead;
the name that it would have there is no other node's. -/
def nodeDirectory (directory node : String) : String := assemble [directory, node]

/-- The path leads down from the directory, by a name at least. -/
def LiesBelow (directory path : String) : Prop :=
  ∃ names ≠ [], (∀ n ∈ names, IsComponent n ∧ n ≠ "..") ∧ path = spell directory names

/-- The names of a node's directory. -/
def ownNames (names : List String) : List String := if names = [] then [rootName] else names

theorem ownNames_ne_nil (names : List String) : ownNames names ≠ [] := by
  unfold ownNames
  split
  · exact List.cons_ne_nil _ _
  · assumption

theorem isNameChar_of_mem_ownNames {n : String} (hn : ∀ n ∈ names, IsNodeName n) (h : n ∈ ownNames names) :
    ∀ c ∈ n.toList, isNameChar c = true := by
  unfold ownNames at h
  split at h
  · rw [List.mem_singleton.1 h]
    exact List.all_eq_true.1 (show rootName.toList.all isNameChar = true by decide)
  · exact (hn n h).isNameChar

theorem isComponent_of_mem_ownNames {n : String} (hn : ∀ n ∈ names, IsNodeName n) (h : n ∈ ownNames names) :
    IsComponent n ∧ n ≠ ".." := by
  have hchars := isNameChar_of_mem_ownNames hn h
  refine ⟨?_, fun he => absurd (hchars '.' (by rw [he]; decide)) (by decide)⟩
  unfold ownNames at h
  split at h
  · rw [List.mem_singleton.1 h]
    exact ⟨by decide, by decide, by decide⟩
  · exact isComponent_of_isNodeName (hn n h)

theorem nodeDirectory_eq_spell (directory : String) (hn : ∀ n ∈ names, IsNodeName n) :
    nodeDirectory directory (nodePath (rootName :: names)) = spell directory (ownNames names) := by
  unfold nodeDirectory ownNames
  split
  · next h =>
    subst h
    exact assemble_component directory ⟨by decide, by decide, by decide⟩
  · next h => exact Shelved.inside_eq_spell h hn

theorem parts_nodeDirectory (directory : String) (hn : ∀ n ∈ names, IsNodeName n) :
    parts (nodeDirectory directory (nodePath (rootName :: names))) = parts directory ++ ownNames names := by
  rw [nodeDirectory_eq_spell directory hn, parts_spell]
  exact fun n hm => (isComponent_of_mem_ownNames hn hm).1

/-- **Every node's directory lies below the plan directory.** -/
theorem liesBelow_nodeDirectory (directory : String) (hn : ∀ n ∈ names, IsNodeName n) :
    LiesBelow directory (nodeDirectory directory (nodePath (rootName :: names))) :=
  ⟨ownNames names, ownNames_ne_nil names, fun _ => isComponent_of_mem_ownNames hn,
    nodeDirectory_eq_spell directory hn⟩

theorem parts_pathOf_artifact (x : Artifact) (directory : String) (hn : ∀ n ∈ names, IsNodeName n) :
    parts (x.pathOf directory (nodePath (rootName :: names)))
      = parts directory ++ (names ++ [x.fileName names]) := by
  rw [x.pathOf_nodePath, artifactPath_eq_spell x directory hn, parts_spell]
  exact List.forall_mem_append.2 ⟨fun n hm => isComponent_of_isNodeName (hn n hm),
    List.forall_mem_singleton.2 (x.isFileName names).toIsComponent⟩

/-- **No two artifacts have one path.** -/
theorem eq_of_parts_pathOf_eq {x y : Artifact} {names' : List String} (hn : ∀ n ∈ names, IsNodeName n)
    (hn' : ∀ n ∈ names', IsNodeName n)
    (h : parts (x.pathOf directory (nodePath (rootName :: names)))
      = parts (y.pathOf directory (nodePath (rootName :: names')))) : names = names' ∧ x = y := by
  rw [parts_pathOf_artifact x directory hn, parts_pathOf_artifact y directory hn',
    List.append_cancel_left_eq] at h
  obtain ⟨hnames, hfile⟩ := List.append_inj' h rfl
  exact ⟨hnames, Artifact.fileName_injective (List.singleton_inj.1 hfile)⟩

/-- A file's name has a dot, those of directories have none. -/
theorem fileName_not_mem_ownNames (x : Artifact) (names : List String) {names' : List String}
    (hn : ∀ n ∈ names', IsNodeName n) :
    x.fileName names ∉ ownNames names' := by
  intro h
  have hd : '.' ∈ (x.fileName names).toList := by
    rcases x.fileName_cases names with h | h <;> rw [h] <;> cases x <;> decide
  exact absurd (isNameChar_of_mem_ownNames hn h '.' hd) (by decide)

/-- **No artifact stands where a node has its directory.** -/
theorem parts_pathOf_ne_nodeDirectory (x : Artifact) {names' : List String} (hn : ∀ n ∈ names, IsNodeName n)
    (hn' : ∀ n ∈ names', IsNodeName n) :
    parts (x.pathOf directory (nodePath (rootName :: names)))
      ≠ parts (nodeDirectory directory (nodePath (rootName :: names'))) := by
  rw [parts_pathOf_artifact x directory hn, parts_nodeDirectory directory hn', Ne,
    List.append_cancel_left_eq]
  intro h
  refine fileName_not_mem_ownNames x names hn' ?_
  rw [← h]
  exact List.mem_append_right _ (List.mem_singleton_self _)

theorem parts_pathOf_ne_directory (x : Artifact) (hn : ∀ n ∈ names, IsNodeName n) :
    parts (x.pathOf directory (nodePath (rootName :: names))) ≠ parts directory := by
  rw [parts_pathOf_artifact x directory hn]
  simp

/-! ## Removing a node -/

section Removing

variable {s : Store} {base place : Place} {path : String}

/-- Without links, a path that spells names leads to the place of its names. -/
theorem walk_linkless {links : Nat} (hn : ∀ n ∈ names, n ≠ "..")
    (hl : ∀ pre, pre <+: names → pre ≠ [] → pre ≠ names → ∀ target, s.entry? (base ++ pre) ≠ some (.link target))
    (hw : walk s path false links base names = .ok place) : place = base ++ names := by
  induction names generalizing base with
  | nil =>
    rw [walk] at hw
    rw [List.append_nil]
    exact (Except.ok.inj hw).symm
  | cons name rest ih =>
    rw [walk, if_neg (hn name List.mem_cons_self)] at hw
    split at hw
    · cases hw
    split at hw
    · have := ih (fun n hm => hn n (List.mem_cons_of_mem _ hm)) (fun pre hp h0 hne target => ?_) hw
      · rw [this, List.append_assoc]
        rfl
      · rw [List.append_assoc]
        refine hl (name :: pre) (List.cons_prefix_cons.2 ⟨rfl, hp⟩) (List.cons_ne_nil _ _) ?_ target
        exact fun he => hne (List.cons.inj he).2
    · split at hw
      · next hr =>
        rw [List.isEmpty_iff.1 hr]
        exact (Except.ok.inj hw).symm
      · cases hw
    · next target he =>
      by_cases hr : rest = []
      · subst hr
        exact (Except.ok.inj hw).symm
      · refine absurd he (hl [name] (List.cons_prefix_cons.2 ⟨rfl, List.nil_prefix⟩) (List.cons_ne_nil _ _)
          (fun h => hr (List.cons.inj h).2.symm) target)
    · split at hw
      · next hr =>
        rw [List.isEmpty_iff.1 hr]
        exact (Except.ok.inj hw).symm
      · cases hw

/-- Below a directory that is there, names lead on from its place. -/
theorem exists_walk_below (hd : s.find true directory = .ok (base, .directory)) (h0 : names ≠ [])
    (hp : parts path = parts directory ++ names) {e : Entry} (hf : s.find false path = .ok (place, e)) :
    ∃ left, walk s path false left base names = .ok place := by
  obtain ⟨hloc, he⟩ := find_eq_ok.1 hd
  obtain ⟨left, hw⟩ := walk_append (Keeps.refl s) (locate_eq_ok.1 hloc).2.2 he
  refine ⟨left, ?_⟩
  rw [← hw path false names (.inl h0), ← hp]
  exact (locate_eq_ok.1 (find_eq_ok.1 hf).1).2.2

/-- Along directories a path is followed to its end, unless it is too long. -/
theorem walk_leads (path : String) (links : Nat) (hn : ∀ n ∈ names, n ≠ "..") (hl : s.Leads base names) :
    (∀ follow, walk s path follow links base names = .ok (base ++ names)) ∨
      walk s path true links base names = .error (.nameTooLong path) := by
  by_cases hlong : ∀ n ∈ names, n.utf8ByteSize ≤ nameLimit
  · refine .inl fun follow => ?_
    rw [← List.append_nil names, walk_directories (fun n hm => ⟨hlong n hm, hn n hm⟩) hl, walk, List.append_nil]
  · refine .inr ?_
    induction names generalizing base with
    | nil => exact absurd (List.forall_mem_nil _) hlong
    | cons name rest ih =>
      by_cases h : nameLimit < name.utf8ByteSize
      · exact walk_too_long h true
      · have hd := hl [name] (List.cons_prefix_cons.2 ⟨rfl, List.nil_prefix⟩) (List.cons_ne_nil _ _)
        rw [walk, if_neg h, if_neg (hn name List.mem_cons_self), hd]
        refine ih (fun n hm => hn n (List.mem_cons_of_mem _ hm)) hl.tail fun hrest => hlong ?_
        exact List.forall_mem_cons.2 ⟨Nat.le_of_not_lt h, hrest⟩

theorem find_leads (hd : s.find true directory = .ok (base, .directory)) (h0 : names ≠ [])
    (hn : ∀ n ∈ names, n ≠ "..") (hl : s.Leads base names)
    (hp : parts path = parts directory ++ names) (hz : path.contains '\x00' = false) :
    (∀ follow, s.find follow path = .ok (base ++ names, .directory)) ∨
      s.find true path = .error (.nameTooLong path) := by
  obtain ⟨hloc, he⟩ := find_eq_ok.1 hd
  obtain ⟨left, hw⟩ := walk_append (Keeps.refl s) (locate_eq_ok.1 hloc).2.2 he
  by_cases hs : path.utf8ByteSize ≥ pathLimit
  · refine .inr ?_
    rw [Store.find, locate, hz, if_neg (by decide), if_pos hs]
    rfl
  · rcases walk_leads path left hn hl with hk | hk
    · refine .inl fun follow => find_eq_ok.2 ⟨locate_eq_ok.2 ⟨hz, Nat.lt_of_not_le hs, ?_⟩,
        hl names (List.prefix_refl _) h0⟩
      rw [hp, hw path follow names (.inl h0), hk]
    · refine .inr ?_
      rw [Store.find, locate, hz, if_neg (by decide), if_neg hs, hp, hw path true names (.inl h0), hk]
      rfl

/-- **A node that is there goes with all below it**, unless its path is too long. -/
theorem invalidate_leads {ns : List String} (hd : s.find true directory = .ok (base, .directory))
    (h0 : ns ≠ []) (hn : ∀ n ∈ ns, IsNodeName n) (hl : s.Leads base ns)
    (hok : (invalidate s directory (nodePath (rootName :: ns))).2 = none) :
    (invalidate s directory (nodePath (rootName :: ns))).1 = s.prune (base ++ ns) := by
  have hroot : nodePath (rootName :: ns) ≠ rootName := by
    rw [nodePath_of_ne_nil h0 hn]
    exact intercalate_ne_rootName h0 hn
  have hown : ownNames ns = ns := if_neg h0
  have hz : (nodeDirectory directory (nodePath (rootName :: ns))).contains '\x00' = false := by
    rw [nodeDirectory_eq_spell directory hn, hown]
    exact noZero_spell (locate_eq_ok.1 (find_eq_ok.1 hd).1).1 (zero_not_mem_names hn)
  have hparts : parts (nodeDirectory directory (nodePath (rootName :: ns))) = parts directory ++ ns := by
    rw [parts_nodeDirectory directory hn, hown]
  have hdots : ∀ n ∈ ns, n ≠ ".." := fun n hm =>
    (isComponent_of_mem_ownNames hn (show n ∈ ownNames ns by rwa [hown])).2
  have hfind := find_leads hd h0 hdots hl hparts hz
  unfold nodeDirectory at hfind
  simp only [invalidate, if_neg hroot] at hok ⊢
  rcases hfind with hf | hf
  · simp only [isDirectory, ask_of_find (hf true), removeTree_of_find (hf false)]
  · have hask : isDirectory s (assemble [directory, nodePath (rootName :: ns)])
        = .error (.nameTooLong (assemble [directory, nodePath (rootName :: ns)])) := by
      rw [isDirectory, ask, hf]
      rfl
    rw [hask] at hok
    cases hok

/-- What removing the node at `position` does to a store: only what its own directory holds goes; without
links on the way that is nothing of a node elsewhere; and of the nodes in the branch nothing remains. -/
structure RemovesBranch (tree : List Nat → List String) (directory : String) (position : List Nat)
    (ancestry : List String) (s : Store) : Prop where
  inside : ∀ place, Store.entry? (invalidate s directory (nodePath ancestry)).1 place ≠ s.entry? place →
    ∃ own, s.find false (nodeDirectory directory (nodePath ancestry)) = .ok (own, .directory) ∧ own <+: place
  others : ∀ base, s.find true directory = .ok (base, .directory) →
    (∀ pre, pre <+: ancestry.tail → pre ≠ [] → pre ≠ ancestry.tail →
      ∀ target, s.entry? (base ++ pre) ≠ some (.link target)) →
    ∀ position' ancestry' (x : Artifact) names, Stands tree position' ancestry' → ¬ position <+: position' →
      parts (x.pathOf directory (nodePath ancestry')) = parts directory ++ names →
      Store.entry? (invalidate s directory (nodePath ancestry)).1 (base ++ names) = s.entry? (base ++ names)
  branch : ∀ base, s.find true directory = .ok (base, .directory) → s.Leads base ancestry.tail →
    (invalidate s directory (nodePath ancestry)).2 = none →
    ∀ position' ancestry' (x : Artifact) names, Stands tree position' ancestry' → position <+: position' →
      parts (x.pathOf directory (nodePath ancestry')) = parts directory ++ names →
      Store.entry? (invalidate s directory (nodePath ancestry)).1 (base ++ names) = none

theorem Stands.removesBranch {tree : List Nat → List String} {position : List Nat} {ancestry : List String}
    (h : Stands tree position ancestry) (h0 : position ≠ []) (directory : String) (s : Store) :
    RemovesBranch tree directory position ancestry s := by
  obtain ⟨ns, rfl, hn⟩ := h.exists_names
  have hns : ns ≠ [] := by
    rintro rfl
    exact h0 ((h.eq_iff .root).1 rfl)
  have hroot : nodePath (rootName :: ns) ≠ rootName := by
    rw [nodePath_of_ne_nil hns hn]
    exact intercalate_ne_rootName hns hn
  -- The names of an artifact's path, and whether they go on from the removed node's.
  have hspelled {position' : List Nat} {ancestry' : List String} {x : Artifact} {rel : List String}
      (h' : Stands tree position' ancestry')
      (hp : parts (x.pathOf directory (nodePath ancestry')) = parts directory ++ rel) :
      ns <+: rel ↔ position <+: position' := by
    obtain ⟨ns', rfl, hn'⟩ := h'.exists_names
    rw [parts_pathOf_artifact x directory hn', List.append_cancel_left_eq] at hp
    rw [← h.prefix_iff h', List.cons_prefix_cons, ← hp]
    constructor
    · intro hpre
      rcases List.prefix_concat_iff.1 hpre with rfl | hpre
      · exact absurd (hn _ (List.mem_append_right _ (List.mem_singleton_self _)))
          (not_isNodeName_fileName x ns')
      · exact ⟨rfl, hpre⟩
    · exact fun hpre => hpre.2.trans (List.prefix_append _ _)
  refine ⟨fun place hne => ?_, fun base hd hl position' ancestry' x rel h' hnot hp => ?_,
    fun base hd hl hok position' ancestry' x rel h' hpos hp => ?_⟩
  · rcases invalidate_cases s directory hroot with he | ⟨own, hf, he⟩
    · exact absurd (by rw [he]) hne
    · refine ⟨own, hf, by_contra fun hpre => hne ?_⟩
      by_cases hq : place = []
      · rw [hq, entry?_nil, entry?_nil]
      · rw [he, entry?_prune_of_ne_nil s own hq, if_neg hpre]
  · rcases invalidate_cases s directory hroot with he | ⟨own, hf, he⟩
    · rw [he]
    · have hdots : ∀ n ∈ ns, n ≠ ".." := fun n hm => (isComponent_of_mem_ownNames hn
        (show n ∈ ownNames ns by rwa [ownNames, if_neg hns])).2
      have hparts : parts (nodeDirectory directory (nodePath (rootName :: ns))) = parts directory ++ ns := by
        rw [parts_nodeDirectory directory hn, ownNames, if_neg hns]
      obtain ⟨left, hw⟩ := exists_walk_below hd hns hparts hf
      rw [he, walk_linkless hdots hl hw, entry?_prune s (by simp [hns]), if_neg]
      rw [List.prefix_append_right_inj]
      exact fun hpre => hnot ((hspelled h' hp).1 hpre)
  · rw [invalidate_leads hd hns hn hl hok, entry?_prune s (by simp [hns]), if_pos]
    rw [List.prefix_append_right_inj]
    exact (hspelled h' hp).2 hpos

end Removing

/-- **Nodes keep apart.** Of all nodes of a tree, whatever names are asked for: different nodes have different
paths; no two artifacts have one path, those of one node included; none has the path of a node's directory or
of the plan directory; every node's directory lies below the plan directory; and a node below the root is
removed with nothing but its branch. -/
theorem nodes_keep_apart (tree : List Nat → List String) (directory : String) :
    (∀ p a p' a', Stands tree p a → Stands tree p' a' → nodePath a = nodePath a' → p = p' ∧ a = a') ∧
    (∀ p a p' a' (x y : Artifact), Stands tree p a → Stands tree p' a' →
      parts (x.pathOf directory (nodePath a)) = parts (y.pathOf directory (nodePath a')) → p = p' ∧ x = y) ∧
    (∀ p a p' a' (x : Artifact), Stands tree p a → Stands tree p' a' →
      parts (x.pathOf directory (nodePath a)) ≠ parts (nodeDirectory directory (nodePath a')) ∧
        parts (x.pathOf directory (nodePath a)) ≠ parts directory) ∧
    (∀ p a, Stands tree p a → LiesBelow directory (nodeDirectory directory (nodePath a))) ∧
    ∀ p a s, Stands tree p a → p ≠ [] → RemovesBranch tree directory p a s := by
  refine ⟨fun p a p' a' h h' => h.eq_of_nodePath_eq h', fun p a p' a' x y h h' he => ?_,
    fun p a p' a' x h h' => ?_, fun p a h => ?_, fun p a s h h0 => h.removesBranch h0 directory s⟩
  · have hkeep := h.eq_iff h'
    obtain ⟨ns, rfl, hn⟩ := h.exists_names
    obtain ⟨ns', rfl, hn'⟩ := h'.exists_names
    obtain ⟨rfl, rfl⟩ := eq_of_parts_pathOf_eq hn hn' he
    exact ⟨hkeep.1 rfl, rfl⟩
  · obtain ⟨ns, rfl, hn⟩ := h.exists_names
    obtain ⟨ns', rfl, hn'⟩ := h'.exists_names
    exact ⟨parts_pathOf_ne_nodeDirectory x hn hn', parts_pathOf_ne_directory x hn⟩
  · obtain ⟨ns, rfl, hn⟩ := h.exists_names
    exact liesBelow_nodeDirectory directory hn

/-- Names of artifacts, of the root, of paths and of numbered siblings, below the root and below one of its
children. -/
def trickyTree : List Nat → List String
  | [] => ["node.plan.aid", "root", "root", "root-2", "root/root-2"]
  | [1] => ["root", "node.plan.aid", "../root"]
  | _ => []

theorem stands_trickyTree :
    Stands trickyTree [1] [rootName, "root-2"] ∧ Stands trickyTree [2] [rootName, "root-3"] :=
  ⟨.child (i := 1) .root (by decide +kernel), .child (i := 2) .root (by decide +kernel)⟩

/-- Two of its nodes, with their plans. -/
def trickyStore : Store :=
  ⟨[(["plan"], .directory), (["plan", "root-2"], .directory),
    (["plan", "root-2", "node.plan.aid"], fileOf "a;"), (["plan", "root-3"], .directory),
    (["plan", "root-3", "node.plan.aid"], fileOf "b;")]⟩

theorem nodes_keep_apart_trickyTree :
    Store.entry? (invalidate trickyStore "plan" "root-2").1 ["plan", "root-2", "node.plan.aid"] = none ∧
      Store.entry? (invalidate trickyStore "plan" "root-2").1 ["plan", "root-3", "node.plan.aid"]
        = some (fileOf "b;") := by
  have removes := (nodes_keep_apart trickyTree "plan").2.2.2.2 [1] _ trickyStore stands_trickyTree.1 (by decide)
  have hd : trickyStore.find true "plan" = .ok (["plan"], .directory) := by cbv
  have honly {pre : List String} (hp : pre <+: [] ++ ["root-2"]) (h0 : pre ≠ []) : pre = ["root-2"] :=
    (List.prefix_concat_iff.1 hp).resolve_right fun hp => h0 (List.prefix_nil.1 hp)
  have hl : trickyStore.Leads ["plan"] ["root-2"] := fun pre hp h0 => honly hp h0 ▸ rfl
  exact ⟨removes.branch ["plan"] hd hl (by cbv) [1] _ .spec ["root-2", "node.plan.aid"] stands_trickyTree.1
      (by decide) (by cbv),
    removes.others ["plan"] hd (fun pre hp h0 hne => absurd (honly hp h0) hne) [2] _ .spec
      ["root-3", "node.plan.aid"] stands_trickyTree.2 (by decide) (by cbv)⟩

end SpecTree.Plan
