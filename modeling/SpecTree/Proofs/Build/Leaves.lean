import SpecTree.Build.Discovery
import SpecTree.Proofs.Build.Ledger
import SpecTree.Proofs.Plan.Shelf

/-!
# The questions of discovered leaves

Beside the questions of a leaf, or below them, lies the context file by which it was found
(`isMarked_of_discover`). So where no file is below the output root, no questions are either
(`asksOutside_of_discover`).
-/

namespace SpecTree

open SpecTree.Path

/-! ## Texts of nodes -/

namespace OutputPath

variable {path name : String}

theorem isInside_of_isProper (h : Store.IsProper name) : IsInside name :=
  (isInside_of_names (List.cons_ne_nil name []) (List.forall_mem_singleton.2 h) rfl).1

/-- A child's name goes behind its parent's path. -/
theorem IsInside.child (h : IsInside path) (hn : Store.IsProper name) :
    IsInside (path ++ "/" ++ name) ∧ parts (path ++ "/" ++ name) = parts path ++ [name] := by
  have hne : (parts path).map String.toList ≠ [] := mt List.map_eq_nil_iff.1 h.ne_nil
  refine isInside_of_names (by simp) ?_ ?_
  · intro n hm
    exact (List.mem_append.1 hm).elim (h.isProper n) fun hm => List.mem_singleton.1 hm ▸ hn
  · rw [List.map_append, Text.joinPieces_append hne (by simp), ← h.spelled]
    simp [Text.joinPieces]

end OutputPath

namespace Build

open Store OutputPath

variable {s : Store} {plan node name : String} {leaves : List Leaf}

/-- The text of a node during the search; the root has none. -/
def IsNodeText (node : String) : Prop := node = "" ∨ IsInside node

theorem IsNodeText.spell (h : IsNodeText node) (plan : String) (names : List String) :
    spell (assemble [plan, node]) names = spell plan (parts node ++ names) := by
  rcases h with rfl | h
  · exact spell_assemble_empty plan names
  · rw [h.assemble_eq_spell, spell_spell plan fun n hn => (h.isProper n hn).1]

/-- The text of a child of a node. -/
theorem IsNodeText.child (h : IsNodeText node) (hn : IsProper name) :
    IsInside (if node.isEmpty then name else node ++ "/" ++ name) ∧
      parts (if node.isEmpty then name else node ++ "/" ++ name) = parts node ++ [name] := by
  rcases h with rfl | h
  · exact ⟨isInside_of_isProper hn, parts_component hn.1⟩
  · rw [if_neg]
    · exact h.child hn
    · rw [String.isEmpty_iff]
      rintro rfl
      exact h.ne_nil rfl

/-! ## Files that were found -/

theorem exists_of_mem_mapM {α β ε : Type} {f : α → Except ε β} {xs : List α} {ys : List β} {y : β}
    (h : xs.mapM f = .ok ys) (hy : y ∈ ys) : ∃ x ∈ xs, f x = .ok y := by
  induction xs generalizing ys with
  | nil =>
    cases h
    cases hy
  | cons x xs ih =>
    rw [List.mapM_cons] at h
    obtain ⟨z, hz, h⟩ := bind_eq_ok h
    obtain ⟨zs, hzs, h⟩ := bind_eq_ok h
    cases h
    rcases List.mem_cons.1 hy with rfl | hy
    · exact ⟨x, List.mem_cons_self, hz⟩
    · obtain ⟨w, hw, hwy⟩ := ih hzs hy
      exact ⟨w, List.mem_cons_of_mem x hw, hwy⟩

theorem find_of_isFile {path : String} (hs : s.Plain) (h : s.isFile path = .ok true) :
    ∃ content, s.find true path = .ok (placeOf path, .file content) := by
  unfold isFile ask at h
  split at h
  · next p e hf =>
    obtain rfl := locate_eq_placeOf hs (find_eq_ok.1 hf).1
    cases e with
    | file content => exact ⟨content, hf⟩
    | directory => cases h
    | link target => cases h
  · split at h <;> cases h

theorem exists_file_of_isFile {path : String} (hs : s.Plain) (h : s.isFile path = .ok true) :
    path.contains '\x00' = false ∧ ∃ content, s.entry? (placeOf path) = some (.file content) := by
  obtain ⟨content, hf⟩ := find_of_isFile hs h
  obtain ⟨hl, he⟩ := find_eq_ok.1 hf
  exact ⟨(locate_eq_ok.1 hl).1, content, he⟩

/-- Only proper names are listed. -/
theorem isProper_of_mem_list {path : String} {entries : List (String × Entry)} {e : Entry}
    (hs : s.Plain) (h : s.list path = .ok entries) (he : (name, e) ∈ entries) : IsProper name := by
  unfold Store.list at h
  obtain ⟨⟨p, _⟩, -, h⟩ := bind_eq_ok h
  split at h
  · cases h
    rw [(childrenOf_perm s _).mem_iff, List.mem_filterMap] at he
    obtain ⟨x, hx, hn⟩ := he
    rw [nameIn_eq_some.1 hn] at hx
    have hany : s.entries.any (·.1 == _ ++ [name]) = true :=
      List.any_eq_true.2 ⟨_, hx, beq_self_eq_true _⟩
    obtain ⟨old, hold⟩ := Option.isSome_iff_exists.1 (lookup_isSome_of_any hany)
    rw [← entry?_concat] at hold
    exact hs.named _ old hold name (by simp)
  · cases h

/-! ## The search -/

/-- A file by which a node was found: its context. It is in the node's directory; that of the root is the
plan directory itself. -/
structure IsMarked (s : Store) (plan node : String) (names : List String) (file : String) : Prop where
  proper : ∀ n ∈ names ++ [file], IsProper n
  isFile : s.isFile (spell plan (names ++ [file])) = .ok true
  node : node = Plan.rootName ∧ names = [] ∨ IsInside node ∧ parts node = names
  file : file = Plan.Artifact.context.fileName names

theorem isMarked_of_leafIn {directory file : String} {names : List String} {found : List Leaf}
    {l : Leaf} (h : leafIn s directory node file = .ok found) (hl : l ∈ found)
    (hd : spell directory [file] = spell plan (names ++ [file]))
    (hf : IsComponent file) (hc : IsProper (file ++ Plan.contextSuffix))
    (hn : ∀ n ∈ names, IsProper n)
    (hnode : node = Plan.rootName ∧ names = [] ∨ IsInside node ∧ parts node = names)
    (hfile : file = Plan.Artifact.planFile names) :
    IsMarked s plan l.nodePath names (file ++ Plan.contextSuffix) := by
  obtain ⟨marked, hm, h⟩ := bind_eq_ok h
  rw [assemble_component directory hf, hd, spell_append] at hm
  cases marked with
  | false =>
    cases h
    cases hl
  | true =>
    cases h
    obtain rfl := List.mem_singleton.1 hl
    refine ⟨fun n h => (List.mem_append.1 h).elim (hn n) fun h => List.mem_singleton.1 h ▸ hc, hm, hnode, ?_⟩
    rw [hfile]
    rfl

/-- **All nodes that the search finds are marked.** -/
theorem isMarked_of_scan (hs : s.Plain) {depth : Nat} {found : List Leaf}
    (h : scan s plan depth node = .ok found) (hnode : IsNodeText node) :
    ∀ l ∈ found, ∃ names file, IsMarked s plan l.nodePath names file := by
  induction depth generalizing node found with
  | zero =>
    cases h
    exact fun l hl => absurd hl List.not_mem_nil
  | succ depth ih =>
    intro l hl
    unfold scan at h
    dsimp only at h
    split at h
    · split at h
      · cases h
        cases hl
      · cases h
    next entries hlist =>
    obtain ⟨lists, hlists, h⟩ := bind_eq_ok h
    cases h
    obtain ⟨list, hlist', hl⟩ := List.mem_flatten.1 hl
    obtain ⟨⟨name, entry⟩, hentry, hlook⟩ := exists_of_mem_mapM hlists hlist'
    have hname := isProper_of_mem_list hs hlist hentry
    obtain ⟨hchild, hparts⟩ := hnode.child hname
    obtain ⟨inside, -, hlook⟩ := bind_eq_ok hlook
    cases inside with
    | false =>
      cases hlook
      cases hl
    | true =>
      obtain ⟨here, hhere, hlook⟩ := bind_eq_ok hlook
      obtain ⟨below, hbelow, hlook⟩ := bind_eq_ok hlook
      cases hlook
      rcases List.mem_append.1 hl with hl | hl
      · refine ⟨_, _, isMarked_of_leafIn hhere hl ?_ ?_ ?_ hchild.isProper (.inr ⟨hchild, rfl⟩)
          (if_neg hchild.ne_nil).symm⟩
        · rw [assemble_component _ hname.1, spell_spell _ (List.forall_mem_singleton.2 hname.1),
            hnode.spell, hparts, List.append_assoc]
        · decide
        · decide
      · exact ih hbelow (.inr hchild) l hl

theorem isMarked_of_discover (hs : s.Plain) (h : discover s plan = .ok leaves) :
    ∀ l ∈ leaves, ∃ names file, IsMarked s plan l.nodePath names file := by
  obtain ⟨root, hr, h⟩ := bind_eq_ok h
  obtain ⟨others, ho, h⟩ := bind_eq_ok h
  cases h
  intro l hl
  rcases List.mem_append.1 ((List.mergeSort_perm _ _).mem_iff.1 hl) with hl | hl
  · refine ⟨[], _, isMarked_of_leafIn hr hl rfl ?_ ?_ (fun n hn => absurd hn List.not_mem_nil)
      (.inl ⟨rfl, rfl⟩) (if_pos rfl).symm⟩
    · decide
    · decide
  · exact isMarked_of_scan hs ho (.inl rfl) l hl

/-! ## Artifacts of leaves -/

/-- An artifact is spelled in the directory of its node, or in the plan directory. -/
theorem exists_artifactPath (a : Plan.Artifact) (plan : String) {names : List String}
    (h : node = Plan.rootName ∨ IsInside node ∧ parts node = names) :
    ∃ above file, Plan.planPath plan node ++ a.suffix = spell plan (above ++ [file]) ∧ above <+: names ∧
      IsProper file ∧ '\x00' ∉ file.toList := by
  unfold Plan.planPath
  split
  · refine ⟨[], Plan.rootFile ++ a.suffix, ?_, List.nil_prefix, ?_⟩
    · rw [assemble_component plan (by decide)]
      exact spell_append plan [] _ _
    · cases a <;> decide
  · next hroot =>
    obtain ⟨hinside, rfl⟩ := h.resolve_left hroot
    have hfile : IsComponent Plan.nodeFile := by decide
    have hassemble : assemble [plan, node, Plan.nodeFile] = spell plan (parts node ++ [Plan.nodeFile]) := by
      refine Path.assemble_eq_spell (by simp) ?_ ?_ (by simp [parts_component hfile])
      · intro n hn
        exact (List.mem_append.1 hn).elim isComponent_of_mem_parts
          fun hn => List.mem_singleton.1 hn ▸ hfile
      · exact List.forall_mem_cons.2 ⟨hinside.not_isAbsolute,
          List.forall_mem_singleton.2 (not_isAbsolute_component hfile)⟩
    refine ⟨parts node, Plan.nodeFile ++ a.suffix, ?_, List.prefix_rfl, ?_⟩
    · rw [hassemble, spell_append]
    · cases a <;> decide

/-- **Discovered leaves ask outside an output directory** below which there is no file yet. -/
theorem asksOutside_of_discover {b : Site} (hs : s.Plain) (hd : discover s b.plan = .ok leaves)
    (he : ∀ rel content, rel ≠ [] → s.entry? (placeOf b.output ++ rel) ≠ some (.file content)) :
    ∀ l ∈ leaves, AsksOutside b l.nodePath := by
  intro l hl
  obtain ⟨names, file, hm⟩ := isMarked_of_discover hs hd l hl
  obtain ⟨hzero, content, hfile⟩ := exists_file_of_isFile hs hm.isFile
  obtain ⟨hplan, hnames⟩ := noZero_of_spell hzero
  obtain ⟨above, questions, hq, habove, hproper, hz⟩ :=
    exists_artifactPath .questions b.plan (hm.node.imp_left And.left)
  change Plan.questionsPath b.plan l.nodePath = _ at hq
  have hin : ∀ n ∈ above, n ∈ names ++ [file] := fun n hn => List.mem_append_left _ (habove.mem hn)
  rw [placeOf_spell b.plan hm.proper] at hfile
  constructor
  · rw [hq]
    refine noZero_spell hplan fun n hn => ?_
    exact (List.mem_append.1 hn).elim (fun hn => hnames n (hin n hn))
      fun hn => List.mem_singleton.1 hn ▸ hz
  · intro rel hrel heq
    have hplace : placeOf b.plan ++ above ++ [questions] = placeOf b.output ++ rel := by
      rw [← heq, hq, placeOf_spell, List.append_assoc]
      intro n hn
      exact (List.mem_append.1 hn).elim (fun hn => hm.proper n (hin n hn))
        fun hn => List.mem_singleton.1 hn ▸ hproper
    -- the output root is above the questions, so it is above the mark too
    obtain ⟨front, last, rfl⟩ := (List.eq_nil_or_concat' rel).resolve_left hrel
    rw [← List.append_assoc] at hplace
    have hfront := (List.append_inj' hplace rfl).1
    obtain ⟨more, rfl⟩ := habove
    refine he (front ++ more ++ [file]) content (by simp) ?_
    rw [← hfile]
    congr 1
    simp only [← List.append_assoc, hfront]

end Build

end SpecTree
