import Mathlib.Data.List.Nodup
import SpecTree.Build.Discovery
import SpecTree.Proofs.Plan.Upkeep

/-!
# Finding the leaves on a shelf

Where a plan directory holds a shelf, `discover` finds the nodes on the shelf that have a context, and
each of them once (`exists_discover`). The context must be short enough to be asked about.

1. `exists_leafIn` looks into one node's directory, `list_node` lists what is there.
2. `exists_scan` goes down, one name a step. The names of a node are fewer than the bytes of its
   record's path, so the depth suffices.
-/

namespace SpecTree.Build

open Plan SpecTree.Path Store

variable {s : Store} {plan : String} {base : Place} {shelf : Shelf} {names : List String} {q : Papers}

theorem exists_mapM {α β ε : Type} [Inhabited β] {f : α → Except ε β} {R : α → β → Prop}
    {l : List α} (h : ∀ x ∈ l, ∃ y, f x = .ok y ∧ R x y) :
    ∃ g : α → β, l.mapM f = .ok (l.map g) ∧ ∀ x ∈ l, R x (g x) := by
  have hex (x : α) : ∃ y, x ∈ l → f x = .ok y ∧ R x y := by
    by_cases hx : x ∈ l
    · obtain ⟨y, hy⟩ := h x hx
      exact ⟨y, fun _ => hy⟩
    · exact ⟨default, fun hx' => absurd hx' hx⟩
  choose g hg using hex
  refine ⟨g, ?_, fun x hx => (hg x hx).2⟩
  have hok (x : α) (hx : x ∈ l) := (hg x hx).1
  clear h hg
  induction l with
  | nil => rfl
  | cons x l ih =>
    rw [List.mapM_cons, hok x List.mem_cons_self,
      ih fun y hy => hok y (List.mem_cons_of_mem x hy)]
    rfl

/-! ## One node -/

/-- The leaf in a node's directory is there if the node has a context. -/
theorem exists_leafIn (h : Shelved s plan base shelf) (hq : shelf names = some q)
    (hs : (Artifact.context.path plan names).utf8ByteSize < pathLimit) {inside file : String}
    (hfile : Path.assemble [inside, file] = planPath plan (nodePath (rootName :: names)))
    (node : String) :
    ∃ found, leafIn s inside node file = .ok found
      ∧ found.map Leaf.nodePath = if q.context.isSome then [node] else [] := by
  have hfile' : s.isFile (Path.assemble [inside, file] ++ contextSuffix) = .ok q.context.isSome := by
    rw [hfile]
    refine (h.isFile hq (a := .context) hs).trans ?_
    rw [Papers.text?, Option.isSome_map]
  rw [leafIn]
  simp only [hfile', bind, Except.bind]
  cases q.context.isSome
  · exact ⟨[], rfl, rfl⟩
  · exact ⟨_, rfl, rfl⟩

/-- The text that stands for a node during the search; the root has none. -/
def nodeText (names : List String) : String :=
  if names = [] then "" else nodePath (rootName :: names)

/-- What is spelled below a node's directory. -/
theorem spell_nodeText (hn : ∀ n ∈ names, IsNodeName n) (more : List String) :
    spell (Path.assemble [plan, nodeText names]) more = spell plan (names ++ more) := by
  by_cases h0 : names = []
  · rw [nodeText, if_pos h0, spell_assemble_empty, h0, List.nil_append]
  · rw [nodeText, if_neg h0, Shelved.inside_eq_spell h0 hn,
      spell_spell plan fun n hm => isComponent_of_isNodeName (hn n hm)]

theorem spells_assemble_empty (h0 : plan.contains '\x00' = false)
    (hs : (spell plan []).utf8ByteSize < pathLimit) : Spells (Path.assemble [plan, ""]) plan [] where
  parts := by rw [parts_assemble_empty, List.append_nil]
  noZero := by
    rw [assemble_empty]
    split
    · exact noZero_iff.2 (by decide)
    · exact noZero_spell h0 (by simp)
  size := by
    rw [assemble_empty]
    split
    · decide
    · exact hs

/-- **The directory of a node is listed.** -/
theorem list_node (h : Shelved s plan base shelf) (hq : shelf names = some q) :
    s.list (Path.assemble [plan, nodeText names]) = .ok (s.childrenOf (base ++ names)) := by
  have hn := h.named hq
  have hsize := Shelved.size_spell_lt (h.fits hq) hn
  refine list_of_find ?_
  rcases List.eq_nil_or_concat' names with rfl | ⟨ns, n, rfl⟩
  · rw [nodeText, if_pos rfl, List.append_nil]
    exact h.anchored.find_base (spells_assemble_empty h.anchored.noZero hsize)
  · have h0 : ns ++ [n] ≠ [] := by simp
    rw [nodeText, if_neg h0, Shelved.inside_eq_spell h0 hn]
    have hp := spells_spell h.anchored.noZero (h.fileNames hq) hsize
    exact h.anchored.find hp (fun m hm => (h.fileNames hq m hm).plain)
      (fun pre hpre _ => h.leads hq pre (hpre.trans (List.prefix_append _ _)) ‹_›)
      (h.directories hq) (by simp) true

/-- What lies in a node's directory is a file or the directory of another node. -/
theorem entry_cases (h : Shelved s plan base shelf) {name : String} {e : Entry}
    (he : (name, e) ∈ s.childrenOf (base ++ names)) :
    (e = .directory ∧ ∃ p, shelf (names ++ [name]) = some p) ∨ ∃ content, e = .file content := by
  rw [mem_childrenOf names h.distinct, List.append_assoc] at he
  rcases h.only (by simp) he with ⟨p, hp⟩ | ⟨ns, p, a, hp, heq⟩
  · rw [h.directories hp] at he
    exact .inl ⟨(Option.some.inj he).symm, p, hp⟩
  · rw [heq, h.files a hp] at he
    obtain ⟨text, -, rfl⟩ := Option.map_eq_some_iff.1 he
    exact .inr ⟨_, rfl⟩

/-- A node whose name is in a directory is listed there. -/
theorem mem_childrenOf_of_shelf (h : Shelved s plan base shelf) {name : String}
    (hp : shelf (names ++ [name]) = some q) :
    (name, .directory) ∈ s.childrenOf (base ++ names) := by
  rw [mem_childrenOf names h.distinct, List.append_assoc, h.directories hp]

/-! ## The search -/

/-- What the search finds below a node: the paths of the nodes with a context, each once. -/
structure Finds (shelf : Shelf) (names : List String) (found : List Leaf) : Prop where
  nodup : (found.map Leaf.nodePath).Nodup
  mem : ∀ x, x ∈ found.map Leaf.nodePath ↔ ∃ n ns q, shelf (names ++ n :: ns) = some q
    ∧ q.context.isSome = true ∧ x = nodePath (rootName :: (names ++ n :: ns))

/-- What it finds in one entry of a node's directory. -/
structure FindsIn (shelf : Shelf) (names : List String) (name : String) (found : List Leaf) :
    Prop where
  nodup : (found.map Leaf.nodePath).Nodup
  mem : ∀ x, x ∈ found.map Leaf.nodePath ↔ ∃ ns q, shelf (names ++ name :: ns) = some q
    ∧ q.context.isSome = true ∧ x = nodePath (rootName :: (names ++ name :: ns))

theorem nodeText_child {n : String} (hn : ∀ m ∈ names ++ [n], IsNodeName m) :
    (if (nodeText names).isEmpty then n else nodeText names ++ "/" ++ n)
      = nodeText (names ++ [n]) := by
  have hne : names ++ [n] ≠ [] := by simp
  rw [nodeText, nodeText, if_neg hne, nodePath_of_ne_nil hne hn]
  by_cases h0 : names = []
  · rw [if_pos h0, h0]
    rfl
  · have hn' : ∀ m ∈ names, IsNodeName m := fun m hm => hn m (List.mem_append_left _ hm)
    have hjoin : String.intercalate "/" (names ++ [n]) = String.intercalate "/" names ++ "/" ++ n := by
      rw [← String.toList_inj, String.toList_append, String.toList_append, String.toList_intercalate,
        String.toList_intercalate, List.map_append]
      show ['/'].intercalate _ = ['/'].intercalate _ ++ ['/'] ++ _
      rw [← joinPieces_eq_intercalate, ← joinPieces_eq_intercalate,
        Text.joinPieces_append (mt List.map_eq_nil_iff.1 h0) (by simp)]
      simp [Text.joinPieces]
    rw [if_neg h0, nodePath_of_ne_nil h0 hn', isEmpty_intercalate h0 hn', hjoin]
    rfl

theorem nodePath_ne_of_ne {ns ms : List String} (hns : ∀ m ∈ ns, IsNodeName m)
    (hms : ∀ m ∈ ms, IsNodeName m) (h : ns ≠ ms) :
    nodePath (rootName :: ns) ≠ nodePath (rootName :: ms) :=
  fun he => h (nodePath_injective hns hms he)

/-- The search in the directory of a child. -/
theorem FindsIn.child (h : Shelved s plan base shelf) {name : String} {p : Papers}
    (hp : shelf (names ++ [name]) = some p) {here below : List Leaf}
    (hhere : here.map Leaf.nodePath
      = if p.context.isSome then [nodePath (rootName :: (names ++ [name]))] else [])
    (hbelow : Finds shelf (names ++ [name]) below) : FindsIn shelf names name (here ++ below) := by
  have hself : nodePath (rootName :: (names ++ [name])) ∉ below.map Leaf.nodePath := by
    intro hm
    obtain ⟨n, ns, q, hq, -, he⟩ := (hbelow.mem _).1 hm
    exact nodePath_ne_of_ne (h.named hp) (h.named hq) (by simp) he
  constructor
  · rw [List.map_append, hhere]
    split
    · exact List.nodup_cons.2 ⟨hself, hbelow.nodup⟩
    · exact hbelow.nodup
  · intro x
    rw [List.map_append, List.mem_append, hbelow.mem, hhere]
    constructor
    · rintro (hx | ⟨n, ns, q, hq, hc, rfl⟩)
      · split at hx
        · next hc =>
          rw [List.mem_singleton.1 hx]
          exact ⟨[], p, hp, hc, rfl⟩
        · cases hx
      · rw [List.append_assoc] at hq ⊢
        exact ⟨n :: ns, q, hq, hc, rfl⟩
    · rintro ⟨ns, q, hq, hc, rfl⟩
      cases ns with
      | nil =>
        obtain rfl := Option.some.inj (hp.symm.trans hq)
        exact .inl (by rw [if_pos hc]; exact List.mem_singleton_self _)
      | cons n ns =>
        refine .inr ⟨n, ns, q, ?_, hc, ?_⟩
        · rwa [List.append_assoc]
        · rw [List.append_assoc]
          rfl

/-- The entries of a directory together. -/
theorem Finds.flatMap (h : Shelved s plan base shelf) {g : String × Entry → List Leaf}
    (hg : ∀ x ∈ s.childrenOf (base ++ names), FindsIn shelf names x.1 (g x)) :
    Finds shelf names ((s.childrenOf (base ++ names)).flatMap g) := by
  constructor
  · rw [List.map_flatMap, List.nodup_flatMap]
    refine ⟨fun x hx => (hg x hx).nodup, ?_⟩
    have hnd := List.pairwise_map.1 (nodup_childrenOf names h.distinct)
    refine hnd.imp_of_mem fun {x y} hx hy hxy z hzx hzy => ?_
    obtain ⟨ns, q, hq, -, rfl⟩ := ((hg x hx).mem _).1 hzx
    obtain ⟨ms, q', hq', -, he⟩ := ((hg y hy).mem _).1 hzy
    exact nodePath_ne_of_ne (h.named hq) (h.named hq') (by simp [hxy]) he
  · intro x
    rw [List.map_flatMap, List.mem_flatMap]
    constructor
    · rintro ⟨e, he, hx⟩
      obtain ⟨ns, q, hq, hc, rfl⟩ := ((hg e he).mem _).1 hx
      exact ⟨e.1, ns, q, hq, hc, rfl⟩
    · rintro ⟨n, ns, q, hq, hc, rfl⟩
      have hpre : names ++ [n] <+: names ++ n :: ns := ⟨ns, by simp⟩
      obtain ⟨p, hp⟩ := h.prefix_mem hq hpre
      have he := mem_childrenOf_of_shelf h hp
      exact ⟨_, he, ((hg _ he).mem _).2 ⟨ns, q, hq, hc, rfl⟩⟩

/-- One entry of a directory is looked into. -/
theorem exists_findsIn (h : Shelved s plan base shelf)
    (hctx : ∀ ns p, shelf ns = some p → (Artifact.context.path plan ns).utf8ByteSize < pathLimit)
    {depth : Nat} {name : String} {e : Entry} (he : (name, e) ∈ s.childrenOf (base ++ names))
    (ih : ∀ p, shelf (names ++ [name]) = some p →
      ∃ found, scan s plan depth (nodeText (names ++ [name])) = .ok found
        ∧ Finds shelf (names ++ [name]) found) :
    ∃ found, (do
        let inside := Path.assemble [Path.assemble [plan, nodeText names], name]
        if ← leadsInside s inside e then
          let child := if (nodeText names).isEmpty then name else nodeText names ++ "/" ++ name
          return (← leafIn s inside child Plan.nodeFile) ++ (← scan s plan depth child)
        else return []) = Except.ok found
      ∧ FindsIn shelf names name found := by
  rcases entry_cases h he with ⟨rfl, p, hp⟩ | ⟨content, rfl⟩
  · have hn := h.named hp
    have hne : names ++ [name] ≠ [] := by simp
    have hc := isComponent_of_isNodeName (hn name (by simp))
    have hinside : Path.assemble [Path.assemble [plan, nodeText names], name]
        = spell plan (names ++ [name]) := by
      rw [assemble_component _ hc, spell_nodeText fun m hm => hn m (List.mem_append_left _ hm)]
    have hfile : Path.assemble [spell plan (names ++ [name]), nodeFile]
        = planPath plan (nodePath (rootName :: (names ++ [name]))) := by
      rw [assemble_component _ ⟨by decide, by decide, by decide⟩,
        spell_spell plan fun m hm => isComponent_of_isNodeName (hn m hm), planPath_eq_spell plan hn,
        Artifact.planFile, if_neg hne]
    obtain ⟨here, hl, hhere⟩ := exists_leafIn h hp (hctx _ _ hp) hfile (nodeText (names ++ [name]))
    obtain ⟨below, hs, hbelow⟩ := ih p hp
    rw [nodeText_child hn, hinside]
    refine ⟨here ++ below, ?_, .child h hp ?_ hbelow⟩
    · simp only [leadsInside, bind, Except.bind, if_true, hl, hs]
      rfl
    · rw [hhere, nodeText, if_neg hne]
  · refine ⟨[], rfl, List.nodup_nil, fun x => ⟨fun hx => absurd hx List.not_mem_nil, ?_⟩⟩
    rintro ⟨ns, q, hq, -⟩
    have hpre : names ++ [name] <+: names ++ name :: ns := ⟨ns, by simp⟩
    obtain ⟨p, hp⟩ := h.prefix_mem hq hpre
    rw [mem_childrenOf names h.distinct, List.append_assoc, h.directories hp] at he
    cases he

/-- **The search below a node** finds every node with a context. -/
theorem exists_scan (h : Shelved s plan base shelf)
    (hctx : ∀ ns p, shelf ns = some p → (Artifact.context.path plan ns).utf8ByteSize < pathLimit)
    {depth : Nat} (hq : shelf names = some q)
    (hd : ∀ ns p, shelf (names ++ ns) = some p → ns.length < depth) :
    ∃ found, scan s plan depth (nodeText names) = .ok found ∧ Finds shelf names found := by
  induction depth generalizing names q with
  | zero =>
    have := hd [] q (by rwa [List.append_nil])
    simp at this
  | succ depth ih =>
    have hchild (name : String) (p : Papers) (hp : shelf (names ++ [name]) = some p) :
        ∃ found, scan s plan depth (nodeText (names ++ [name])) = .ok found
          ∧ Finds shelf (names ++ [name]) found := by
      refine ih hp fun ns p' hp' => Nat.lt_of_succ_lt_succ (hd (name :: ns) p' ?_)
      rwa [List.append_assoc] at hp'
    obtain ⟨g, hg, hfinds⟩ := exists_mapM (R := fun x found => FindsIn shelf names x.1 found)
      fun (x : String × Entry) (hx : x ∈ s.childrenOf (base ++ names)) =>
        exists_findsIn h hctx hx (hchild x.1)
    refine ⟨_, ?_, Finds.flatMap h hfinds⟩
    rw [scan]
    simp only [list_node h hq, List.flatMap_def]
    exact congrArg (fun x => (x : Except FileError (List (List Leaf))).map List.flatten) hg

/-- **Discovery finds the nodes with a context**, each once. -/
theorem exists_discover (h : Shelved s plan base shelf) (hq : shelf [] = some q)
    (hctx : ∀ ns p, shelf ns = some p → (Artifact.context.path plan ns).utf8ByteSize < pathLimit) :
    ∃ leaves, discover s plan = .ok leaves ∧ (leaves.map Leaf.nodePath).Nodup ∧
      ∀ x, x ∈ leaves.map Leaf.nodePath ↔ ∃ ns p, shelf ns = some p ∧ p.context.isSome = true
        ∧ x = nodePath (rootName :: ns) := by
  have hdepth (ns : List String) (p : Papers) (hp : shelf ([] ++ ns) = some p) :
      ns.length < pathLimit := by
    refine Nat.lt_of_le_of_lt (length_le_size_spell plan fun n hn => ?_)
      (Shelved.size_spell_lt (h.fits hp) (h.named hp))
    exact isComponent_of_isNodeName (h.named hp n hn)
  obtain ⟨root, hr, hroot⟩ := exists_leafIn h hq (hctx [] q hq)
    (rfl : Path.assemble [plan, rootFile] = planPath plan (nodePath (rootName :: []))) rootName
  obtain ⟨others, ho, hothers⟩ := exists_scan h hctx hq hdepth
  have hperm := (List.mergeSort_perm (root ++ others) precedes).map Leaf.nodePath
  have hnew : rootName ∉ others.map Leaf.nodePath := by
    intro hm
    obtain ⟨n, ns, p, hp, -, he⟩ := (hothers.mem _).1 hm
    exact nodePath_ne_of_ne (h.named hq) (h.named hp) (by simp) he
  refine ⟨(root ++ others).mergeSort precedes, ?_, ?_, fun x => ?_⟩
  · rw [discover, hr, show scan s plan pathLimit "" = .ok others from ho]
    rfl
  · rw [hperm.nodup_iff, List.map_append, hroot]
    split
    · exact List.nodup_cons.2 ⟨hnew, hothers.nodup⟩
    · exact hothers.nodup
  · rw [hperm.mem_iff, List.map_append, List.mem_append, hothers.mem, hroot]
    constructor
    · rintro (hx | ⟨n, ns, p, hp, hc, rfl⟩)
      · split at hx
        · next hc =>
          rw [List.mem_singleton.1 hx]
          exact ⟨[], q, hq, hc, rfl⟩
        · cases hx
      · exact ⟨n :: ns, p, hp, hc, rfl⟩
    · rintro ⟨ns, p, hp, hc, rfl⟩
      cases ns with
      | nil =>
        obtain rfl := Option.some.inj (hq.symm.trans hp)
        exact .inl (by rw [if_pos hc]; exact List.mem_singleton_self _)
      | cons n ns => exact .inr ⟨n, ns, p, hp, hc, rfl⟩

end SpecTree.Build
