import SpecTree.Proofs.Plan.History

/-!
# A tree of one node

A root that is a leaf without asking is compiled in one move, and the compilation is done with the
notice of it.
-/

namespace SpecTree.Plan

open TreeState

variable {s : Store} {p : TreePolicy} {base : Place}

/-- The end of a node without a family is the end of a compilation. -/
theorem step_notice {t : TreeState} {node : List String} (hr : t.ready = [.notice node])
    (hf : t.families = []) : t.step p (.start 0) = { t with ready := [] } := by
  have hnotice : ({ t with ready := [] } : TreeState).notice node = { t with ready := [] } := by
    rw [notice]
    simp only [hf, List.find?_nil]
  rw [step, hr]
  exact hnotice

/-- The only task is a visit of a node that is admitted. -/
theorem step_visit_of_lt {t : TreeState} {v : Visit} (hr : t.ready = [.visit v]) (hex : t.exceeded = none)
    (hn : t.visited < p.maxNodes) :
    t.step p (.start 0) = { t with ready := [], visited := t.visited + 1 }.compile p v := by
  rw [step, hr]
  exact visit_of_lt (s := { t with ready := [] }) hex hn

/-- The first move visits the root. -/
theorem step_root {root : Spec.Document} (hn : 0 < p.maxNodes) (metrics : Metrics) :
    (initial s root metrics).step p (.start 0)
      = ({ (initial s root metrics) with ready := [], visited := 1 } : TreeState).compile p
        (rootVisit root) := step_visit_of_lt rfl rfl hn

/-- **A root that cannot be examined** is given up. -/
theorem run_of_examine_error {root : Spec.Document} {e : FileError}
    (he : examine p.node s p.directory (rootVisit root) = .error e) (hn : 0 < p.maxNodes)
    (metrics : Metrics) :
    ((initial s root metrics).run p [.start 0, .start 0]).isDone = true
      ∧ ((initial s root metrics).run p [.start 0, .start 0]).skipped = []
      ∧ ((initial s root metrics).run p [.start 0, .start 0]).results = [] := by
  let s₁ : TreeState := { (initial s root metrics) with ready := [], visited := 1 }
  have hcompile : s₁.compile p (rootVisit root) = s₁.abandon (rootVisit root) e := by
    unfold compile
    rw [show s₁.store = s from rfl, he]
  have hrun : (initial s root metrics).run p [.start 0, .start 0]
      = ((initial s root metrics).step p (.start 0)).step p (.start 0) := rfl
  rw [hrun, step_root hn, hcompile, step_notice rfl rfl]
  exact ⟨rfl, rfl, rfl⟩

/-- A node that has not been compiled is kept as a leaf if it is a plain one, and asked about otherwise. -/
theorem judge_of_notCompiled (k : NodePolicy) (v : Visit) (specHash contextHash : String) :
    judge k v ⟨.notCompiled, specHash, contextHash, none⟩
      = if v.isPlainLeaf k.smallSpec then .keepLeaf else .ask := by
  have hreuse : (if k.useCache then Difference.reusable? ⟨.notCompiled, specHash, contextHash, none⟩
      else none) = none := by
    cases k.useCache <;> rfl
  rw [judge, hreuse]

/-- **A node that is not there yet, and is a plain leaf,** is compiled at once. -/
theorem exists_compile_plain {t : TreeState} {shelf : Shelf} {names : List String} {v : Visit}
    (h : Shelved t.store p.directory base shelf) (hv : v.ancestry = rootName :: names)
    (hn : ∀ n ∈ names, IsNodeName n) (hup : HasParents shelf names) (hq : shelf names = none)
    (hfits : Fits p.directory names) (hleaf : v.isPlainLeaf p.node.smallSpec = true) :
    ∃ store lines d d' q,
      t.compile p v = ({ t with store, lines } : TreeState).record (Draft.result d' .plain)
      ∧ Shelved store p.directory base (shelf.replace names q)
      ∧ d.visit = v ∧ HasDigests p d.visit d.difference ∧ d'.visit = v
      ∧ Leaves d p.node.stamp .plain d'.errors q
      ∧ ((Artifact.context.path p.directory names).utf8ByteSize < Store.pathLimit →
        (Artifact.questions.path p.directory names).utf8ByteSize < Store.pathLimit → d'.errors = []) := by
  let d : Difference :=
    ⟨.notCompiled, p.node.digest v.spec, v.context.fingerprint p.node.digest, none⟩
  have hexamine : examine p.node t.store p.directory v = .ok (d, []) :=
    h.examine_of_none p.node hv hq hn hup hfits
  have hjudge : judge p.node v d = .keepLeaf := by
    rw [judge_of_notCompiled, if_pos hleaf]
  obtain ⟨store, hprepare, hstore⟩ := h.prepare hv hn hup hfits d
  obtain ⟨store', d', lines, q, hfinish, hd', hstore', hl, hquiet⟩ :=
    hstore.finish (d := { visit := v, difference := d }) hv (Shelf.replace_self ..) p.node.stamp .plain
  have hkeep := keepLeaf_of_finish (s := t.tell []) (v := v) hprepare hfinish
  have hcompile : t.compile p v = (t.tell []).keepLeaf p v d := by
    unfold compile
    rw [hexamine]
    dsimp only
    rw [hjudge]
  rw [Shelf.replace, Shelf.put_put] at hstore'
  exact ⟨store', _, { visit := v, difference := d }, d', q, hcompile.trans hkeep, hstore', rfl,
    ⟨rfl, rfl⟩, hd', hl, fun h1 h2 => hquiet h1 h2⟩

/-- **A root that is a plain leaf** is the only node of its tree. -/
theorem exists_run_plain (h : Shelved s p.directory base Shelf.empty) (hfits : Fits p.directory [])
    {root : Spec.Document} (hv : (rootVisit root).isPlainLeaf p.node.smallSpec = true)
    (hn : 0 < p.maxNodes) (metrics : Metrics) :
    ∃ d d' q, IsWhole ((initial s root metrics).run p [.start 0, .start 0])
      ∧ ((initial s root metrics).run p [.start 0, .start 0]).results = [Draft.result d' .plain]
      ∧ Shelved ((initial s root metrics).run p [.start 0, .start 0]).store p.directory base
        (Shelf.empty.put [] q)
      ∧ d.visit = rootVisit root ∧ HasDigests p d.visit d.difference ∧ d'.visit = rootVisit root
      ∧ Leaves d p.node.stamp .plain d'.errors q
      ∧ ((Artifact.context.path p.directory []).utf8ByteSize < Store.pathLimit →
        (Artifact.questions.path p.directory []).utf8ByteSize < Store.pathLimit → d'.errors = []) := by
  let s₁ : TreeState := { (initial s root metrics) with ready := [], visited := 1 }
  obtain ⟨store, lines, d, d', q, hcompile, hstore, hd, hdigests, hd', hl, hquiet⟩ :=
    exists_compile_plain (t := s₁) (v := rootVisit root) h rfl nofun (hasParents_nil _) rfl
      hfits hv
  have hr : (Draft.result d' .plain).ancestry = [rootName] := by
    show d'.visit.ancestry = _
    rw [hd']
    rfl
  -- The first move compiles the root; what is left is the notice of it, which no parent takes.
  have hfirst : (initial s root metrics).step p (.start 0)
      = ({ s₁ with store, lines } : TreeState).record (Draft.result d' .plain) :=
    (step_root hn metrics).trans hcompile
  rw [record, visitsBelow_of_isLeaf rfl, hr] at hfirst
  have hrun : (initial s root metrics).run p [.start 0, .start 0]
      = ((initial s root metrics).step p (.start 0)).step p (.start 0) := rfl
  rw [hrun, hfirst, step_notice rfl rfl]
  refine ⟨d, d', q, ⟨rfl, rfl, rfl⟩, rfl, ?_, hd, hdigests, hd', hl, hquiet⟩
  rwa [Shelf.replace, Shelf.wipe_nil] at hstore

/-! ## The least compilation -/

/-- A root without any text. -/
def emptyRoot : Spec.Document := ⟨[], .empty ""⟩

theorem isPlainLeaf_emptyRoot : (rootVisit emptyRoot).isPlainLeaf defaultThreshold = true := by
  have hspec : (rootVisit emptyRoot).spec = "" := by
    simp [rootVisit, emptyRoot, Visit.spec, Spec.Node.renderBody, Spec.Document.render,
      Spec.Statement.renderAll, Spec.Statement.renderEach, Spec.joinLines]
  have hsmall : isSmall defaultThreshold "" = true := by
    simp [isSmall, defaultThreshold]
  rw [Visit.isPlainLeaf, hspec, hsmall]
  rfl

/-- An empty root, compiled into the current directory. -/
def leastSession : Session where
  policy := { directory := ".", node := { digest := id, stamp := "" }, provider := "" }
  root := emptyRoot
  metrics := { run := "", phase := "" }
  moves := [.start 0, .start 0]

theorem vacant_empty : Vacant Store.empty "." := by
  refine ⟨by decide, [], Store.find_eq_ok.2 ⟨?_, rfl⟩, fun rel hr => ?_⟩
  · refine Store.locate_eq_ok.2 ⟨Store.noZero_iff.2 (by decide), by decide, ?_⟩
    rw [show Path.parts "." = [] by decide, Store.walk]
  · rw [List.nil_append, Store.entry?_of_ne_nil _ hr]
    rfl

/-- The least compilation goes through and writes all its files. -/
theorem leastSession_run :
    IsWhole (leastSession.run .empty)
      ∧ ∀ r ∈ (leastSession.run .empty).results, r.errors = [] := by
  obtain ⟨base, hs⟩ := vacant_empty.shelved
  obtain ⟨d, d', q, hwhole, hresults, -, -, -, -, -, hquiet⟩ := exists_run_plain
    (p := leastSession.policy) hs ⟨by decide, fun _ hn => absurd hn List.not_mem_nil⟩
    isPlainLeaf_emptyRoot (by decide) leastSession.metrics
  refine ⟨hwhole, fun r hr => ?_⟩
  have hr' : r ∈ [Draft.result d' .plain] := hresults ▸ hr
  rw [List.mem_singleton.1 hr']
  exact hquiet (by decide) (by decide)

/-! ## Directories with long paths -/

/-- The root directory, with a path of `n` steps up. -/
def rootBySteps (n : Nat) : String := Store.pathOf (List.replicate n "..")

theorem isComponent_of_mem_steps {n : Nat} {name : String} (h : name ∈ List.replicate n "..") :
    Path.IsComponent name := by
  rw [List.eq_of_mem_replicate h]
  exact ⟨by decide, by decide, by decide⟩

theorem walk_steps (s : Store) (path : String) (follow : Bool) (links n : Nat) :
    Store.walk s path follow links [] (List.replicate n "..") = .ok [] := by
  induction n with
  | zero => rw [List.replicate_zero, Store.walk]
  | succ n ih =>
    rw [List.replicate_succ, Store.walk, if_neg (by decide), if_pos rfl]
    exact ih

theorem size_rootBySteps (n : Nat) : (rootBySteps (n + 1)).utf8ByteSize = 3 * (n + 1) := by
  unfold rootBySteps
  induction n with
  | zero => decide
  | succ n ih =>
    rw [List.replicate_succ', Path.size_pathOf_concat (by simp), ih]
    show 3 * (n + 1) + 1 + 2 = 3 * (n + 1 + 1)
    omega

theorem size_artifact_rootBySteps (a : Artifact) (n : Nat) :
    (a.path (rootBySteps (n + 1)) []).utf8ByteSize
      = 3 * (n + 1) + 1 + (a.fileName []).utf8ByteSize := by
  rw [artifactPath_eq_spell _ _ fun _ h => absurd h List.not_mem_nil, rootBySteps,
    Path.spell_pathOf fun _ => isComponent_of_mem_steps, List.nil_append,
    Path.size_pathOf_concat (by simp), ← rootBySteps, size_rootBySteps]

theorem find_rootBySteps (s : Store) {n : Nat} (hn : 3 * (n + 1) < Store.pathLimit) :
    s.find true (rootBySteps (n + 1)) = .ok ([], .directory) := by
  have hparts : Path.parts (rootBySteps (n + 1)) = List.replicate (n + 1) ".." :=
    Path.parts_pathOf fun _ => isComponent_of_mem_steps
  have hzero : (rootBySteps (n + 1)).contains '\x00' = false :=
    Store.noZero_pathOf fun name hname => by
      rw [List.eq_of_mem_replicate hname]
      decide
  refine Store.find_eq_ok.2 ⟨Store.locate_eq_ok.2 ⟨hzero, ?_, ?_⟩, rfl⟩
  · rwa [size_rootBySteps]
  · rw [hparts, walk_steps]

/-- Such a directory is there, and has nothing in it at first. -/
theorem vacant_rootBySteps {n : Nat} (hn : 3 * (n + 1) < Store.pathLimit) :
    Vacant .empty (rootBySteps (n + 1)) := by
  have hempty : ∀ rel : Place, rel ≠ [] → Store.empty.entry? ([] ++ rel) = none := by
    intro rel hr
    rw [List.nil_append, Store.entry?_of_ne_nil _ hr]
    rfl
  have hanchored : Store.empty.Anchored (rootBySteps (n + 1)) [] :=
    ⟨_, find_rootBySteps _ hn, hempty, .refl _⟩
  have hmake : Store.empty.makeDirectories (rootBySteps (n + 1)) = (.empty, none) := by
    refine Store.makeDirectories_base hanchored ?_
    rw [rootBySteps, Path.parts_pathOf fun _ => isComponent_of_mem_steps, ← rootBySteps,
      size_rootBySteps]
    exact hn
  rw [Vacant, hmake]
  exact ⟨rfl, [], find_rootBySteps _ hn, hempty⟩

end SpecTree.Plan
