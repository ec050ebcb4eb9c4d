import SpecTree.Proofs.Plan.Examination

/-!
# What compiling a node does to a shelf

Each step of compiling a node, on a store that holds a shelf:

1. `Shelved.prepare`: preparing removes the node and all below it, and leaves its spec alone.
2. `Shelved.finish_eq`: finishing adds the artifacts that the outcome calls for (`Draft.papers`). Only
   those with longer names than the record may fail to be written; that changes nothing and is told
   (`Draft.complaints`).
-/

namespace SpecTree.Plan

open SpecTree.Path Store

variable {s t : Store} {directory : String} {base : Place} {shelf : Shelf} {names : List String}
  {q : Papers}

namespace Shelved

/-! ## Preparing -/

theorem wipe_of_none (h : Shelved s directory base shelf) (hq : shelf names = none) :
    shelf.wipe names = shelf := by
  funext ns
  by_cases hp : names <+: ns
  · rw [shelf.wipe_of_prefix hp]
    cases hs : shelf ns with
    | none => rfl
    | some r =>
      obtain ⟨p, hp'⟩ := h.prefix_mem hs hp
      rw [hq] at hp'
      cases hp'
  · exact shelf.wipe_of_not_prefix hp

/-- The path of a node's own directory. -/
theorem inside_eq_spell (h0 : names ≠ []) (hn : ∀ n ∈ names, IsNodeName n) :
    Path.assemble [directory, nodePath (rootName :: names)] = spell directory names := by
  have hc : ∀ n ∈ names, IsComponent n := fun n hm => isComponent_of_isNodeName (hn n hm)
  rw [nodePath_of_ne_nil h0 hn]
  refine assemble_eq_spell h0 hc (List.forall_mem_singleton.2 (not_isAbsolute_intercalate h0 hc)) ?_
  rw [List.flatMap_singleton, parts_intercalate hc]

theorem size_spell_lt (hfits : Fits directory names) (hn : ∀ n ∈ names, IsNodeName n) :
    (spell directory names).utf8ByteSize < pathLimit := by
  have := hfits.size
  rw [artifactPath_eq_spell .record directory hn] at this
  exact Nat.lt_of_le_of_lt (size_spell_le directory names _) this

/-- **A node below the root is removed** with all below it, if it is there. -/
theorem invalidate_node (h : Shelved s directory base shelf) (hn : ∀ n ∈ names, IsNodeName n)
    (hup : HasParents shelf names) (h0 : names ≠ []) (hfits : Fits directory names) :
    ∃ t, invalidate s directory (nodePath (rootName :: names)) = (t, none)
      ∧ Shelved t directory base (shelf.wipe names) := by
  have hroot : nodePath (rootName :: names) ≠ rootName := by
    rw [nodePath_of_ne_nil h0 hn]
    exact intercalate_ne_rootName h0 hn
  obtain ⟨ns, n, rfl⟩ := (List.eq_nil_or_concat' names).resolve_left h0
  obtain ⟨r, hr⟩ := hup ns n rfl
  have hfile : ∀ m ∈ ns ++ [n], IsFileName m :=
    fun m hm => isFileName_of_isNodeName (hn m hm) (hfits.names m hm)
  have hsp := spells_spell h.anchored.noZero hfile (size_spell_lt hfits hn)
  have hplain : ∀ m ∈ ns ++ [n], IsPlainName m := fun m hm => (hfile m hm).plain
  rw [invalidate, if_neg hroot, inside_eq_spell h0 hn]
  cases hq : shelf (ns ++ [n]) with
  | none =>
    have hask := h.anchored.ask_of_none hsp hplain (h.leads hr) (h.free hn h0 hq)
    refine ⟨s, ?_, by rwa [h.wipe_of_none hq]⟩
    simp only [isDirectory, hask]
  | some q =>
    have hf := h.anchored.find hsp hplain (h.leads hr) (h.directories hq) (by simp)
    refine ⟨s.prune (base ++ (ns ++ [n])), ?_, ?_⟩
    · simp only [isDirectory, ask_of_find (hf true), removeTree_of_find (hf false), if_neg hroot]
    · exact h.wipe hn h0 (h.anchored.prune h0) (distinctBelow_prune h.distinct _)
        (entry?_prune s (by simp))

end Shelved

/-- Entries of a directory go away one after another, each with all below it. -/
theorem removeEntries_names {ns : List String} (h : s.Anchored directory base)
    (hd : s.DistinctBelow base) (hnd : ns.Nodup)
    (hn : ∀ n ∈ ns, IsFileName n ∧ (spell directory [n]).utf8ByteSize < pathLimit)
    (he : ∀ n ∈ ns, ∃ e, s.entry? (base ++ [n]) = some e ∧ ∀ target, e ≠ .link target) :
    ∃ t, removeEntries s (ns.map fun n => Path.assemble [directory, n]) = (t, none)
      ∧ t.Anchored directory base ∧ t.DistinctBelow base
      ∧ (∀ n ∈ ns, ∀ p, base ++ [n] <+: p → t.entry? p = none)
      ∧ ∀ p, (∀ n ∈ ns, ¬ base ++ [n] <+: p) → t.entry? p = s.entry? p := by
  induction ns generalizing s with
  | nil => exact ⟨s, rfl, h, hd, nofun, fun _ _ => rfl⟩
  | cons n ns ih =>
    obtain ⟨hname, hsize⟩ := hn n List.mem_cons_self
    obtain ⟨e, hent, hlink⟩ := he n List.mem_cons_self
    obtain ⟨hnot, hnd⟩ := List.nodup_cons.1 hnd
    have hsp : Spells (spell directory [n]) directory ([] ++ [n]) :=
      spells_spell h.noZero (List.forall_mem_singleton.2 hname) hsize
    have hfind := h.find hsp (List.forall_mem_singleton.2 hname.plain)
      (fun pre hp h0 => absurd (List.prefix_nil.1 hp) h0) hent hlink
    have hremove : removeEntry s (spell directory [n]) = .ok (s.prune (base ++ [n])) := by
      simp only [removeEntry, isDirectory, ask_of_find (hfind true), bind, Except.bind]
      cases e with
      | file content => exact removeFile_of_find (hfind false)
      | directory => exact removeTree_of_find (hfind false)
      | link target => exact absurd rfl (hlink target)
    have hprune := entry?_prune s (p := base ++ [n]) (by simp)
    have hother {m : String} (hm : m ∈ ns) : ¬ base ++ [n] <+: base ++ [m] := by
      rw [List.prefix_append_right_inj]
      intro hp
      obtain rfl : n = m := by simpa using hp
      exact hnot hm
    obtain ⟨t, ht, hta, htd, hgone, hkept⟩ := ih (h.prune (List.cons_ne_nil n []))
      (distinctBelow_prune hd _) hnd (fun m hm => hn m (List.mem_cons_of_mem _ hm)) fun m hm => by
        rw [hprune, if_neg (hother hm)]
        exact he m (List.mem_cons_of_mem _ hm)
    refine ⟨t, ?_, hta, htd, fun m hm p hp => ?_, fun p hp => ?_⟩
    · rw [List.map_cons, assemble_component directory hname.toIsComponent, removeEntries, hremove]
      exact ht
    · by_cases hmn : m ∈ ns
      · exact hgone m hmn p hp
      · obtain rfl : m = n := (List.mem_cons.1 hm).resolve_right hmn
        by_cases hq : ∃ k ∈ ns, base ++ [k] <+: p
        · obtain ⟨k, hk, hkp⟩ := hq
          exact hgone k hk p hkp
        · rw [hkept p fun k hk hkp => hq ⟨k, hk, hkp⟩, hprune, if_pos hp]
    · rw [hkept p fun k hk => hp k (List.mem_cons_of_mem _ hk), hprune,
        if_neg (hp n List.mem_cons_self)]

namespace Shelved

/-- What lies directly in the plan directory can be removed there. -/
theorem entry_base (h : Shelved s directory base shelf) {n : String} {e : Entry}
    (he : s.entry? (base ++ [n]) = some e) :
    (IsFileName n ∧ (spell directory [n]).utf8ByteSize < pathLimit) ∧ ∀ target, e ≠ .link target := by
  rcases h.only (by simp) he with ⟨q, hq⟩ | ⟨ns, q, a, hq, heq⟩
  · refine ⟨⟨h.fileNames hq n (by simp), size_spell_lt (h.fits hq) (h.named hq)⟩, fun target ht => ?_⟩
    rw [h.directories hq, ht] at he
    cases he
  · obtain ⟨rfl, hn⟩ : ns = [] ∧ n = a.fileName ns := by
      cases ns with
      | nil => exact ⟨rfl, by simpa using heq⟩
      | cons m ms => simp at heq
    have hf := h.files a hq
    rw [List.nil_append, ← hn, he] at hf
    obtain ⟨text, ht, rfl⟩ := Option.map_eq_some_iff.1 hf.symm
    have hs := h.short hq ht
    rw [artifactPath_eq_spell a directory (h.named hq), List.nil_append, ← hn] at hs
    exact ⟨⟨hn ▸ a.isFileName [], hs⟩, fun target => by simp [fileOf]⟩

/-- What lies deeper lies in something. -/
theorem entry_head (h : Shelved s directory base shelf) {m : String} {more : List String} {e : Entry}
    (he : s.entry? (base ++ m :: more) = some e) : ∃ e', s.entry? (base ++ [m]) = some e' := by
  have hup {ns : List String} {q : Papers} (hq : shelf (m :: ns) = some q) :
      ∃ e', s.entry? (base ++ [m]) = some e' := by
    obtain ⟨p, hp⟩ := h.prefix_mem hq (List.cons_prefix_cons.2 ⟨rfl, List.nil_prefix⟩)
    exact ⟨_, h.directories hp⟩
  rcases h.only (List.cons_ne_nil m more) he with ⟨q, hq⟩ | ⟨ns, q, a, hq, heq⟩
  · exact hup hq
  · cases ns with
    | nil =>
      obtain ⟨rfl, rfl⟩ : m = a.fileName [] ∧ more = [] := by simpa using heq
      exact ⟨e, he⟩
    | cons k ks =>
      obtain ⟨rfl, -⟩ := List.cons.inj heq
      exact hup hq

/-- **Removing the root empties the plan directory.** -/
theorem invalidate_root (h : Shelved s directory base shelf) :
    ∃ t, invalidate s directory rootName = (t, none) ∧ Shelved t directory base Shelf.empty := by
  have hchild (n : String) :
      n ∈ (s.childrenOf base).map Prod.fst ↔ ∃ e, s.entry? (base ++ [n]) = some e := by
    have hc (e : Entry) : (n, e) ∈ s.childrenOf base ↔ s.entry? (base ++ [n]) = some e := by
      rw [← List.append_nil base, mem_childrenOf [] h.distinct]
    constructor
    · intro hn
      obtain ⟨⟨m, e⟩, hm, rfl⟩ := List.mem_map.1 hn
      exact ⟨e, (hc e).1 hm⟩
    · rintro ⟨e, he⟩
      exact List.mem_map_of_mem ((hc e).2 he)
  have hnd := nodup_childrenOf [] h.distinct
  rw [List.append_nil] at hnd
  obtain ⟨t, ht, hta, htd, hgone, hkept⟩ := removeEntries_names h.anchored h.distinct hnd
    (fun n hn => (h.entry_base ((hchild n).1 hn).choose_spec).1) fun n hn =>
      have ⟨e, he⟩ := (hchild n).1 hn
      ⟨e, he, (h.entry_base he).2⟩
  refine ⟨t, ?_, Shelved.empty hta fun rel hr => ?_⟩
  · have hdir := h.anchored.find_directory
    rw [List.map_map] at ht
    simp only [invalidate, if_true, isDirectory, ask_of_find hdir, list_of_find hdir]
    exact ht
  · obtain ⟨m, more, rfl⟩ := List.exists_cons_of_ne_nil hr
    by_cases hm : m ∈ (s.childrenOf base).map Prod.fst
    · exact hgone m hm _ (by simp)
    · rw [hkept]
      · exact Option.eq_none_iff_forall_ne_some.2 fun e he => hm ((hchild m).2 (h.entry_head he))
      · rintro n hn hp
        rw [List.prefix_append_right_inj, List.cons_prefix_cons] at hp
        exact hm (hp.1 ▸ hn)

/-- **The spec of a node that is not there** makes it the only artifact of one. -/
theorem writeSpec (h : Shelved s directory base shelf) (hq : shelf names = none)
    (hn : ∀ n ∈ names, IsNodeName n) (hup : HasParents shelf names) (hfits : Fits directory names)
    (spec : String) :
    ∃ t, Plan.writeSpec s directory (nodePath (rootName :: names)) spec = (t, none)
      ∧ Shelved t directory base (shelf.put names { spec }) := by
  have hs := Nat.lt_of_le_of_lt (Artifact.size_spec_le directory names) hfits.size
  have hpath : planPath directory (nodePath (rootName :: names))
      = spell directory (names ++ [Artifact.spec.fileName names]) := by
    rw [← artifactPath_eq_spell .spec directory hn, Artifact.path, Artifact.suffix,
      String.append_empty]
  have hfiles : ∀ n ∈ names ++ [Artifact.spec.fileName names], IsFileName n :=
    List.forall_mem_append.2 ⟨fun n hm => isFileName_of_isNodeName (hn n hm) (hfits.names n hm),
      List.forall_mem_singleton.2 (Artifact.isFileName .spec names)⟩
  have hfree := h.free_file hq .spec
  have hs' := hs
  rw [artifactPath_eq_spell .spec directory hn] at hs'
  rcases List.eq_nil_or_concat' names with rfl | ⟨ns, n, rfl⟩
  · refine ⟨_, by
      rw [Plan.writeSpec, hpath]
      exact writeDeep_old h.anchored hfiles hs' (fun pre hp h0 => absurd (List.prefix_nil.1 hp) h0)
        (by rw [hfree]; simp) (by rw [hfree]; simp) _, ?_⟩
    refine h.add hq hn hfits hup (h.anchored.set (by simp) _) (distinctBelow_set h.distinct _ _)
      (fun pl => ?_) hs
    rw [entry?_set s (by simp)]
    by_cases hp : pl = base
    · rw [hp, h.anchored.entry?_base]
      simp
    · simp [hp, fileOf]
  · obtain ⟨r, hr⟩ := hup ns n rfl
    have hnew := h.free hn (by simp) hq
    refine ⟨_, by
      rw [Plan.writeSpec, hpath]
      exact writeDeep_new h.anchored hfiles hs' (h.leads hr) hnew hfree _, ?_⟩
    refine h.add hq hn hfits hup ((h.anchored.set (by simp) _).set (by simp) _)
      (distinctBelow_set (distinctBelow_set h.distinct _ _) _ _) (fun pl => ?_) hs
    rw [entry?_set _ (by simp), entry?_set s (by simp)]
    rfl

theorem hasParents_wipe (h : HasParents shelf names) : HasParents (shelf.wipe names) names := by
  intro ns n he
  obtain ⟨r, hr⟩ := h ns n he
  refine ⟨r, ?_⟩
  rw [shelf.wipe_of_not_prefix, hr]
  intro hp
  have := hp.length_le
  rw [he, List.length_append, List.length_singleton] at this
  omega

/-- **Preparing a node** leaves its spec and nothing else of it, nor of the nodes below it. -/
theorem prepare (h : Shelved s directory base shelf) {v : Visit}
    (hv : v.ancestry = rootName :: names) (hn : ∀ n ∈ names, IsNodeName n)
    (hup : HasParents shelf names) (hfits : Fits directory names) (d : Difference) :
    ∃ t, Plan.prepare s directory v d = .ok (t, { visit := v, difference := d })
      ∧ Shelved t directory base (shelf.replace names { spec := v.spec }) := by
  have hpath : v.path = nodePath (rootName :: names) := by rw [Visit.path, hv]
  obtain ⟨t, ht, hts⟩ : ∃ t, invalidate s directory v.path = (t, none)
      ∧ Shelved t directory base (shelf.wipe names) := by
    rw [hpath]
    by_cases h0 : names = []
    · subst h0
      rw [Shelf.wipe_nil, nodePath_root]
      exact h.invalidate_root
    · exact h.invalidate_node hn hup h0 hfits
  obtain ⟨u, hu, hus⟩ := hts.writeSpec (shelf.wipe_of_prefix (List.prefix_refl _)) hn
    (hasParents_wipe hup) hfits v.spec
  refine ⟨u, ?_, hus⟩
  rw [← hpath] at hu
  simp only [Plan.prepare, ht, hu, Draft.note]
  rfl

/-! ## Finishing -/

/-- **Another artifact is written**, unless its path is too long. -/
theorem writeArtifact (h : Shelved s directory base shelf) (hq : shelf names = some q) {a : Artifact}
    {p : Papers} {text : String} (ha : p.text? a = some text)
    (hne : ∀ b, b ≠ a → p.text? b = q.text? b) :
    ((a.path directory names).utf8ByteSize < pathLimit
        ∧ ∃ t, s.writeDeep (a.path directory names) (.text text) = (t, none)
          ∧ Shelved t directory base (shelf.put names p))
      ∨ pathLimit ≤ (a.path directory names).utf8ByteSize
        ∧ s.writeDeep (a.path directory names) (.text text)
          = (s, some (.nameTooLong (a.path directory names))) := by
  have hpath := artifactPath_eq_spell a directory (h.named hq)
  have hfiles : ∀ n ∈ names ++ [a.fileName names], IsFileName n :=
    List.forall_mem_append.2 ⟨h.fileNames hq, List.forall_mem_singleton.2 (a.isFileName names)⟩
  by_cases hs : (a.path directory names).utf8ByteSize < pathLimit
  · refine .inl ⟨hs, _, ?_, h.put hq ha hne hs⟩
    rw [hpath] at hs ⊢
    refine writeDeep_old h.anchored hfiles hs (h.leads hq) ?_ ?_ _
    · rw [h.files a hq]
      cases q.text? a <;> simp [fileOf]
    · intro target
      rw [h.files a hq]
      cases q.text? a <;> simp [fileOf]
  · refine .inr ⟨Nat.le_of_not_lt hs, ?_⟩
    have hd := (h.fits hq).size
    rw [artifactPath_eq_spell .record directory (h.named hq)] at hd
    rw [hpath] at hs ⊢
    exact writeDeep_too_long h.anchored hfiles
      (size_pathOf_lt (Artifact.isFileName .record names).toIsComponent hd) (Nat.le_of_not_lt hs)
      (h.leads hq) _

end Shelved

/-- What is told of an artifact that has to be written. -/
def Artifact.complaints (a : Artifact) (what directory : String) (names : List String) : List String :=
  if (a.path directory names).utf8ByteSize < pathLimit then []
  else
    ["Failed to write " ++ what ++ " for " ++ nodePath (rootName :: names) ++ ": "
      ++ (FileError.nameTooLong (a.path directory names)).message]

/-- There is something to ask or to consider. -/
def Outcome.hasQuestions (o : Outcome) : Bool :=
  !(o.expansion.questions.isEmpty && o.expansion.considerations.isEmpty)

namespace Draft

/-- The artifacts that an outcome leaves of a node, as far as their paths are not too long. -/
def papers (d : Draft) (directory : String) (names : List String) (stamp : String) (o : Outcome) :
    Papers where
  spec := d.visit.spec
  context :=
    if o.isLeaf = true ∧ (Artifact.context.path directory names).utf8ByteSize < pathLimit then
      some d.visit.context
    else none
  questions :=
    if o.hasQuestions = true ∧ (Artifact.questions.path directory names).utf8ByteSize < pathLimit then
      some (d.questionnaire o)
    else none
  record := if o.failure.isSome then none else some (d.record stamp o)

/-- What is told of the artifacts that an outcome calls for. -/
def complaints (directory : String) (names : List String) (o : Outcome) : List String :=
  (if o.isLeaf then Artifact.context.complaints "context artifact" directory names else [])
    ++ if o.hasQuestions then Artifact.questions.complaints "questions artifact" directory names else []

/-- The same draft with more to tell. -/
structure Tells (d d' : Draft) (errors : List String) : Prop where
  visit : d'.visit = d.visit
  difference : d'.difference = d.difference
  errors : d'.errors = d.errors ++ errors

theorem Tells.refl (d : Draft) : d.Tells d [] := ⟨rfl, rfl, (List.append_nil _).symm⟩

theorem Tells.trans {d d' d'' : Draft} {errors more : List String} (h : d.Tells d' errors)
    (k : d'.Tells d'' more) : d.Tells d'' (errors ++ more) :=
  ⟨k.visit.trans h.visit, k.difference.trans h.difference, by
    rw [k.errors, h.errors, List.append_assoc]⟩

end Draft

namespace Shelved

/-- An artifact is written, or it is told that it could not be. -/
theorem keep (h : Shelved s directory base shelf) (hq : shelf names = some q) {a : Artifact}
    {p : Papers} {text : String} (ha : p.text? a = some text)
    (hne : ∀ b, b ≠ a → p.text? b = q.text? b) {d : Draft}
    (hd : d.visit.path = nodePath (rootName :: names)) (what : String) :
    ∃ t d', d.keep what (s.writeDeep (a.path directory names) (.text text)) = .ok (t, d')
      ∧ Shelved t directory base (shelf.put names
        (if (a.path directory names).utf8ByteSize < pathLimit then p else q))
      ∧ d.Tells d' (a.complaints what directory names) := by
  unfold Artifact.complaints
  rcases h.writeArtifact hq ha hne with ⟨hs, t, ht, hts⟩ | ⟨hs, ht⟩
  · rw [ht, if_pos hs, if_pos hs]
    exact ⟨t, d, rfl, hts, .refl d⟩
  · rw [ht, if_neg (Nat.not_lt.2 hs), if_neg (Nat.not_lt.2 hs), Shelf.put_eq_self hq, ← hd]
    exact ⟨s, _, rfl, h, rfl, rfl, rfl⟩

theorem keepContext (h : Shelved s directory base shelf) {d : Draft}
    (hv : d.visit.ancestry = rootName :: names) {spec : String} (hq : shelf names = some { spec })
    (o : Outcome) :
    ∃ t d', d.keepContext s directory o = .ok (t, d')
      ∧ Shelved t directory base (shelf.put names
        { spec
          context :=
            if o.isLeaf = true ∧ (Artifact.context.path directory names).utf8ByteSize < pathLimit then
              some d.visit.context
            else none })
      ∧ d.Tells d'
        (if o.isLeaf then Artifact.context.complaints "context artifact" directory names else []) := by
  have hpath : d.visit.path = nodePath (rootName :: names) := by rw [Visit.path, hv]
  unfold Draft.keepContext
  by_cases hl : o.isLeaf = true
  · obtain ⟨t, d', ht, hts, hd⟩ := h.keep hq (a := .context)
      (p := { spec, context := some d.visit.context }) rfl
      (fun b hb => by cases b <;> first | rfl | exact absurd rfl hb) hpath "context artifact"
    rw [if_pos hl, if_pos hl, hpath]
    refine ⟨t, d', ht, ?_, hd⟩
    split at hts
    · next hs => rwa [if_pos ⟨hl, hs⟩]
    · next hs => rwa [if_neg fun hc => hs hc.2]
  · rw [if_neg hl, if_neg hl, if_neg fun hc => hl hc.1, Shelf.put_eq_self hq]
    exact ⟨s, d, rfl, h, .refl d⟩

theorem keepQuestions (h : Shelved s directory base shelf) {d : Draft}
    (hv : d.visit.ancestry = rootName :: names) {spec : String} {c : Option Context}
    (hq : shelf names = some { spec, context := c }) (o : Outcome) :
    ∃ t d', d.keepQuestions s directory o = .ok (t, d')
      ∧ Shelved t directory base (shelf.put names
        { spec
          context := c
          questions :=
            if o.hasQuestions = true
              ∧ (Artifact.questions.path directory names).utf8ByteSize < pathLimit then
              some (d.questionnaire o)
            else none })
      ∧ d.Tells d' (if o.hasQuestions then
        Artifact.questions.complaints "questions artifact" directory names else []) := by
  have hpath : d.visit.path = nodePath (rootName :: names) := by rw [Visit.path, hv]
  have hnone : ((d.questionnaire o).questions.isEmpty && (d.questionnaire o).considerations.isEmpty)
      = true ↔ ¬ o.hasQuestions = true := by
    rw [Outcome.hasQuestions, Bool.not_eq_true', Bool.not_eq_false]
    rfl
  unfold Draft.keepQuestions
  dsimp only
  by_cases hl : o.hasQuestions = true
  · obtain ⟨t, d', ht, hts, hd⟩ := h.keep hq (a := .questions)
      (p := { spec, context := c, questions := some (d.questionnaire o) }) rfl
      (fun b hb => by cases b <;> first | rfl | exact absurd rfl hb) hpath "questions artifact"
    rw [if_neg fun he => hnone.1 he hl, if_pos hl, hpath]
    refine ⟨t, d', ht, ?_, hd⟩
    split at hts
    · next hs => rwa [if_pos ⟨hl, hs⟩]
    · next hs => rwa [if_neg fun hc => hs hc.2]
  · rw [if_pos (hnone.2 hl), if_neg hl, if_neg fun hc => hl hc.1, Shelf.put_eq_self hq]
    exact ⟨s, d, rfl, h, .refl d⟩

/-- A record can always be written: that is what examining has shown. -/
theorem keepRecord (h : Shelved s directory base shelf) {d : Draft}
    (hv : d.visit.ancestry = rootName :: names) {spec : String} {c : Option Context}
    {qs : Option Questionnaire} (hq : shelf names = some { spec, context := c, questions := qs })
    (stamp : String) (o : Outcome) :
    ∃ t, d.keepRecord stamp s directory o = .ok (t, d)
      ∧ Shelved t directory base (shelf.put names
        ⟨spec, c, qs, if o.failure.isSome then none else some (d.record stamp o)⟩) := by
  have hpath : d.visit.path = nodePath (rootName :: names) := by rw [Visit.path, hv]
  unfold Draft.keepRecord
  split
  · exact ⟨s, rfl, by rwa [Shelf.put_eq_self hq]⟩
  · rw [hpath]
    rcases h.writeArtifact hq (a := .record)
      (p := { spec, context := c, questions := qs, record := some (d.record stamp o) }) rfl
      (fun b hb => by cases b <;> first | rfl | exact absurd rfl hb) with ⟨-, t, ht, hts⟩ | ⟨hs, -⟩
    · refine ⟨t, ?_, hts⟩
      have hw : writeRecord s directory (nodePath (rootName :: names)) (d.record stamp o) = (t, none) :=
        ht
      rw [Draft.keep, hw]
      rfl
    · exact absurd (h.fits hq).size (Nat.not_lt.2 hs)

/-- **Finishing a node** adds what its outcome calls for, and tells what could not be written. -/
theorem finish_eq (h : Shelved s directory base shelf) {d : Draft}
    (hv : d.visit.ancestry = rootName :: names) (hq : shelf names = some { spec := d.visit.spec })
    (stamp : String) (o : Outcome) :
    ∃ t d' lines, d.finish stamp s directory o = .ok (t, Draft.result d' o, lines)
      ∧ Shelved t directory base (shelf.put names (d.papers directory names stamp o))
      ∧ d.Tells d' (o.errors d.visit.path ++ Draft.complaints directory names o) := by
  let d₀ : Draft := { d with errors := d.errors ++ o.errors d.visit.path }
  obtain ⟨t₁, d₁, h₁, hs₁, hd₁⟩ := h.keepContext (d := d₀) hv hq o
  obtain ⟨t₂, d₂, h₂, hs₂, hd₂⟩ := hs₁.keepQuestions (d := d₁) (by rw [hd₁.visit]; exact hv)
    (Shelf.put_self ..) o
  have hd := hd₁.trans hd₂
  obtain ⟨t₃, h₃, hs₃⟩ := hs₂.keepRecord (d := d₂) (by rw [hd.visit]; exact hv)
    (Shelf.put_self ..) stamp o
  rw [Shelf.put_put, Shelf.put_put] at hs₃
  have hrec : d₂.record stamp o = d.record stamp o := by
    rw [Draft.record, Draft.record, hd.visit, hd.difference]
  have hqs : d₁.questionnaire o = d.questionnaire o := by
    rw [Draft.questionnaire, Draft.questionnaire, hd₁.visit]
  rw [hrec, hqs] at hs₃
  refine ⟨t₃, d₂, d₂.lines, ?_, hs₃, hd.visit, hd.difference, ?_⟩
  · have hw : d₀.writeRest stamp s directory o = .ok (t₃, d₂) :=
      (Draft.writeRest_eq h₁ h₂ stamp).trans h₃
    show (d₀.writeRest stamp s directory o).bind _ = _
    rw [hw]
    rfl
  · rw [hd.errors, List.append_assoc]
    rfl

end Shelved

/-! ## Failures to write -/

/-- An error tells that an artifact could not be written. -/
def IsWriteFailure (e : String) : Prop := "Failed to write ".toList <+: e.toList

/-- The artifacts that an outcome leaves of a node: its record unless the provider failed, its context
only if it is a leaf. -/
structure Leaves (d : Draft) (stamp : String) (o : Outcome) (errors : List String) (q : Papers) :
    Prop where
  spec : q.spec = d.visit.spec
  record : q.record = if o.failure.isSome then none else some (d.record stamp o)
  context : q.context = none ∨ o.isLeaf = true ∧ q.context = some d.visit.context
  told : o.isLeaf = true → q.context = none → ∃ e ∈ errors, IsWriteFailure e

/-- A leaf about which nothing is told has its context. -/
theorem Leaves.context_eq {d : Draft} {stamp : String} {o : Outcome}
    (h : Leaves d stamp o [] q) (hl : o.isLeaf = true) : q.context = some d.visit.context := by
  rcases h.context with h0 | ⟨-, hc⟩
  · obtain ⟨e, he, -⟩ := h.told hl h0
    cases he
  · exact hc

theorem isWriteFailure_of_mem_complaints {a : Artifact} {what e : String}
    (h : e ∈ a.complaints what directory names) : IsWriteFailure e := by
  unfold Artifact.complaints at h
  split at h
  · cases h
  · rw [List.mem_singleton.1 h]
    simp only [IsWriteFailure, String.toList_append, List.append_assoc]
    exact List.prefix_append _ _

theorem complaints_ne_nil {a : Artifact} (what : String)
    (hs : ¬ (a.path directory names).utf8ByteSize < pathLimit) :
    a.complaints what directory names ≠ [] := by
  rw [Artifact.complaints, if_neg hs]
  exact List.cons_ne_nil _ _

theorem complaints_eq_nil {o : Outcome}
    (hc : (Artifact.context.path directory names).utf8ByteSize < pathLimit)
    (hq : (Artifact.questions.path directory names).utf8ByteSize < pathLimit) :
    Draft.complaints directory names o = [] := by
  rw [Draft.complaints, Artifact.complaints, if_pos hc, Artifact.complaints, if_pos hq, ite_self,
    ite_self, List.append_nil]

theorem leaves_papers (d : Draft) (directory : String) (names : List String) (stamp : String)
    (o : Outcome) {errors : List String}
    (he : Draft.complaints directory names o ⊆ errors) :
    Leaves d stamp o errors (d.papers directory names stamp o) where
  spec := rfl
  record := rfl
  context := by
    unfold Draft.papers
    dsimp only
    split
    · next h => exact .inr ⟨h.1, rfl⟩
    · exact .inl rfl
  told := by
    intro hl h0
    have hs : ¬ (Artifact.context.path directory names).utf8ByteSize < pathLimit := by
      intro hs
      rw [Draft.papers, if_pos ⟨hl, hs⟩] at h0
      cases h0
    obtain ⟨e, hmem⟩ := List.exists_mem_of_ne_nil _ (complaints_ne_nil "context artifact" hs)
    refine ⟨e, he (List.mem_append_left _ ?_), isWriteFailure_of_mem_complaints hmem⟩
    rwa [if_pos hl]

namespace Shelved

/-- What finishing a node leaves. -/
theorem finish (h : Shelved s directory base shelf) {d : Draft}
    (hv : d.visit.ancestry = rootName :: names) (hq : shelf names = some { spec := d.visit.spec })
    (stamp : String) (o : Outcome) :
    ∃ t d' lines q, d.finish stamp s directory o = .ok (t, Draft.result d' o, lines)
      ∧ d'.visit = d.visit ∧ Shelved t directory base (shelf.put names q)
      ∧ Leaves d stamp o d'.errors q
      ∧ ((Artifact.context.path directory names).utf8ByteSize < pathLimit →
        (Artifact.questions.path directory names).utf8ByteSize < pathLimit →
        d'.errors = d.errors ++ o.errors d.visit.path) := by
  obtain ⟨t, d', lines, hf, ht, hd⟩ := h.finish_eq hv hq stamp o
  have he := hd.errors
  refine ⟨t, d', lines, _, hf, hd.visit, ht, leaves_papers d directory names stamp o ?_,
    fun hc hq' => ?_⟩
  · rw [he]
    exact fun e hmem => List.mem_append_right _ (List.mem_append_right _ hmem)
  · rw [he, complaints_eq_nil hc hq', List.append_nil]

end Shelved

end SpecTree.Plan
