import SpecTree.Proofs.Plan.Census
import SpecTree.Proofs.Plan.Isolation
import SpecTree.Proofs.Store.Effect

/-!
# What compiling one node leaves

Whatever a plan directory holds: a node that is compiled, with no file operation failing, has its own artifacts
in its place and nothing else, and outside of its place nothing has changed but that the directories on the way
there have been made (`carryOut_leaves`).

1. `compileNode_eq` takes the compilation of a node apart, and `compileNode_cases` tells its three ways to end.
2. Where nothing is told of files (`Quiet`), all of them could be removed and written (`carryOut_quiet`).
3. Removing leaves nothing below the node's place (`exists_empties`). The spec is written into that
   (`Houses.of_writeSpec`), then the other artifacts beside it (`Houses.put`).
-/

namespace SpecTree.Plan

open SpecTree.Path Store

variable {s t u made : Store} {directory : String} {base : Place} {names : List String} {q : Papers} {v : Visit}
  {d : Draft} {dif : Difference} {o : Outcome} {r : NodeResult} {p : NodePolicy}

/-! ## Steps of a compilation -/

/-- Compiles a node about whose outcome all is known. -/
def carryOut (p : NodePolicy) (s : Store) (directory : String) (v : Visit) (dif : Difference) (o : Outcome) :
    Except FileError (Store × NodeResult) := do
  let (s, draft) ← prepare s directory v dif
  let (s, result, _) ← draft.finish p.stamp s directory o
  return (s, result)

/-- What is told when old artifacts could not be removed. -/
def Visit.complaints (v : Visit) (failure : Option FileError) : List String :=
  (failure.map fun e => ["Failed to invalidate previous artifacts for " ++ v.path ++ ": " ++ e.message]).getD []

/-- **A node is used again, passed over or compiled**, as the comparison with its record tells. -/
theorem compileNode_eq {lines : List Log.Line} (hx : examine p s directory v = .ok (dif, lines)) (mayAsk : Bool)
    (provider : Request → Except Failure Expansion) :
    compileNode p s directory v mayAsk provider =
      match judge p v dif with
      | .reuse r => .ok (s, v.reuse r dif.reason)
      | .keepLeaf => carryOut p s directory v dif .plain
      | .ask => if mayAsk then carryOut p s directory v dif (.ofReply (provider v.request)) else .ok (s, v.skip) := by
  rw [compileNode, hx]
  rfl

theorem digests_of_examine {lines : List Log.Line} (hx : examine p s directory v = .ok (dif, lines)) :
    dif.specHash = p.digest v.spec ∧ dif.contextHash = v.context.fingerprint p.digest := by
  obtain ⟨⟨previous, told⟩, -, hx⟩ := bind_eq_ok hx
  cases previous with
  | none =>
    obtain ⟨rfl, -⟩ := Prod.mk.inj (Except.ok.inj hx)
    exact ⟨rfl, rfl⟩
  | some record =>
    obtain ⟨reason, -, hx⟩ := bind_eq_ok hx
    obtain ⟨rfl, -⟩ := Prod.mk.inj (Except.ok.inj hx)
    exact ⟨rfl, rfl⟩

theorem exists_carryOut (h0 : directory.contains '\x00' = false) (hv : IsAncestry v.ancestry) (s : Store)
    (dif : Difference) (o : Outcome) : ∃ t r, carryOut p s directory v dif o = .ok (t, r) := by
  obtain ⟨u, draft, hprepare, hdraft⟩ := exists_prepare h0 hv s dif
  obtain ⟨t, d, lines, hfinish, -⟩ := exists_finish (d := draft) h0 (hdraft ▸ hv) u p.stamp o
  refine ⟨t, d.result o, ?_⟩
  rw [carryOut, hprepare]
  show (draft.finish p.stamp u directory o).bind _ = _
  rw [hfinish]
  rfl

/-- The artifacts that an outcome calls for: the context marks a leaf, questions are kept if there are any, and a
record unless the provider failed. -/
def Visit.papers (p : NodePolicy) (v : Visit) (o : Outcome) : Papers where
  spec := v.spec
  context := if o.isLeaf then some v.context else none
  questions := if o.hasQuestions then some ((v.draft p).questionnaire o) else none
  record := if o.failure.isSome then none else some ((v.draft p).record p.stamp o)

/-- The outcome of a node that is compiled. -/
def Visit.outcome (smallSpec : Int) (v : Visit) (provider : Request → Except Failure Expansion) : Outcome :=
  if v.isPlainLeaf smallSpec then .plain else .ofReply (provider v.request)

/-! ## Telling of files -/

/-- An error tells that files could not be removed or written. -/
def IsFileFailure (e : String) : Prop := "Failed to ".toList <+: e.toList

/-- No error tells of files. -/
def Quiet (errors : List String) : Prop := ∀ e ∈ errors, ¬ IsFileFailure e

theorem isFileFailure_append (rest : String) : IsFileFailure ("Failed to " ++ rest) := by
  rw [IsFileFailure, String.toList_append]
  exact List.prefix_append _ _

namespace Draft

variable {d' : Draft} {stamp : String}

theorem note_quiet {what : String} {failure : Option FileError} (h : d.note what failure = .ok d')
    (hq : Quiet d'.errors) : failure = none ∧ d' = d := by
  unfold note at h
  split at h
  · exact ⟨rfl, (Except.ok.inj h).symm⟩
  · split at h
    · obtain rfl := Except.ok.inj h
      refine absurd ?_ (hq _ (List.mem_append_right _ (List.mem_singleton_self _)))
      have hw : "Failed to write " = "Failed to " ++ "write " := rfl
      simp only [hw, String.append_assoc]
      exact isFileFailure_append _
    · cases h

theorem keep_quiet {what : String} {written : Store × Option FileError} (h : d.keep what written = .ok (t, d'))
    (hq : Quiet d'.errors) : written = (t, none) ∧ d' = d := by
  obtain ⟨s, failure⟩ := written
  unfold keep at h
  cases hn : d.note what failure with
  | error e =>
    simp only [hn] at h
    cases h
  | ok d₁ =>
    simp only [hn] at h
    obtain ⟨rfl, rfl⟩ := Prod.mk.inj (Except.ok.inj h)
    obtain ⟨rfl, rfl⟩ := note_quiet hn hq
    exact ⟨rfl, rfl⟩

theorem keepContext_quiet (h : d.keepContext s directory o = .ok (t, d')) (hq : Quiet d'.errors) :
    (if o.isLeaf then writeContext s directory d.visit.path d.visit.context = (t, none) else t = s) ∧ d' = d := by
  unfold keepContext at h
  by_cases hleaf : o.isLeaf = true
  · rw [if_pos hleaf] at h ⊢
    exact keep_quiet h hq
  · rw [if_neg hleaf] at h ⊢
    obtain ⟨rfl, rfl⟩ := Prod.mk.inj (Except.ok.inj h)
    exact ⟨rfl, rfl⟩

theorem keepQuestions_quiet (h : d.keepQuestions s directory o = .ok (t, d')) (hq : Quiet d'.errors) :
    (if o.hasQuestions then writeQuestions s directory d.visit.path (d.questionnaire o) = (t, none) else t = s)
      ∧ d' = d := by
  unfold keepQuestions at h
  dsimp only at h
  by_cases hnone : ((d.questionnaire o).questions.isEmpty && (d.questionnaire o).considerations.isEmpty) = true
  · rw [if_pos hnone] at h
    obtain ⟨rfl, rfl⟩ := Prod.mk.inj (Except.ok.inj h)
    rw [if_neg]
    · exact ⟨rfl, rfl⟩
    · rw [Outcome.hasQuestions, Bool.not_eq_true', Bool.not_eq_false]
      exact hnone
  · rw [if_neg hnone] at h
    rw [if_pos]
    · exact keep_quiet h hq
    · rw [Outcome.hasQuestions, Bool.not_eq_true']
      exact Bool.of_not_eq_true hnone

theorem keepRecord_quiet (h : d.keepRecord stamp s directory o = .ok (t, d')) (hq : Quiet d'.errors) :
    (if o.failure.isSome then t = s else writeRecord s directory d.visit.path (d.record stamp o) = (t, none))
      ∧ d' = d := by
  unfold keepRecord at h
  by_cases hfailed : o.failure.isSome = true
  · rw [if_pos hfailed] at h ⊢
    obtain ⟨rfl, rfl⟩ := Prod.mk.inj (Except.ok.inj h)
    exact ⟨rfl, rfl⟩
  · rw [if_neg hfailed] at h ⊢
    exact keep_quiet h hq

/-- **Where nothing is told of files, all writes have ended well**, one after another. -/
theorem finish_quiet {lines : List Log.Line} (hf : d.finish stamp s directory o = .ok (t, r, lines))
    (hq : Quiet r.errors) :
    ∃ t₁ t₂, (if o.isLeaf then writeContext s directory d.visit.path d.visit.context = (t₁, none) else t₁ = s)
      ∧ (if o.hasQuestions then writeQuestions t₁ directory d.visit.path (d.questionnaire o) = (t₂, none) else t₂ = t₁)
      ∧ (if o.failure.isSome then t = t₂ else writeRecord t₂ directory d.visit.path (d.record stamp o) = (t, none))
      ∧ r.errors = d.errors ++ o.errors d.visit.path := by
  obtain ⟨t₁, d₁, t₂, d₂, d₃, h₁, h₂, h₃, rfl, -⟩ := finish_eq_ok hf
  -- Nothing has been noted at the end, so nothing before.
  obtain ⟨hrecord, rfl⟩ := keepRecord_quiet h₃ hq
  obtain ⟨hquestions, rfl⟩ := keepQuestions_quiet h₂ hq
  obtain ⟨hcontext, rfl⟩ := keepContext_quiet h₁ hq
  exact ⟨t₁, t₂, hcontext, hquestions, hrecord, rfl⟩

end Draft

theorem prepare_quiet {draft : Draft} (h : prepare s directory v dif = .ok (t, draft)) (hq : Quiet draft.errors) :
    ∃ u, invalidate s directory v.path = (u, none) ∧ writeSpec u directory v.path v.spec = (t, none)
      ∧ draft = { visit := v, difference := dif } := by
  unfold prepare at h
  dsimp only at h
  generalize hi : invalidate s directory v.path = removed at h
  obtain ⟨u, failure⟩ := removed
  obtain ⟨hw, rfl⟩ := Draft.keep_quiet
    (show Draft.keep _ "spec artifact" (writeSpec u directory v.path v.spec) = .ok (t, draft) from h) hq
  cases failure with
  | none => exact ⟨u, rfl, hw, rfl⟩
  | some e =>
    refine absurd ?_ (hq _ (List.mem_singleton_self _))
    have hf : "Failed to invalidate previous artifacts for "
        = "Failed to " ++ "invalidate previous artifacts for " := rfl
    simp only [hf, String.append_assoc]
    exact isFileFailure_append _

/-- **A compilation that tells nothing of files** has removed and written all that it should. -/
theorem carryOut_quiet (hc : carryOut p s directory v dif o = .ok (t, r)) (hq : Quiet r.errors) :
    ∃ u t₀ t₁ t₂, invalidate s directory v.path = (u, none)
      ∧ writeSpec u directory v.path v.spec = (t₀, none)
      ∧ (if o.isLeaf then writeContext t₀ directory v.path v.context = (t₁, none) else t₁ = t₀)
      ∧ (if o.hasQuestions then
          writeQuestions t₁ directory v.path (Draft.questionnaire { visit := v, difference := dif } o) = (t₂, none)
        else t₂ = t₁)
      ∧ (if o.failure.isSome then t = t₂
        else
          writeRecord t₂ directory v.path (Draft.record { visit := v, difference := dif } p.stamp o) = (t, none)) := by
  obtain ⟨⟨t₀, draft⟩, hprepare, hc⟩ := bind_eq_ok hc
  obtain ⟨⟨t', r', lines⟩, hfinish, hc⟩ := bind_eq_ok hc
  obtain ⟨rfl, rfl⟩ := Prod.mk.inj (Except.ok.inj hc)
  obtain ⟨t₁, t₂, hcontext, hquestions, hrecord, herrors⟩ := Draft.finish_quiet hfinish hq
  obtain ⟨u, hi, hspec, rfl⟩ := prepare_quiet hprepare fun e he =>
    hq e (herrors ▸ List.mem_append_left _ he)
  exact ⟨u, t₀, t₁, t₂, hi, hspec, hcontext, hquestions, hrecord⟩

/-! ## Removing what was there -/

/-- **Entries that could be removed are gone** with all below them, links as well, and nothing else is. -/
theorem removeEntries_quiet {ns : List String} (h : s.Anchored directory base) (hn : ∀ n ∈ ns, IsProper n)
    (hr : removeEntries s (ns.map fun n => assemble [directory, n]) = (t, none)) :
    t.Anchored directory base ∧
      ∀ q, t.entry? q = if ∃ n ∈ ns, base ++ [n] <+: q then none else s.entry? q := by
  induction ns generalizing s with
  | nil =>
    obtain ⟨rfl, -⟩ := Prod.mk.inj hr
    exact ⟨h, fun q => by simp⟩
  | cons n ns ih =>
    obtain ⟨hproper, hns⟩ := List.forall_mem_cons.1 hn
    rw [List.map_cons, removeEntries, assemble_component directory hproper.1] at hr
    split at hr
    · next s' hr' =>
      obtain ⟨place, e, hf, rfl⟩ := removeEntry_eq_ok hr'
      have hparts : parts (spell directory [n]) = parts directory ++ ([] ++ [n]) :=
        parts_spell directory (List.forall_mem_singleton.2 hproper.1)
      obtain ⟨rfl, -⟩ := h.located hparts (List.forall_mem_singleton.2 hproper.2)
        (fun pre hp target ht => by rw [List.prefix_nil.1 hp, List.append_nil, h.entry?_base] at ht; cases ht)
        (fun hf => absurd hf Bool.false_ne_true) (find_eq_ok.1 hf).1
      obtain ⟨ha, ht⟩ := ih (h.prune (List.cons_ne_nil n [])) hns hr
      refine ⟨ha, fun q => ?_⟩
      rw [ht, entry?_prune s (by simp)]
      by_cases hq : base ++ [n] <+: q
      · rw [if_pos hq, ite_self, if_pos ⟨n, List.mem_cons_self, hq⟩]
      · rw [if_neg hq]
        simp only [List.mem_cons, exists_eq_or_imp, hq, false_or]
    · cases hr

/-- What is in the place of the names has gone, and nothing has that is elsewhere. -/
structure Empties (s t : Store) (base : Place) (names : List String) : Prop where
  below : ∀ rel, rel ≠ [] → t.entry? (base ++ (names ++ rel)) = none
  elsewhere : ∀ q, ¬ base ++ names <+: q → t.entry? q = s.entry? q
  straight : t.Straight base names

/-- Nothing is below a place that is no directory. -/
theorem empties_of_not_directory (hs : s.WellFormed) (hl : s.Straight base names)
    (hd : s.entry? (base ++ names) ≠ some .directory) : Empties s s base names where
  below rel hr := Option.eq_none_iff_forall_ne_some.2 fun e he => by
    rw [← List.append_assoc] at he
    exact hd (hs.directory_of_append he hr)
  elsewhere _ _ := rfl
  straight := hl

theorem empties_of_prune (h0 : names ≠ []) (hl : s.Straight base names) :
    Empties s (s.prune (base ++ names)) base names where
  below rel _ := by
    rw [entry?_prune s (by simp [h0]), if_pos (by rw [← List.append_assoc]; exact List.prefix_append _ _)]
  elsewhere q hq := by rw [entry?_prune s (by simp [h0]), if_neg hq]
  straight := fun pre hp target ht => hl pre hp target (entry?_of_prune ht)

theorem empties_of_vacant (h : s.Opens directory base made) (hv : ∀ rel, rel ≠ [] → made.entry? (base ++ rel) = none) :
    Empties made made base names where
  below rel hr := hv _ (by simp [hr])
  elsewhere _ _ := rfl
  straight := fun pre _ target ht => by
    by_cases h0 : pre = []
    · rw [h0, List.append_nil, h.anchored.entry?_base] at ht
      cases ht
    · rw [hv pre h0] at ht
      cases ht

/-- A path without a zero character that is no directory, nor anything too long to be asked about, is none. -/
theorem not_directory_of_ask (h : s.Anchored directory base) (hs : s.WellFormed) (h0 : names ≠ [])
    (hn : ∀ n ∈ names, IsNodeName n) (ha : s.isDirectory (spell directory names) = .ok false) :
    s.entry? (base ++ names) ≠ some .directory := by
  intro hd
  have hproper : ∀ n ∈ names, IsComponent n := fun n hm => isComponent_of_isNodeName (hn n hm)
  rcases find_leads h.find_directory h0 (fun n hm => (@isComponent_of_mem_ownNames names _ hn
      (by rwa [ownNames, if_neg h0])).2) (hs.leads hd) (parts_spell directory hproper)
      (noZero_spell h.noZero (zero_not_mem_names hn)) with hf | hf
  · rw [isDirectory, ask_of_find (hf true)] at ha
    cases ha
  · rw [isDirectory, ask, hf] at ha
    cases ha

/-- **Removing a node below the root** empties its place. -/
theorem exists_empties_node (h : s.Opens directory base made) (hs : s.WellFormed) (h0 : names ≠ [])
    (hn : ∀ n ∈ names, IsNodeName n) (hl : made.Straight base names)
    (hi : invalidate s directory (nodePath (rootName :: names)) = (t, none)) :
    ∃ made', t.Opens directory base made' ∧ Empties made made' base names := by
  have hroot : nodePath (rootName :: names) ≠ rootName := by
    rw [nodePath_of_ne_nil h0 hn]
    exact intercalate_ne_rootName h0 hn
  obtain ⟨ns, n, rfl⟩ := (List.eq_nil_or_concat' names).resolve_left h0
  have hproper : ∀ m ∈ ns ++ [n], IsComponent m := fun m hm => isComponent_of_isNodeName (hn m hm)
  have hparts := parts_spell directory hproper
  simp only [invalidate, if_neg hroot, Shelved.inside_eq_spell h0 hn] at hi
  split at hi
  · cases hi
  · next ha =>
    obtain ⟨rfl, -⟩ := Prod.mk.inj hi
    refine ⟨made, h, ?_⟩
    rcases h with ⟨hanchored, rfl⟩ | ⟨hm, hf, hnone⟩
    · exact empties_of_not_directory hs hl (not_directory_of_ask hanchored hs h0 hn ha)
    · exact empties_of_vacant (.inr ⟨hm, hf, hnone⟩) hnone
  · split at hi
    · next hr =>
      obtain ⟨rfl, -⟩ := Prod.mk.inj hi
      obtain ⟨place, hf, rfl⟩ := removeTree_eq_ok hr
      have hloc := (find_eq_ok.1 hf).1
      obtain ⟨hanchored, rfl⟩ := h.anchored_of_locate hparts h0 hloc
      obtain ⟨rfl, -⟩ := hanchored.located hparts (fun m hm => (@isComponent_of_mem_ownNames (ns ++ [n]) _ hn
        (by rwa [ownNames, if_neg h0])).2) (hl.of_prefix (List.prefix_append _ _))
        (fun hf => absurd hf Bool.false_ne_true) hloc
      exact ⟨_, .inl ⟨hanchored.prune h0, rfl⟩, empties_of_prune h0 hl⟩
    · cases hi

/-- All below a directory has gone with its children. -/
theorem empties_of_children (h : t.Anchored directory base) (hs : s.WellFormed)
    (ht : ∀ q, t.entry? q
      = if ∃ n ∈ (s.childrenOf base).map Prod.fst, base ++ [n] <+: q then none else s.entry? q) :
    Empties s t base [] where
  below rel hr := by
    obtain ⟨m, more, rfl⟩ := List.exists_cons_of_ne_nil hr
    rw [ht]
    split
    · rfl
    · next hnot =>
      refine Option.eq_none_iff_forall_ne_some.2 fun e he => hnot ⟨m, hs.mem_names_childrenOf.2 ?_, by simp⟩
      -- What lies deeper lies in something.
      by_cases hmore : more = []
      · exact ⟨e, by rw [hmore] at he; exact he⟩
      · have he' : s.entry? (base ++ [m] ++ more) = some e := by simpa using he
        exact ⟨.directory, hs.directory_of_append he' hmore⟩
  elsewhere q hq := by
    rw [ht, if_neg]
    rintro ⟨n, -, hn⟩
    exact hq (by rw [List.append_nil]; exact (List.prefix_append _ _).trans hn)
  straight := straight_nil h.entry?_base

/-- **Removing the root** empties the plan directory. -/
theorem exists_empties_root (h : s.Opens directory base made) (hs : s.WellFormed)
    (hi : invalidate s directory rootName = (t, none)) :
    ∃ made', t.Opens directory base made' ∧ Empties made made' base [] := by
  simp only [invalidate, if_true] at hi
  split at hi
  · cases hi
  · next ha =>
    obtain ⟨rfl, -⟩ := Prod.mk.inj hi
    refine ⟨made, h, ?_⟩
    rcases h with ⟨hanchored, rfl⟩ | ⟨hm, hf, hnone⟩
    · rw [isDirectory, ask_of_find hanchored.find_directory] at ha
      cases ha
    · exact empties_of_vacant (.inr ⟨hm, hf, hnone⟩) hnone
  · next ha =>
    obtain ⟨hanchored, rfl⟩ := h.anchored_of_isDirectory ha
    rw [list_of_find hanchored.find_directory] at hi
    have hmap : (made.childrenOf base).map (fun x => assemble [directory, x.1])
        = ((made.childrenOf base).map Prod.fst).map fun n => assemble [directory, n] := by
      rw [List.map_map]
      rfl
    dsimp only at hi
    rw [hmap] at hi
    obtain ⟨ha, ht⟩ := removeEntries_quiet hanchored (fun n hn => by
      obtain ⟨e, he⟩ := hs.mem_names_childrenOf.1 hn
      exact hs.proper he n (by simp)) hi
    exact ⟨t, .inl ⟨ha, rfl⟩, empties_of_children ha hs ht⟩

theorem exists_empties (h : s.Opens directory base made) (hs : s.WellFormed)
    (hn : ∀ n ∈ names, IsNodeName n) (hl : made.Straight base names)
    (hi : invalidate s directory (nodePath (rootName :: names)) = (t, none)) :
    ∃ made', t.Opens directory base made' ∧ Empties made made' base names := by
  by_cases h0 : names = []
  · subst h0
    exact exists_empties_root h hs hi
  · exact exists_empties_node h hs h0 hn hl hi

/-! ## Writing the artifacts -/

/-- **The node's place has the artifacts and nothing else.** -/
structure Houses (s : Store) (directory : String) (base : Place) (names : List String) (q : Papers) : Prop where
  anchored : s.Anchored directory base
  leads : s.Leads base names
  short : ∀ n ∈ names, n.utf8ByteSize ≤ nameLimit
  files (a : Artifact) : s.entry? (base ++ (names ++ [a.fileName names])) = (q.text? a).map fileOf
  only : ∀ rel, rel ≠ [] → (∀ a, rel ≠ [Artifact.fileName a names]) → s.entry? (base ++ (names ++ rel)) = none

/-- Outside of the place nothing has changed, but that a directory is wherever one was missing on the way there. -/
def SameElsewhere (s t : Store) (base : Place) (names : List String) : Prop :=
  ∀ q, ¬ base ++ names <+: q →
    t.entry? q = (s.entry? q).or (if base <+: q ∧ q <+: base ++ names then some .directory else none)

theorem not_append_prefix (base : Place) (names : List String) {rel : List String} (hr : rel ≠ []) :
    ¬ base ++ (names ++ rel) <+: base ++ names := by
  intro hp
  have hle := hp.length_le
  have hpos := List.length_pos_of_ne_nil hr
  simp only [List.length_append] at hle
  omega

/-- An artifact is put beside the others. -/
theorem houses_set {w : Store} (ha : w.Anchored directory base) (hl : w.Leads base names)
    (hshort : ∀ n ∈ names, n.utf8ByteSize ≤ nameLimit) {a : Artifact} {text : String} (htext : q.text? a = some text)
    (hother : ∀ b, b ≠ a → w.entry? (base ++ (names ++ [Artifact.fileName b names])) = (q.text? b).map fileOf)
    (honly : ∀ rel, rel ≠ [] → (∀ a, rel ≠ [Artifact.fileName a names]) → w.entry? (base ++ (names ++ rel)) = none) :
    Houses (w.set (base ++ (names ++ [a.fileName names])) (fileOf text)) directory base names q := by
  have hset := entry?_set w (p := base ++ (names ++ [a.fileName names])) (by simp) (fileOf text)
  refine ⟨ha.set (by simp) _, fun pre hp h0 => ?_, hshort, fun b => ?_, fun rel hr hb => ?_⟩
  · rw [hset, if_neg, hl pre hp h0]
    rintro he
    refine not_append_prefix base names (List.cons_ne_nil (a.fileName names) []) ?_
    rw [← he]
    exact (List.prefix_append_right_inj base).2 hp
  · rw [hset]
    by_cases hba : b = a
    · rw [hba, if_pos rfl, htext]
      rfl
    · rw [if_neg, hother b hba]
      intro he
      exact hba (Artifact.fileName_injective
        (List.singleton_inj.1 (List.append_cancel_left (List.append_cancel_left he))))
  · rw [hset, if_neg, honly rel hr hb]
    exact fun he => hb a (List.append_cancel_left (List.append_cancel_left he))

/-- **The spec is the first artifact** in a place that has been emptied. -/
theorem Houses.of_writeSpec {made' : Store} {spec : String} (h : s.Opens directory base made')
    (he : Empties made made' base names) (hn : ∀ n ∈ names, IsNodeName n)
    (hw : writeSpec s directory (nodePath (rootName :: names)) spec = (t, none)) :
    Houses t directory base names { spec } ∧ SameElsewhere made t base names := by
  have hpath : planPath directory (nodePath (rootName :: names))
      = spell directory (names ++ [Artifact.spec.fileName names]) := by
    rw [← artifactPath_eq_spell .spec directory hn, Artifact.path, Artifact.suffix, String.append_empty]
  rw [Plan.writeSpec, hpath] at hw
  obtain ⟨w, hpaves, ha, rfl⟩ := h.exists_paves (isProper_artifact hn .spec)
    (he.straight.concat fun target ht => by rw [he.below _ (by simp)] at ht; cases ht) hw
  have hbelow (rel : List String) (hr : rel ≠ []) : w.entry? (base ++ (names ++ rel)) = none := by
    rw [hpaves.entry, he.below rel hr, Option.none_or, if_neg fun hp => not_append_prefix base names hr hp.2]
  refine ⟨houses_set ha hpaves.leads hpaves.short rfl (fun b hb => ?_) fun rel hr _ => hbelow rel hr, fun x hx => ?_⟩
  · rw [hbelow _ (by simp)]
    cases b with
    | spec => exact absurd rfl hb
    | context | questions | record => rfl
  · rw [entry?_set w (by simp), if_neg, hpaves.entry, he.elsewhere x hx]
    rintro rfl
    exact hx (by rw [← List.append_assoc]; exact List.prefix_append _ _)

/-- **Another artifact is written** beside those that are there. -/
theorem Houses.put (h : Houses s directory base names q) (hn : ∀ n ∈ names, IsNodeName n) {a : Artifact}
    {q' : Papers} {text : String} (ha : q'.text? a = some text) (hne : ∀ b, b ≠ a → q'.text? b = q.text? b)
    (hw : s.writeDeep (a.path directory names) (.text text) = (t, none)) :
    Houses t directory base names q' ∧ ∀ x, ¬ base ++ names <+: x → t.entry? x = s.entry? x := by
  have hstraight : s.Straight base (names ++ [a.fileName names]) := by
    refine Straight.concat (fun pre hp target ht => ?_) fun target ht => ?_
    · by_cases h0 : pre = []
      · rw [h0, List.append_nil, h.anchored.entry?_base] at ht
        cases ht
      · rw [h.leads pre hp h0] at ht
        cases ht
    · rw [h.files a] at ht
      obtain ⟨text, -, he⟩ := Option.map_eq_some_iff.1 ht
      cases he
  rw [artifactPath_eq_spell a directory hn] at hw
  obtain ⟨w, hpaves, hanchored, rfl⟩ :=
    Opens.exists_paves (.inl ⟨h.anchored, rfl⟩) (isProper_artifact hn a) hstraight hw
  -- The way is there already.
  have hsame (x : Place) : w.entry? x = s.entry? x :=
    (hpaves.entry x).trans ((Paves.of_leads h.leads h.anchored.entry?_base h.short).entry x).symm
  refine ⟨houses_set hanchored hpaves.leads hpaves.short ha (fun b hb => ?_) fun rel hr hb => ?_, fun x hx => ?_⟩
  · rw [hsame, h.files b, hne b hb]
  · rw [hsame, h.only rel hr hb]
  · rw [entry?_set w (by simp), if_neg, hsame]
    rintro rfl
    exact hx (by rw [← List.append_assoc]; exact List.prefix_append _ _)

/-- **A node that is compiled, with nothing told of files,** has its artifacts and nothing else. -/
theorem carryOut_leaves (h : s.Opens directory base made) (hs : s.WellFormed) (hv : v.ancestry = rootName :: names)
    (hn : ∀ n ∈ names, IsNodeName n) (hl : made.Straight base names) {lines : List Log.Line}
    (hx : examine p s directory v = .ok (dif, lines)) (hc : carryOut p s directory v dif o = .ok (t, r))
    (hq : Quiet r.errors) :
    Houses t directory base names (v.papers p o) ∧ SameElsewhere made t base names := by
  have hpath : v.path = nodePath (rootName :: names) := by rw [Visit.path, hv]
  obtain ⟨u, t₀, t₁, t₂, hi, hspec, hcontext, hquestions, hrecord⟩ := carryOut_quiet hc hq
  rw [hpath] at hi hspec hcontext hquestions hrecord
  obtain ⟨made', hopens, hempties⟩ := exists_empties h hs hn hl hi
  obtain ⟨h₀, hsame⟩ := Houses.of_writeSpec hopens hempties hn hspec
  obtain ⟨h₁, hsame₁⟩ : Houses t₁ directory base names
      { spec := v.spec, context := if o.isLeaf then some v.context else none } ∧
      ∀ x, ¬ base ++ names <+: x → t₁.entry? x = t₀.entry? x := by
    by_cases hleaf : o.isLeaf = true
    · rw [if_pos hleaf] at hcontext ⊢
      exact h₀.put hn (a := .context) rfl (fun b hb => by cases b <;> first | rfl | exact absurd rfl hb) hcontext
    · rw [if_neg hleaf] at hcontext ⊢
      subst hcontext
      exact ⟨h₀, fun _ _ => rfl⟩
  obtain ⟨h₂, hsame₂⟩ : Houses t₂ directory base names
      { spec := v.spec
        context := if o.isLeaf then some v.context else none
        questions := if o.hasQuestions then some ((v.draft p).questionnaire o) else none } ∧
      ∀ x, ¬ base ++ names <+: x → t₂.entry? x = t₁.entry? x := by
    by_cases hasked : o.hasQuestions = true
    · rw [if_pos hasked] at hquestions ⊢
      exact h₁.put hn (a := .questions) rfl (fun b hb => by cases b <;> first | rfl | exact absurd rfl hb) hquestions
    · rw [if_neg hasked] at hquestions ⊢
      subst hquestions
      exact ⟨h₁, fun _ _ => rfl⟩
  obtain ⟨h₃, hsame₃⟩ : Houses t directory base names (v.papers p o) ∧
      ∀ x, ¬ base ++ names <+: x → t.entry? x = t₂.entry? x := by
    unfold Visit.papers
    by_cases hfailed : o.failure.isSome = true
    · rw [if_pos hfailed] at hrecord ⊢
      subst hrecord
      exact ⟨h₂, fun _ _ => rfl⟩
    · rw [if_neg hfailed] at hrecord ⊢
      obtain ⟨hspecHash, hcontextHash⟩ := digests_of_examine hx
      have hsame : Draft.record { visit := v, difference := dif } p.stamp o = (v.draft p).record p.stamp o := by
        simp only [Draft.record, Visit.draft, hspecHash, hcontextHash]
      rw [hsame] at hrecord
      exact h₂.put hn (a := .record) rfl (fun b hb => by cases b <;> first | rfl | exact absurd rfl hb) hrecord
  exact ⟨h₃, fun x hx => by rw [hsame₃ x hx, hsame₂ x hx, hsame₁ x hx, hsame x hx]⟩

theorem exists_draft_of_carryOut (hc : carryOut p s directory v dif o = .ok (t, r)) :
    ∃ d : Draft, r = d.result o ∧ d.visit = v := by
  obtain ⟨⟨u, draft⟩, hprepare, hc⟩ := bind_eq_ok hc
  obtain ⟨⟨t', r', lines⟩, hfinish, hc⟩ := bind_eq_ok hc
  obtain ⟨rfl, rfl⟩ := Prod.mk.inj (Except.ok.inj hc)
  obtain ⟨d, hd, hdv⟩ := result_of_finish hfinish
  exact ⟨d, hd, hdv.trans (prepare_eq_ok hprepare).2⟩

/-- **The three ways of a node**: it is used again, passed over, or compiled to its outcome. -/
theorem compileNode_cases (h0 : directory.contains '\x00' = false) (hv : IsAncestry v.ancestry)
    {lines : List Log.Line} (hx : examine p s directory v = .ok (dif, lines)) (mayAsk : Bool)
    (provider : Request → Except Failure Expansion) :
    (∃ record, judge p v dif = .reuse record
        ∧ compileNode p s directory v mayAsk provider = .ok (s, v.reuse record dif.reason)) ∨
      (judge p v dif = .ask ∧ mayAsk = false ∧ compileNode p s directory v mayAsk provider = .ok (s, v.skip)) ∨
      ∃ (t : Store) (d : Draft), (judge p v dif = .keepLeaf ∨ judge p v dif = .ask ∧ mayAsk = true)
        ∧ d.visit = v
        ∧ compileNode p s directory v mayAsk provider = .ok (t, d.result (v.outcome p.smallSpec provider))
        ∧ carryOut p s directory v dif (v.outcome p.smallSpec provider)
          = .ok (t, d.result (v.outcome p.smallSpec provider)) := by
  have hcarry (o : Outcome) : ∃ (t : Store) (d : Draft), d.visit = v
      ∧ carryOut p s directory v dif o = .ok (t, d.result o) := by
    obtain ⟨t, r, hc⟩ := exists_carryOut (p := p) h0 hv s dif o
    obtain ⟨d, rfl, hd⟩ := exists_draft_of_carryOut hc
    exact ⟨t, d, hd, hc⟩
  rw [compileNode_eq hx]
  cases hj : judge p v dif with
  | reuse record => exact .inl ⟨record, rfl, rfl⟩
  | keepLeaf =>
    have ho : v.outcome p.smallSpec provider = .plain := by
      unfold judge at hj
      unfold Visit.outcome
      split at hj
      · cases hj
      · split at hj
        · next hplain => exact if_pos hplain
        · cases hj
    obtain ⟨t, d, hd, hc⟩ := hcarry .plain
    rw [ho]
    exact .inr (.inr ⟨t, d, .inl rfl, hd, hc, hc⟩)
  | ask =>
    have ho : v.outcome p.smallSpec provider = .ofReply (provider v.request) := by
      unfold judge at hj
      unfold Visit.outcome
      split at hj
      · cases hj
      · split at hj
        · cases hj
        · next hplain => exact if_neg hplain
    cases mayAsk with
    | false => exact .inr (.inl ⟨rfl, rfl, rfl⟩)
    | true =>
      obtain ⟨t, d, hd, hc⟩ := hcarry (.ofReply (provider v.request))
      rw [ho]
      exact .inr (.inr ⟨t, d, .inr ⟨rfl, rfl⟩, hd, hc, hc⟩)

end SpecTree.Plan
