import SpecTree.Proofs.Plan.Footprint
import SpecTree.Proofs.Plan.Records

/-!
# The stages of a node

What the result of a node tells is what has been done about it: whether a provider has been asked, how far the node
came, and whether it is a leaf (`compileNode_tells`). A node that the provider failed for is a leaf, and is compiled
again the next time unless an old record has outlived the compilation. It may where it could not be removed
(`stale_record_stays`).

1. The stages agree with the rest of the result (`NodeResult.Consistent`), if a record that is used again is one that
   a compilation has left: such a record has children just if it tells of no leaf.
2. The result agrees with the comparison of the node, with the node itself and with the grant (`NodeResult.Accords`).
3. A place that has no record after a failure is found to have none (`Houses.examine_eq`).
-/

namespace SpecTree.Plan

open SpecTree.Path Store

variable {s t made : Store} {directory : String} {base : Place} {names : List String} {q : Papers} {v : Visit}
  {d : Draft} {dif : Difference} {o : Outcome} {r : NodeResult} {p : NodePolicy} {record : Record}
  {lines : List Log.Line}

/-! ## What a result tells -/

/-- Neither the parent nor the spec marks the node as a leaf, and the spec is not a small one. -/
def Visit.CallsForProvider (smallSpec : Int) (v : Visit) : Prop :=
  v.markedLeaf = false ∧ isMarkedLeaf v.node = false ∧
    (v.node.hasNestedModules = true ∨ smallSpec ≤ v.spec.length ∨ v.spec.contains '{' = true)

theorem isPlainLeaf_eq_false_iff {smallSpec : Int} :
    v.isPlainLeaf smallSpec = false ↔ v.CallsForProvider smallSpec := by
  simp only [Visit.isPlainLeaf, Visit.isMarked, Visit.CallsForProvider, isSmall, Bool.or_eq_false_iff,
    Bool.and_eq_false_iff, Bool.not_eq_false', decide_eq_false_iff_not, Int.not_lt, and_assoc]

/-- The stage that tells leaves from branches. -/
def NodeResult.verdict (r : NodeResult) : Stage := if r.isLeaf then .leaf else .branch

/-- **The stages of a result agree with the rest of it.** -/
structure NodeResult.Consistent (r : NodeResult) : Prop where
  once : ¬ (r.skipped = true ∧ r.cacheHit = true)
  passed : r.skipped = true → r.stages = [.pending, .specSerialized]
  reused : r.cacheHit = true → r.stages = [.pending, .specSerialized, r.verdict, .terminal]
  compiled : r.skipped = false → r.cacheHit = false →
    r.stages = [.pending, .specSerialized] ++ (if r.providerCalled then [.providerInvoked] else [])
      ++ [r.verdict, .contextWritten, .terminal]
  branch : .branch ∈ r.stages ↔ r.isLeaf = false
  children : r.isLeaf = false ↔ r.children ≠ []
  asked : r.cacheHit = false → .branch ∈ r.stages → [.providerInvoked, .branch] <:+: r.stages

theorem isLeaf_eq_false_iff {b : Bool} {children : List ChildSpec} (h : b = children.isEmpty) :
    b = false ↔ children ≠ [] := by
  rw [h, List.isEmpty_eq_false_iff]

theorem consistent_skip (v : Visit) : v.skip.Consistent where
  once h := absurd h.2 Bool.false_ne_true
  passed _ := rfl
  reused h := absurd h Bool.false_ne_true
  compiled h := absurd h.symm Bool.false_ne_true
  branch := by simp [Visit.skip, Visit.result]
  children := by simp [Visit.skip, Visit.result]
  asked _ h := by simp [Visit.skip, Visit.result] at h

theorem consistent_reuse (h : record.IsKept) (v : Visit) (reason : Reason) : (v.reuse record reason).Consistent where
  once h := absurd h.1 Bool.false_ne_true
  passed h := absurd h Bool.false_ne_true
  reused _ := rfl
  compiled _ h := absurd h.symm Bool.false_ne_true
  branch := by cases hl : record.isLeaf <;> simp [Visit.reuse, Visit.result, hl]
  children := isLeaf_eq_false_iff h.isLeaf_eq
  asked h := absurd h.symm Bool.false_ne_true

/-- Only a provider that is asked gives children. -/
theorem consistent_result (h : o.asked = false → o.isLeaf = true) (d : Draft) : (d.result o).Consistent where
  once h := absurd h.1 Bool.false_ne_true
  passed h := absurd h Bool.false_ne_true
  reused h := absurd h Bool.false_ne_true
  compiled _ _ := (List.append_assoc _ _ _).symm
  branch := by
    cases ha : o.asked <;> cases hl : o.isLeaf <;> simp [Draft.result, Visit.result, Outcome.stages, ha, hl]
  children := isLeaf_eq_false_iff rfl
  asked _ hb := by
    cases ha : o.asked with
    | false => simp [Draft.result, Visit.result, Outcome.stages, ha, h ha] at hb
    | true =>
      cases hl : o.isLeaf with
      | true => simp [Draft.result, Visit.result, Outcome.stages, ha, hl] at hb
      | false =>
        refine ⟨[.pending, .specSerialized], [.contextWritten, .terminal], ?_⟩
        simp [Draft.result, Visit.result, Outcome.stages, ha, hl]

theorem isLeaf_of_not_asked (smallSpec : Int) (v : Visit) (provider : Request → Except Failure Expansion)
    (h : (v.outcome smallSpec provider).asked = false) : (v.outcome smallSpec provider).isLeaf = true := by
  unfold Visit.outcome at h ⊢
  split at h
  · next hplain =>
    rw [if_pos hplain]
    rfl
  · cases hreply : provider v.request <;> rw [hreply] at h <;> cases h

/-! ## After a failure -/

/-- **A node whose place has no record is compiled the next time.** -/
theorem Houses.examine_eq (h : Houses t directory base names q) (hv : v.ancestry = rootName :: names)
    (hn : ∀ n ∈ names, IsNodeName n) (hq : q.record = none) (hx : examine p s directory v = .ok (dif, lines)) :
    examine p t directory v = .ok ((v.draft p).difference, []) := by
  have hpath : metaPath directory v.path = Artifact.record.path directory names := by rw [Visit.path, hv]; rfl
  have h0 := h.anchored.noZero
  refine examine_of_none ?_
  rw [hpath]
  -- The path was short enough to be asked about before.
  have hsize : (Artifact.record.path directory names).utf8ByteSize < pathLimit := by
    by_contra hlong
    have hfile := isFile_of_size (s := s) (Artifact.noZero_path .record h0 hn) (Nat.le_of_not_lt hlong)
    rw [examine, difference, readRecord, readJson, hpath, hfile] at hx
    cases hx
  refine h.anchored.ask_of_none (Artifact.spells_path .record h0 hn hsize) ?_ h.leads ?_ _
  · exact List.forall_mem_append.2 ⟨fun n hm => ⟨h.short n hm, (isProper_of_isNodeName (hn n hm)).2⟩,
      List.forall_mem_singleton.2 (Artifact.record.isFileName names).plain⟩
  · rw [h.files .record, Papers.text?, hq]
    rfl

/-! ## Who is asked -/

theorem judge_eq_reuse_iff :
    judge p v dif = .reuse record ↔ p.useCache = true ∧ dif.isStale = false ∧ dif.previous = some record := by
  unfold judge Difference.reusable?
  cases p.useCache <;> cases dif.isStale <;> cases dif.previous <;> cases v.isPlainLeaf p.smallSpec <;> simp

theorem not_reusable_of_judge (h : ∀ record, judge p v dif ≠ .reuse record) :
    ¬ (p.useCache = true ∧ dif.isStale = false ∧ dif.previous.isSome = true) := by
  rintro ⟨hc, hs, hp⟩
  obtain ⟨record, hp⟩ := Option.isSome_iff_exists.1 hp
  exact h record (judge_eq_reuse_iff.2 ⟨hc, hs, hp⟩)

/-- **What a result has to do with the node, its record and the provider.** -/
structure NodeResult.Accords (r : NodeResult) (p : NodePolicy) (v : Visit) (dif : Difference) (mayAsk : Bool) :
    Prop where
  hit : r.cacheHit = true ↔ p.useCache = true ∧ dif.isStale = false ∧ dif.previous.isSome = true
  called : r.providerCalled = true ↔ r.cacheHit = false ∧ v.CallsForProvider p.smallSpec ∧ mayAsk = true
  skipped : r.skipped = true ↔ r.cacheHit = false ∧ v.CallsForProvider p.smallSpec ∧ mayAsk = false

theorem accords_reuse (h : judge p v dif = .reuse record) (mayAsk : Bool) :
    (v.reuse record dif.reason).Accords p v dif mayAsk := by
  obtain ⟨hc, hs, hp⟩ := judge_eq_reuse_iff.1 h
  have hhit : (v.reuse record dif.reason).cacheHit ≠ false := Bool.noConfusion
  exact {
    hit := iff_of_true rfl ⟨hc, hs, Option.isSome_iff_exists.2 ⟨record, hp⟩⟩
    called := iff_of_false Bool.false_ne_true fun h => hhit h.1
    skipped := iff_of_false Bool.false_ne_true fun h => hhit h.1 }

theorem accords_skip (h : judge p v dif = .ask) : v.skip.Accords p v dif false where
  hit := iff_of_false Bool.false_ne_true (not_reusable_of_judge fun _ hr => by rw [h] at hr; cases hr)
  called := iff_of_false Bool.false_ne_true fun h => absurd h.2.2 Bool.false_ne_true
  skipped := iff_of_true rfl ⟨rfl, isPlainLeaf_eq_false_iff.1 (isPlainLeaf_of_judge.2 h), rfl⟩

theorem asked_outcome (smallSpec : Int) (v : Visit) (provider : Request → Except Failure Expansion) :
    (v.outcome smallSpec provider).asked = true ↔ v.CallsForProvider smallSpec := by
  rw [← isPlainLeaf_eq_false_iff, Visit.outcome]
  cases v.isPlainLeaf smallSpec with
  | true => exact iff_of_false Bool.false_ne_true (by decide)
  | false => cases hreply : provider v.request <;> exact iff_of_true rfl rfl

theorem accords_result {mayAsk : Bool} (hj : judge p v dif = .keepLeaf ∨ judge p v dif = .ask ∧ mayAsk = true)
    (d : Draft) (provider : Request → Except Failure Expansion) :
    (d.result (v.outcome p.smallSpec provider)).Accords p v dif mayAsk := by
  have hcalled := asked_outcome p.smallSpec v provider
  rcases hj with hj | ⟨hj, rfl⟩
  · have hplain : ¬ v.CallsForProvider p.smallSpec := by
      rw [← isPlainLeaf_eq_false_iff, isPlainLeaf_of_judge.1 hj]
      decide
    exact {
      hit := iff_of_false Bool.false_ne_true (not_reusable_of_judge fun _ hr => by rw [hj] at hr; cases hr)
      called := iff_of_false (fun h => hplain (hcalled.1 h)) fun h => hplain h.2.1
      skipped := iff_of_false Bool.false_ne_true fun h => hplain h.2.1 }
  · have hopen := isPlainLeaf_eq_false_iff.1 (isPlainLeaf_of_judge.2 hj)
    exact {
      hit := iff_of_false Bool.false_ne_true (not_reusable_of_judge fun _ hr => by rw [hj] at hr; cases hr)
      called := iff_of_true (hcalled.2 hopen) ⟨rfl, hopen, rfl⟩
      skipped := iff_of_false Bool.false_ne_true fun h => absurd h.2.2 (by decide) }

/-- Without a call, no provider makes a difference. -/
theorem compileNode_congr (hx : examine p s directory v = .ok (dif, lines)) {mayAsk : Bool}
    (h : judge p v dif ≠ .ask ∨ mayAsk = false) (provider other : Request → Except Failure Expansion) :
    compileNode p s directory v mayAsk provider = compileNode p s directory v mayAsk other := by
  rw [compileNode_eq hx, compileNode_eq hx]
  cases hj : judge p v dif with
  | reuse record => rfl
  | keepLeaf => rfl
  | ask =>
    have hmay : ¬ mayAsk = true := Bool.eq_false_iff.1 (h.resolve_left (not_not.2 hj))
    exact (if_neg hmay).trans (if_neg hmay).symm

/-! ## A record that is there -/

/-- A record of the same spec and context can be used if the files that it tells of are there. -/
theorem examine_of_find {stamp : String} {place : Place} {spec context : Bool} (hstamp : Stamp.isStamp stamp = true)
    (hf : s.find true (metaPath directory v.path)
      = .ok (place, fileOf (recordText ((v.draft p).record stamp o))))
    (hs : s.isFile (planPath directory v.path) = .ok spec)
    (hc : s.isFile (contextPath directory v.path) = .ok context) :
    examine p s directory v = .ok
      (⟨if spec then if o.isLeaf && !context then .contextMissing else .unchanged else .specMissing,
        p.digest v.spec, v.context.fingerprint p.digest, some ((v.draft p).record stamp o)⟩, []) := by
  have hread : readRecord s directory v.path = .ok (some ((v.draft p).record stamp o), []) :=
    readRecord_of_find hstamp hf
  have hreason : reasonFor s directory v.path (p.digest v.spec) (v.context.fingerprint p.digest)
      ((v.draft p).record stamp o)
      = .ok (if spec then if o.isLeaf && !context then .contextMissing else .unchanged else .specMissing) := by
    have hleaf : ((v.draft p).record stamp o).isLeaf = o.isLeaf := rfl
    have hspecHash : ¬ ((v.draft p).record stamp o).specHash ≠ p.digest v.spec := not_not.2 rfl
    have hcontextHash : ¬ ((v.draft p).record stamp o).contextHash ≠ v.context.fingerprint p.digest := not_not.2 rfl
    rw [reasonFor, if_neg hspecHash, if_neg hcontextHash, hs, hc, hleaf]
    cases spec <;> cases o.isLeaf <;> cases context <;> rfl
  rw [examine, difference, hread]
  show (reasonFor _ _ _ _ _ _).bind _ = _
  rw [hreason]
  rfl

/-- The record of a leaf without text. -/
def blankRecord (names : List String) : Record :=
  ((blankVisit names).draft pairPolicy.node).record pairPolicy.node.stamp .plain

theorem isKept_blankRecord (names : List String) : (blankRecord names).IsKept := ⟨_, _, _, rfl⟩

/-- A blank node is examined that has a record. -/
theorem examine_blank (names : List String) {place : Place} {spec context : Bool}
    (hf : s.find true (metaPath directory (blankVisit names).path)
      = .ok (place, fileOf (recordText (blankRecord names))))
    (hs : s.isFile (planPath directory (blankVisit names).path) = .ok spec)
    (hc : s.isFile (contextPath directory (blankVisit names).path) = .ok context) :
    ∃ dif, examine pairPolicy.node s directory (blankVisit names) = .ok (dif, [])
      ∧ dif.previous = some (blankRecord names) ∧ dif.isStale = !(spec && context) :=
  ⟨_, examine_of_find (o := .plain) (by decide) hf hs hc, rfl, by cases spec <;> cases context <;> rfl⟩

section

variable (text spec context : String)

/-- Of the first node there is just a record. -/
def recordedEntries : List (Place × Entry) := renewedEntries [("node.plan.aid.meta.json", text)]

/-- The record is found, and the artifacts that it tells of are not. -/
theorem reads_recorded :
    let s := planWith (recordedEntries text)
    s.find true (metaPath "plan" "a") = .ok (["plan", "a", "node.plan.aid.meta.json"], fileOf text)
      ∧ s.isFile (planPath "plan" "a") = .ok false ∧ s.isFile (contextPath "plan" "a") = .ok false
      ∧ invalidate s "plan" "a" = (planWith clearedEntries, none) :=
  ⟨by cbv, by cbv, by cbv, invalidate_of_removeTree "plan/a" (by decide) (by cbv) (by cbv) (by cbv)⟩

/-- The first node's directory is a link to that of the second one. -/
def sharedEntries (files : List (String × String)) : List (Place × Entry) :=
  [(["plan", "a"], .link ["plan", "c"]), (["plan", "c"], .directory)]
    ++ files.map fun f => (["plan", "c", f.1], fileOf f.2)

/-- The record is found where the link leads, and the link is not removed. -/
theorem reads_shared :
    let s := planWith (sharedEntries [("node.plan.aid.meta.json", text)])
    s.find true (metaPath "plan" "a") = .ok (["plan", "c", "node.plan.aid.meta.json"], fileOf text)
      ∧ s.isFile (planPath "plan" "a") = .ok false ∧ s.isFile (contextPath "plan" "a") = .ok false
      ∧ invalidate s "plan" "a" = (s, some .linkedTree) :=
  ⟨by cbv, by cbv, by cbv, by cbv⟩

/-- The spec and the context are written where the link leads. -/
theorem writes_shared :
    let s := planWith (sharedEntries [("node.plan.aid.meta.json", text)])
    let t := planWith (sharedEntries [("node.plan.aid.meta.json", text), ("node.plan.aid", spec)])
    s.writeDeep (planPath "plan" "a") (.text spec) = (t, none)
      ∧ t.writeDeep (contextPath "plan" "a") (.text context)
        = (planWith (sharedEntries [("node.plan.aid.meta.json", text), ("node.plan.aid", spec),
            ("node.plan.aid.context.json", context)]), none) :=
  ⟨writeDeep_planWith _ _ _ (sharedEntries [("node.plan.aid.meta.json", text)])
      "plan/a/node.plan.aid" "plan/a" ["plan", "c", "node.plan.aid"]
      (by cbv) (by simp [Path.directory]) (by cbv) (by cbv) rfl rfl,
    writeDeep_planWith _ _ _ (sharedEntries [("node.plan.aid.meta.json", text), ("node.plan.aid", spec)])
      "plan/a/node.plan.aid.context.json" "plan/a" ["plan", "c", "node.plan.aid.context.json"]
      (by cbv) (by simp [Path.directory]) (by cbv) (by cbv) rfl rfl⟩

/-- The record is found together with what has been written. -/
theorem reads_written :
    let s := planWith (sharedEntries [("node.plan.aid.meta.json", text), ("node.plan.aid", spec),
      ("node.plan.aid.context.json", context)])
    s.find true (metaPath "plan" "a") = .ok (["plan", "c", "node.plan.aid.meta.json"], fileOf text)
      ∧ s.isFile (planPath "plan" "a") = .ok true ∧ s.isFile (contextPath "plan" "a") = .ok true :=
  ⟨by cbv, by cbv, by cbv⟩

end

theorem wellFormed_recorded : (planWith (recordedEntries (recordText (blankRecord ["a"])))).WellFormed :=
  wellFormed_of_entries (by decide) (by decide)

/-! ## Compiling a node -/

/-- **What the result of a node tells.** Let the record that is used again, if one is, be as a compilation leaves it.
Then the stages of the result agree with the rest of it. The provider is asked just if no record is used again, the
node calls for it and it may be asked; if it is not asked, it makes no difference, and if it is, the result has what
it answered. After its failure the node is a leaf, and the comparison with its record says that it has to be compiled,
unless a file outlives the compilation where the record is looked for. None does if nothing is told of files, the plan
directory leads to its place whatever lies below, and no link stands on the way from it to the node. -/
theorem compileNode_tells (h0 : directory.contains '\x00' = false) (hv : IsAncestry v.ancestry)
    (hx : examine p s directory v = .ok (dif, lines))
    (hkept : dif.isStale = false → ∀ record ∈ dif.previous, record.IsKept) (mayAsk : Bool)
    (provider : Request → Except Failure Expansion) :
    ∃ t r, compileNode p s directory v mayAsk provider = .ok (t, r) ∧ r.Consistent ∧ r.Accords p v dif mayAsk
      ∧ (r.providerCalled = false → ∀ other, compileNode p s directory v mayAsk other = .ok (t, r))
      ∧ (r.providerCalled = true → ∀ e, provider v.request = .ok e →
          r.children = e.children ∧ r.questions = e.questions ∧ r.considerations = e.considerations)
      ∧ (r.providerCalled = true → ∀ f, provider v.request = .error f →
          r.isLeaf = true
            ∧ (∀ d lines, difference p.digest t directory v.path v.spec v.context = .ok (d, lines) →
              d.isStale = true ∨ Outlives s t (metaPath directory v.path) v.spec)
            ∧ ∀ base names made, s.Opens directory base made → s.WellFormed → v.ancestry = rootName :: names →
              made.Straight base names → Quiet r.errors →
              ∃ d lines, difference p.digest t directory v.path v.spec v.context = .ok (d, lines)
                ∧ d.isStale = true) := by
  rcases compileNode_cases h0 hv hx mayAsk provider with
    ⟨record, hj, hc⟩ | ⟨hj, rfl, hc⟩ | ⟨t, d, hj, hd, hc, hcarry⟩
  · obtain ⟨-, hfresh, hprevious⟩ := judge_eq_reuse_iff.1 hj
    refine ⟨s, _, hc, consistent_reuse (hkept hfresh record hprevious) v _, accords_reuse hj mayAsk,
      fun _ other => ?_, fun hcalled => absurd hcalled Bool.false_ne_true,
      fun hcalled => absurd hcalled Bool.false_ne_true⟩
    rw [← hc]
    exact compileNode_congr hx (.inl (by rw [hj]; exact nofun)) _ _
  · refine ⟨s, _, hc, consistent_skip v, accords_skip hj, fun _ other => ?_,
      fun hcalled => absurd hcalled Bool.false_ne_true, fun hcalled => absurd hcalled Bool.false_ne_true⟩
    rw [← hc]
    exact compileNode_congr hx (.inr rfl) _ _
  have hasked (hcalled : (d.result (v.outcome p.smallSpec provider)).providerCalled = true) :
      v.outcome p.smallSpec provider = .ofReply (provider v.request) := by
    have hopen := isPlainLeaf_eq_false_iff.2 ((asked_outcome p.smallSpec v provider).1 hcalled)
    rw [Visit.outcome, if_neg (Bool.eq_false_iff.1 hopen)]
  refine ⟨t, _, hc, consistent_result (isLeaf_of_not_asked p.smallSpec v provider) d, accords_result hj d provider,
    fun hcalled other => ?_, fun hcalled e he => ?_, fun hcalled f hf => ⟨?_, fun d' told hd' => ?_, ?_⟩⟩
  · rw [← hc]
    refine (compileNode_congr hx (.inl fun hask => ?_) provider other).symm
    have hopen := isPlainLeaf_eq_false_iff.1 (isPlainLeaf_of_judge.2 hask)
    exact Bool.eq_false_iff.1 hcalled ((asked_outcome p.smallSpec v provider).2 hopen)
  · rw [hasked hcalled, he]
    exact ⟨rfl, rfl, rfl⟩
  · rw [hasked hcalled, hf]
    rfl
  · refine or_iff_not_imp_left.2 fun hfresh => ?_
    have hfailed : (v.outcome p.smallSpec provider).failure.isSome = true := by
      rw [hasked hcalled, hf]
      rfl
    exact outlives_of_carryOut hcarry hfailed hd' (Bool.of_not_eq_true hfresh)
  · intro base names made hopens hs hanc hl hquiet
    have hn : ∀ n ∈ names, IsNodeName n := by
      obtain ⟨names', hanc', hn⟩ := hv
      obtain rfl := (List.cons.inj (hanc.symm.trans hanc')).2
      exact hn
    obtain ⟨hhouses, -⟩ := carryOut_leaves hopens hs hanc hn hl hx hcarry hquiet
    refine ⟨_, _, hhouses.examine_eq hanc hn ?_ hx, rfl⟩
    rw [hasked hcalled, hf]
    rfl

/-- The provider fails for a node whose spec is missing, which is then to be compiled again. A node whose artifacts
are there is used again. -/
theorem compileNode_tells_recorded :
    (∃ t r, compileNode pairPolicy.node (planWith (recordedEntries (recordText (blankRecord ["a"])))) "plan"
        (blankVisit ["a"]) true breaksDown = .ok (t, r)
      ∧ r.Consistent ∧ r.providerCalled = true ∧ r.isLeaf = true
      ∧ ∃ d lines, difference pairPolicy.node.digest t "plan" (blankVisit ["a"]).path (blankVisit ["a"]).spec {}
          = .ok (d, lines) ∧ d.isStale = true)
    ∧ ∃ t r, compileNode pairPolicy.node (planWith (sharedEntries
          [("node.plan.aid.meta.json", recordText (blankRecord ["a"])), ("node.plan.aid", ""),
            ("node.plan.aid.context.json", "")])) "plan" (blankVisit ["a"]) true breaksDown = .ok (t, r)
      ∧ r.Consistent ∧ r.cacheHit = true := by
  have hv : IsAncestry (blankVisit ["a"]).ancestry := ⟨["a"], rfl, List.forall_mem_singleton.2 isNodeName_a⟩
  refine ⟨?_, ?_⟩
  · obtain ⟨hf, hs, hcontext, hi⟩ := reads_recorded (recordText (blankRecord ["a"]))
    obtain ⟨dif, hx, -, hstale⟩ := examine_blank ["a"] hf hs hcontext
    obtain ⟨r, hc, ⟨-, -, hquiet⟩, hcalled⟩ := exists_compileNode_breaksDown _ hx hstale hi
      (writes_cleared _ "").1 (writes_cleared _ _).2
    obtain ⟨t', r', hc', hconsistent, -, -, -, hfailed⟩ := compileNode_tells (noZero_iff.2 (by decide)) hv hx
      (fun hfresh => absurd (hstale.symm.trans hfresh) (by decide)) true breaksDown
    obtain ⟨rfl, rfl⟩ := Prod.mk.inj (Except.ok.inj (hc.symm.trans hc'))
    obtain ⟨hleaf, -, hretried⟩ := hfailed hcalled _ rfl
    exact ⟨_, r, hc, hconsistent, hcalled, hleaf, hretried ["plan"] ["a"] _ (.inl ⟨anchored_planWith _, rfl⟩)
      wellFormed_recorded rfl ((straight_nil rfl).concat fun _ => nofun) (hquiet rfl)⟩
  · obtain ⟨hf, hs, hcontext⟩ := reads_written (recordText (blankRecord ["a"])) "" ""
    obtain ⟨dif, hx, hprevious, hfresh⟩ := examine_blank ["a"] hf hs hcontext
    obtain ⟨t, r, hc, hconsistent, haccords, -⟩ := compileNode_tells (noZero_iff.2 (by decide)) hv hx
      (fun _ record hr => Option.some.inj (hprevious.symm.trans hr) ▸ isKept_blankRecord ["a"]) true breaksDown
    exact ⟨t, r, hc, hconsistent, haccords.hit.2 ⟨rfl, hfresh, by rw [hprevious]; rfl⟩⟩

/-- **A record may outlive a failure.** The node's directory is a link, so that nothing is removed; the provider fails,
and then the old record is taken for that of this compilation. -/
theorem stale_record_stays :
    let s := planWith (sharedEntries [("node.plan.aid.meta.json", recordText (blankRecord ["a"]))])
    let v := blankVisit ["a"]
    (blankRecord ["a"]).IsKept
      ∧ (∃ dif, examine pairPolicy.node s "plan" v = .ok (dif, []) ∧ dif.previous = some (blankRecord ["a"])
        ∧ dif.isStale = true)
      ∧ ∃ t r d, compileNode pairPolicy.node s "plan" v true breaksDown = .ok (t, r)
        ∧ r.providerCalled = true ∧ breaksDown v.request = .error ⟨.timeout, "late"⟩
        ∧ difference pairPolicy.node.digest t "plan" v.path v.spec v.context = .ok (d, []) ∧ d.isStale = false := by
  intro s v
  obtain ⟨hf, hs, hcontext, hi⟩ := reads_shared (recordText (blankRecord ["a"]))
  obtain ⟨dif, hx, hprevious, hstale⟩ := examine_blank ["a"] hf hs hcontext
  obtain ⟨r, hc, -, hcalled⟩ := exists_compileNode_breaksDown _ hx hstale hi
    (writes_shared _ _ "").1 (writes_shared _ _ _).2
  obtain ⟨hf', hs', hcontext'⟩ := reads_written (recordText (blankRecord ["a"])) _ _
  obtain ⟨d, hd, -, hfresh⟩ := examine_blank ["a"] hf' hs' hcontext'
  exact ⟨isKept_blankRecord ["a"], ⟨dif, hx, hprevious, hstale⟩, _, r, d, hc, hcalled, rfl, hd, hfresh⟩

end SpecTree.Plan
