import Mathlib
import SpecTree.Proofs.Plan.Authorship
import SpecTree.Proofs.Plan.Single

/-!
# A tree of two nodes

A node that is asked about takes three moves (`run_replied`): it is visited and waits for a call, the call is
sent, its reply is taken. A root that the provider breaks down into one plain leaf is compiled in four
(`exists_run_pair`), as the leaf is visited only.

The least such compilation leaves the spec that the provider wrote, its digest and its context, whatever the
spec is (`exists_run_pairSession`).
-/

namespace SpecTree.Plan

open Spec TreeState

variable {s : Store} {p : TreePolicy} {base : Place} {root : Spec.Document} {e : Expansion} {v : Visit}
  {name : String}

/-! ## A node that is asked about -/

/-- A node is asked about, and its reply leaves the store `t` and the result `r`. -/
def Replied (k : NodePolicy) (directory : String) (s : Store) (v : Visit) (reply : Except Failure Expansion)
    (t : Store) (r : NodeResult) : Prop :=
  ∃ dif lines d t' lines', examine k s directory v = .ok (dif, lines) ∧ judge k v dif = .ask
    ∧ prepare s directory v dif = .ok (t', d)
    ∧ { d with lines := [] }.finish k.stamp t' directory (.ofReply reply) = .ok (t, r, lines')

theorem judge_draft {k : NodePolicy} (hleaf : v.isPlainLeaf k.smallSpec = false) :
    judge k v (v.draft k).difference = .ask := by
  rw [Visit.draft, judge_of_notCompiled, if_neg (by simp [hleaf])]

/-- **A node that is not there yet, and is no plain leaf,** is asked about; the reply leaves its artifacts. -/
theorem exists_replied {shelf : Shelf} {names : List String} {directory : String}
    (h : Shelved s directory base shelf) (hv : v.ancestry = rootName :: names)
    (hn : ∀ n ∈ names, IsNodeName n) (hup : HasParents shelf names) (hq : shelf names = none)
    (hfits : Fits directory names) {k : NodePolicy} (hleaf : v.isPlainLeaf k.smallSpec = false)
    (reply : Except Failure Expansion) :
    ∃ t d q, Replied k directory s v reply t (Draft.result d (.ofReply reply)) ∧ d.visit = v
      ∧ Shelved t directory base (shelf.replace names q)
      ∧ ((Outcome.ofReply reply).isLeaf = false → q.context = none) := by
  have hexamine : examine k s directory v = .ok ((v.draft k).difference, []) := h.examine_of_none k hv hq hn hup hfits
  obtain ⟨t', hprepare, ht'⟩ := h.prepare hv hn hup hfits (v.draft k).difference
  obtain ⟨t, d, lines, q, hfinish, hd, ht, hl, -⟩ :=
    ht'.finish (d := v.draft k) hv (Shelf.replace_self ..) k.stamp (.ofReply reply)
  rw [Shelf.replace, Shelf.put_put] at ht
  refine ⟨t, d, q, ⟨_, [], _, t', lines, hexamine, judge_draft hleaf, hprepare, hfinish⟩, hd, ht, fun hleaf => ?_⟩
  exact hl.context.resolve_right fun h => Bool.false_ne_true (hleaf.symm.trans h.1)

/-- A node without a record is asked about, and all that is to be written about it can be: the stores that the
writes leave lead from the first one to the last. -/
theorem exists_replied_of_writes {s' t t₁ t₂ t₃ : Store} {directory : String} {k : NodePolicy}
    {failure : Option FileError} (reply : Except Failure Expansion) (path : String) (hpath : v.path = path)
    (hleaf : v.isPlainLeaf k.smallSpec = false) (hrec : s.isFile (metaPath directory path) = .ok false)
    (hi : invalidate s directory path = (s', failure))
    (hw : writeSpec s' directory path v.spec = (t, none))
    (hc : if (Outcome.ofReply reply).isLeaf then writeContext t directory path v.context = (t₁, none) else t = t₁)
    (hq : let q := (v.draft k).questionnaire (.ofReply reply)
      if q.questions.isEmpty && q.considerations.isEmpty then t₁ = t₂
      else writeQuestions t₁ directory path q = (t₂, none))
    (hr : if (Outcome.ofReply reply).failure.isSome then t₂ = t₃
      else writeRecord t₂ directory path ((v.draft k).record k.stamp (.ofReply reply)) = (t₃, none)) :
    ∃ r, Replied k directory s v reply t₃ r := by
  subst hpath
  have hexamine : examine k s directory v = .ok ((v.draft k).difference, []) := by
    rw [examine, difference, readRecord, readJson, hrec]
    rfl
  obtain ⟨errors, hprepare⟩ : ∃ errors, prepare s directory v (v.draft k).difference
      = .ok (t, { v.draft k with errors }) := by
    rw [prepare, hi]
    dsimp only
    rw [hw]
    exact ⟨_, rfl⟩
  have hfinish := Draft.finish_of_writes (d := { v.draft k with errors }) k.stamp hc hq hr
  exact ⟨_, _, _, _, t, _, hexamine, judge_draft hleaf, hprepare, hfinish⟩

/-- The result of a node that is asked about. -/
theorem Replied.exists_draft {k : NodePolicy} {directory : String} {reply : Except Failure Expansion} {t : Store}
    {r : NodeResult} (h : Replied k directory s v reply t r) :
    ∃ d : Draft, r = d.result (.ofReply reply) ∧ d.visit = v := by
  obtain ⟨dif, lines, d, t', lines', -, -, hd, hf⟩ := h
  have hdv := (prepare_eq_ok hd).2
  obtain ⟨d', rfl, hv'⟩ := result_of_finish hf
  exact ⟨d', rfl, hv'.trans hdv⟩

theorem compile_of_judge_ask {t : TreeState} {dif : Difference} {lines : List Log.Line}
    (he : examine p.node t.store p.directory v = .ok (dif, lines)) (hj : judge p.node v dif = .ask) :
    t.compile p v = (t.tell lines).ask p v dif := by
  unfold compile
  rw [he]
  dsimp only
  rw [hj]

/-- **A node is asked about** while nothing else is to be done: it is visited, its call is sent, and the reply is
taken. -/
theorem run_replied {t : TreeState} (hr : t.ready = [.visit v]) (hw : t.waiting = []) (hi : t.inFlight = [])
    (hex : t.exceeded = none) (hn : t.visited < p.maxNodes) (hc : t.calls < p.maxCalls)
    {reply : Except Failure Expansion} {store : Store} {r : NodeResult}
    (h : Replied p.node p.directory t.store v reply store r) :
    (∃ requests peak metrics lines, t.run p [.start 0, .grant 0, .finish 0 reply] = ({ t with
      ready := [], visited := t.visited + 1, calls := t.calls + 1, requests, peak, metrics, store, lines } :
        TreeState).record r)
      ∧ ∀ mayReply : Request → Except Failure Expansion → Prop, mayReply v.request reply →
        Follows p mayReply t [.start 0, .grant 0, .finish 0 reply] := by
  obtain ⟨dif, lines, d, store₁, lines', he, hj, hd, hf⟩ := h
  have hdv := (prepare_eq_ok hd).2
  obtain ⟨store₀, _, families, _, _, visited, calls, _, results, skipped, failures, errors, requests, peak,
    metrics, told⟩ := t
  dsimp only at hr hw hi hex
  subst hr hw hi hex
  let t : TreeState := ⟨store₀, [], families, [], [], visited + 1, calls, none, results, skipped, failures, errors,
    requests, peak, metrics, told⟩
  have hask := (compile_of_judge_ask (t := t) he hj).trans (ask_of_lt (s := t.tell lines) rfl hc hd)
  have hstart := (step_visit_of_lt rfl rfl hn).trans hask
  have hgrant := (congrArg (step p · (.grant 0)) hstart).trans (if_pos p.slots_pos)
  refine ⟨⟨_, _, _, _, (congrArg (step p · (.finish 0 reply)) hgrant).trans (conclude_of_finish hf)⟩, ?_⟩
  intro mayReply hm
  refine ⟨trivial, trivial, ?_, trivial⟩
  rw [hgrant]
  intro d' hd'
  obtain rfl := Option.some.inj hd'
  show mayReply d.visit.request reply
  rwa [hdv]

theorem store_record (t : TreeState) (r : NodeResult) : (t.record r).store = t.store :=
  congrArg Census.store (census_record t r)

/-- A node with one child calls for it. -/
theorem record_of_visitsBelow {t : TreeState} {r : NodeResult} (h : visitsBelow r = [v]) :
    t.record r = { t with
      results := t.results ++ [r]
      metrics := t.metrics.countNode r.isLeaf r.cacheHit
      families := ⟨r.ancestry, [v.ancestry], [v.ancestry]⟩ :: t.families
      ready := t.ready ++ [.visit v] } := by
  rw [record, h]
  rfl

/-- When the only child of the root has come to its end, so does the compilation. -/
theorem run_notice_child {t : TreeState} (hr : t.ready = [.notice [rootName, name]])
    (hf : t.families = [⟨[rootName], [[rootName, name]], [[rootName, name]]⟩]) (hx : t.failures = []) :
    t.run p [.start 0, .start 0, .start 0] = { t with ready := [], families := [] } := by
  obtain ⟨store, _, _, waiting, inFlight, visited, calls, exceeded, results, skipped, _, errors, requests, peak,
    metrics, lines⟩ := t
  dsimp only at hr hf hx
  subst hr hf hx
  simp [run, step, start, notice, resume, failureMessages, TreeState.tell, await]

/-! ## A shelf of two nodes -/

theorem hasParents_singleton {shelf : Shelf} {q : Papers} (h : shelf [] = some q) :
    HasParents shelf [name] := by
  intro ns n he
  obtain ⟨rfl, -⟩ := List.append_inj' (show [] ++ [name] = ns ++ [n] from he) rfl
  exact ⟨q, h⟩

/-- A node that is not there is put on a shelf with the root only. -/
theorem replace_singleton (q q' : Papers) :
    (Shelf.empty.put [] q).replace [name] q' = (Shelf.empty.put [] q).put [name] q' := by
  have hwipe : (Shelf.empty.put [] q).wipe [name] = Shelf.empty.put [] q := by
    funext ns
    by_cases hp : [name] <+: ns
    · have hne : ns ≠ [] := by
        rintro rfl
        simp at hp
      rw [Shelf.wipe_of_prefix _ hp, Shelf.put_of_ne _ hne, Shelf.empty_apply]
    · exact Shelf.wipe_of_not_prefix _ hp
  rw [Shelf.replace, hwipe]

theorem put_put_nil (q q' : Papers) : (Shelf.empty.put [] q).put [name] q' [] = some q := by
  rw [Shelf.put_of_ne _ (by simp), Shelf.put_self]

theorem put_put_cases {q q' r : Papers} {names : List String}
    (h : (Shelf.empty.put [] q).put [name] q' names = some r) :
    names = [name] ∧ r = q' ∨ names = [] ∧ r = q := by
  rcases Shelf.put_cases h with h | ⟨-, h⟩
  · exact .inl h
  · rcases Shelf.put_cases h with h | ⟨-, h⟩
    · exact .inr h
    · cases h

/-! ## The run -/

theorem visitsBelow_result (d : Draft) (e : Expansion) :
    visitsBelow (d.result (.ofReply (.ok e))) = d.visit.below e := rfl

/-- A root that is no plain leaf is asked about, and its one child is to be visited. -/
theorem exists_run_root (h : Shelved s p.directory base Shelf.empty) (hfits : Fits p.directory [])
    (hroot : (rootVisit root).isPlainLeaf p.node.smallSpec = false)
    (hbelow : (rootVisit root).below e = [v]) (hn : 0 < p.maxNodes) (hc : 0 < p.maxCalls)
    (metrics : Metrics) :
    ∃ t q, (initial s root metrics).run p [.start 0, .grant 0, .finish 0 (.ok e)] = t
      ∧ t.ready = [.visit v] ∧ t.exceeded = none ∧ t.visited = 1
      ∧ Shelved t.store p.directory base (Shelf.empty.put [] q) ∧ q.context = none := by
  obtain ⟨store, d, q, hreplied, hd, hstore, hcontext⟩ := exists_replied h (v := rootVisit root) rfl nofun
    (hasParents_nil _) rfl hfits hroot (.ok e)
  obtain ⟨⟨_, _, _, _, hrun⟩, -⟩ := run_replied (t := initial s root metrics) rfl rfl rfl rfl hn hc
    hreplied
  have hvisits : visitsBelow (d.result (.ofReply (.ok e))) = [v] := by rw [visitsBelow_result, hd, hbelow]
  have hchildren : (Outcome.ofReply (.ok e)).isLeaf = false := Bool.eq_false_iff.2 fun h => by
    rw [visitsBelow_of_isLeaf h] at hvisits
    cases hvisits
  rw [record_of_visitsBelow hvisits] at hrun
  rw [Shelf.replace, Shelf.wipe_nil] at hstore
  exact ⟨_, q, hrun, rfl, rfl, rfl, hstore, hcontext hchildren⟩

/-- **A root with one plain leaf below it.** The root has no context afterwards, and the leaf has one, if
there is room for its path. -/
theorem exists_run_pair (h : Shelved s p.directory base Shelf.empty) (hfits : Fits p.directory [])
    (hfits' : Fits p.directory [name]) (hname : IsNodeName name)
    (hroot : (rootVisit root).isPlainLeaf p.node.smallSpec = false)
    (hbelow : (rootVisit root).below e = [v]) (hv : v.ancestry = [rootName, name])
    (hleaf : v.isPlainLeaf p.node.smallSpec = true) (hn : 1 < p.maxNodes) (hc : 0 < p.maxCalls)
    (metrics : Metrics) :
    ∃ q q' d errors, Shelved ((initial s root metrics).run p
          [.start 0, .grant 0, .finish 0 (.ok e), .start 0]).store p.directory base
        ((Shelf.empty.put [] q).put [name] q')
      ∧ q.context = none ∧ d.visit = v ∧ HasDigests p d.visit d.difference
      ∧ Leaves d p.node.stamp .plain errors q'
      ∧ ((Artifact.context.path p.directory [name]).utf8ByteSize < Store.pathLimit →
        (Artifact.questions.path p.directory [name]).utf8ByteSize < Store.pathLimit →
        q'.context = some v.context) := by
  obtain ⟨t, q, ht, hready, hexceeded, hvisited, hstore, hcontext⟩ :=
    exists_run_root h hfits hroot hbelow (by omega) hc metrics
  have hrun : (initial s root metrics).run p [.start 0, .grant 0, .finish 0 (.ok e), .start 0]
      = t.step p (.start 0) := by
    rw [← ht]
    rfl
  have hup : HasParents (Shelf.empty.put [] q) [name] := hasParents_singleton (Shelf.put_self ..)
  have hfree : (Shelf.empty.put [] q) [name] = none := Shelf.put_of_ne _ (List.cons_ne_nil _ _) q
  obtain ⟨store, lines, d, d', q', hcompile, hstore', hd, hdigests, -, hl, hquiet⟩ :=
    exists_compile_plain (t := { t with ready := [], visited := t.visited + 1 }) hstore hv
      (List.forall_mem_singleton.2 hname) hup hfree hfits' hleaf
  have hlast : t.step p (.start 0) = _ :=
    (step_visit_of_lt hready hexceeded (by omega)).trans hcompile
  refine ⟨q, q', d, d'.errors, ?_, hcontext, hd, hdigests, hl, fun h1 h2 => ?_⟩
  · rw [hrun, hlast, store_record, ← replace_singleton]
    exact hstore'
  · rw [hquiet h1 h2] at hl
    rw [hl.context_eq rfl, hd]

/-! ## The least tree of two nodes -/

def pairPolicy : TreePolicy where
  directory := "plan"
  node := { digest := id, stamp := "2024-01-01T00:00:00", smallSpec := 0 }
  provider := ""

/-- A child that is marked as a leaf. -/
def pairChild (spec : String) : ChildSpec := { name := "a", spec, isLeaf := true }

/-- A root without text, about which the provider answers with one leaf. -/
def pairSession (spec : String) : Session where
  policy := pairPolicy
  root := emptyRoot
  metrics := { run := "", phase := "" }
  moves := [.start 0, .grant 0, .finish 0 (.ok { children := [pairChild spec] }), .start 0]

/-- The visit of the leaf. -/
def pairVisit (spec : String) : Visit where
  node := .statement (childNode (pairChild spec) "a" "a")
  ancestry := [rootName, "a"]
  markedLeaf := true

theorem below_emptyRoot {c : ChildSpec} (hc : c.name = "a") :
    (rootVisit emptyRoot).below { children := [c] }
      = [{ node := .statement (childNode c "a" "a"), ancestry := [rootName, "a"], context := c.context,
           markedLeaf := c.isLeaf }] := by
  have hnames : distinctNames ["a"] = ["a"] := by decide
  have hpath : nodePath (childAncestry [rootName] "a") = "a" := by decide
  simp only [Visit.below, visitsBelow, rootVisit, List.map_cons, List.map_nil, hc, hnames,
    List.zip_cons_cons, List.zip_nil_right, List.isEmpty_cons, Bool.false_eq_true, if_false, hpath]
  rfl

/-- No spec is small enough for the threshold zero: only a node that is marked as one is a plain leaf. -/
theorem isPlainLeaf_zero (v : Visit) : v.isPlainLeaf 0 = v.isMarked := by
  have hlength : ¬ (v.spec.length : Int) < 0 := by omega
  rw [Visit.isPlainLeaf, isSmall, decide_eq_false hlength, Bool.false_and, Bool.and_false, Bool.or_false]

theorem isNodeName_a : IsNodeName "a" where
  ne_nil := by decide
  isNameChar := List.forall_mem_singleton.2 (by decide : isNameChar 'a' = true)
  ne_root := by decide

theorem vacant_plan : Vacant .empty "plan" := by
  have hmake : Store.empty.makeDirectories "plan" = (Store.empty.set ["plan"] .directory, none) := by
    cbv
  refine ⟨by rw [hmake], ["plan"], by cbv, fun rel hr => ?_⟩
  rw [hmake, Store.entry?_set _ (by simp), if_neg (by simpa using hr), Store.entry?_of_ne_nil _ (by simp)]
  rfl

/-- **The leaf is written** with its context, and with a record that has the digest of its spec. -/
theorem exists_run_pairSession (spec : String) :
    ∃ base q q', Shelved ((pairSession spec).run .empty).store "plan" base
        ((Shelf.empty.put [] q).put ["a"] q')
      ∧ q.context = none ∧ q'.spec = (pairVisit spec).spec
      ∧ q'.context = some (pairVisit spec).context
      ∧ ∃ rec, q'.legible = some rec ∧ rec.specHash = (pairVisit spec).spec := by
  obtain ⟨base, hs⟩ := vacant_plan.shelved
  have hroot : (rootVisit emptyRoot).isPlainLeaf 0 = false := isPlainLeaf_zero _
  have hleaf : (pairVisit spec).isPlainLeaf 0 = true := rfl
  obtain ⟨q, q', d, errors, hstore, hcontext, hd, hdigests, hl, hquiet⟩ :=
    exists_run_pair (p := pairPolicy) hs ⟨by decide, fun _ hn => absurd hn List.not_mem_nil⟩
      ⟨by decide, by decide⟩ isNodeName_a
      hroot (below_emptyRoot rfl) rfl hleaf (by decide) (by decide) (pairSession spec).metrics
  have hstamp : Stamp.isStamp pairPolicy.node.stamp = true := by decide
  exact ⟨base, q, q', hstore, hcontext, hl.spec.trans (congrArg Visit.spec hd),
    hquiet (by decide) (by decide), _, Papers.legible_eq_some.2 ⟨hl.record, hstamp⟩,
    hdigests.1.trans (congrArg Visit.spec hd)⟩

/-- The record that is read has the digest of the spec. -/
theorem exists_readRecord_pair (spec : String) :
    ∃ rec lines, readRecord ((pairSession spec).run .empty).store "plan" "a" = .ok (some rec, lines)
      ∧ rec.specHash = pairPolicy.node.digest (pairVisit spec).spec := by
  obtain ⟨base, q, q', hstore, -, -, -, rec, hrec, hspec⟩ := exists_run_pairSession spec
  have hread := hstore.readRecord (List.forall_mem_singleton.2 isNodeName_a)
    (hasParents_singleton (put_put_nil q q'))
  rw [if_pos (hstore.fits (Shelf.put_self ..)), Shelf.put_self,
    show nodePath (rootName :: ["a"]) = "a" by decide] at hread
  change _ = Except.ok q'.legible at hread
  rw [hrec] at hread
  cases h : readRecord ((pairSession spec).run .empty).store "plan" "a" with
  | error e =>
    rw [h] at hread
    cases hread
  | ok x =>
    obtain ⟨found, lines⟩ := x
    rw [h] at hread
    cases hread
    exact ⟨rec, lines, rfl, hspec⟩

/-- The text of the leaf, if that is one parameter. -/
theorem spec_pairVisit {spec name value : String} {span : Span}
    (hc : (parseSource "<a>" spec).document.children = [.param name value span])
    (hp : (parseSource "<a>" spec).problems = []) :
    (pairVisit spec).spec = Statement.renderAll 0 [.param name value span] := by
  have hchildren : childStatements (pairChild spec) "<a>" = [.param name value span] := by
    unfold childStatements
    simp only [show (pairChild spec).spec = spec from rfl, hc, hp]
    rfl
  show (Node.statement (.module _ (childStatements (pairChild spec) "<a>") _)).renderBody = _
  rw [hchildren]
  rfl

end SpecTree.Plan
