import SpecTree.Proofs.Build.Discovery
import SpecTree.Proofs.Build.Rows
import SpecTree.Proofs.Plan.Artifacts
import SpecTree.Proofs.Plan.History
import SpecTree.Proofs.Plan.Pair
import SpecTree.Proofs.Spec.Reading

/-!
# From a compilation to a build

A build reads from the plan directory what a compilation has written there. Each call that it makes about a
leaf has the context that the leaf was compiled with, and its spec as it is read back from a file: the same
text, unless it has a carriage return (`handed_over`). Every leaf that is executed is asked about.

1. As long as the spec and the context of a visit lie in files, what is asked about it is settled
   (`Filed.requestFor`).
2. They stay in their files while files at other places are written (`Filed.deliver`).
3. `Supplied` says so of a build as a whole; every move keeps it (`Supplied.step`), unless a file that is
   written takes the place of an artifact. None does where the two directories lie apart
   (`Move.spares_of_apart`).
4. The leaves that are found after a compilation are supplied (`exists_filed`).
-/

namespace SpecTree

open Store

/-! ## Texts that are read back -/

/-- A text as it is read back from a file. -/
def readBack (text : String) : String := String.ofList (Text.unifyLineEnds text.toList)

theorem not_mem_unifyLineEnds (cs : List Char) : '\r' ∉ Text.unifyLineEnds cs := by
  fun_induction Text.unifyLineEnds cs with
  | case1 => exact List.not_mem_nil
  | case2 cs ih => exact List.not_mem_cons_of_ne_of_not_mem (by decide) ih
  | case3 cs _ ih => exact List.not_mem_cons_of_ne_of_not_mem (by decide) ih
  | case4 c cs _ hc ih => exact List.not_mem_cons_of_ne_of_not_mem (fun h => hc h.symm) ih

/-- **A text is read back as it was**, just if it has no carriage return. -/
theorem readBack_eq_self_iff {text : String} : readBack text = text ↔ '\r' ∉ text.toList := by
  constructor
  · intro h hr
    rw [← h, readBack, String.toList_ofList] at hr
    exact not_mem_unifyLineEnds _ hr
  · intro h
    rw [readBack, Json.unifyLineEnds_of_not_mem h, String.ofList_toList]

theorem readText_of_find {s : Store} {path text : String} {p : Place}
    (h : s.find true path = .ok (p, .file (.text text))) : s.readText path = .ok (readBack text) := by
  rw [readText, h]
  rfl

namespace Plan

/-- What a build asks about a visit. -/
def Visit.handedOver (v : Visit) : Request := ⟨v.path, readBack v.spec, v.context⟩

/-- **A build asks what a compilation asks**, just if the spec has no carriage return. -/
theorem Visit.handedOver_eq_request_iff {v : Visit} :
    v.handedOver = v.request ↔ '\r' ∉ v.spec.toList := by
  rw [← readBack_eq_self_iff, handedOver, request, Request.mk.injEq]
  simp

end Plan

namespace Build

open SpecTree.Path Plan OutputPath Spec

variable {s : Store} {plan node path : String} {v : Visit} {b : Site} {c : Claims} {leaves : List Leaf}

/-! ## Artifacts in their files -/

/-- The spec and the context of a visit lie in their files. -/
structure Filed (s : Store) (plan : String) (v : Visit) : Prop where
  plain : s.Plain
  spec : s.find true (planPath plan v.path) = .ok (placeOf (planPath plan v.path), fileOf v.spec)
  context : s.find true (contextPath plan v.path)
    = .ok (placeOf (contextPath plan v.path), fileOf (contextText v.context))

/-- **What is asked about a visit** whose artifacts lie in their files. -/
theorem Filed.requestFor (h : Filed s plan v) :
    requestFor s plan v.path = .ok (some v.handedOver) := by
  have hspec : readSpec s plan v.path = .ok (some (readBack v.spec)) := by
    have hfile : s.isFile (planPath plan v.path) = .ok true := ask_of_find h.spec _
    simp only [readSpec, hfile, readText_of_find h.spec, bind, Except.bind, if_true]
    rfl
  simp only [Build.requestFor, hspec, readContext_of_find h.context, bind, Except.bind]
  rfl

/-- A path does not lead to the spec or the context of a node. -/
def Spares (plan node path : String) : Prop :=
  placeOf (planPath plan node) ≠ placeOf path ∧ placeOf (contextPath plan node) ≠ placeOf path

theorem Filed.writeDeep (h : Filed s plan v) (hp : Spares plan v.path path) (content : Content) :
    Filed (s.writeDeep path content).1 plan v where
  plain := plain_writeDeep h.plain path content
  spec := find_of_writeDeep_elsewhere h.plain h.spec hp.1
  context := find_of_writeDeep_elsewhere h.plain h.context hp.2

theorem Filed.writeFiles {output : String} {p : Progress} {files : List GeneratedFile}
    (h : Filed p.store plan v)
    (hf : ∀ f ∈ files, Spares plan v.path (assemble [output, f.path])) :
    Filed (writeFiles output p files).1.store plan v := by
  induction files generalizing p with
  | nil => exact h
  | cons f files ih =>
    obtain ⟨hfile, hfiles⟩ := List.forall_mem_cons.1 hf
    have hwritten := h.writeDeep hfile (.text f.content)
    rw [writeFiles_cons]
    generalize p.store.writeDeep (assemble [output, f.path]) (.text f.content) = written at hwritten
    obtain ⟨t, failure⟩ := written
    cases failure with
    | none => exact ih hwritten hfiles
    | some e =>
      dsimp only
      split
      · exact ih hwritten hfiles
      · exact hwritten

theorem Filed.writeQuestions {p : Progress} (h : Filed p.store plan v)
    (hq : Spares plan v.path (questionsPath plan node)) (answer : Production) :
    Filed (writeQuestions plan node answer p).1.store plan v := by
  unfold Build.writeQuestions Plan.writeQuestions
  split
  · exact h
  · dsimp only
    have hwritten := h.writeDeep hq
      (.text (questionsText ⟨node, answer.questions, answer.considerations⟩))
    generalize p.store.writeDeep (questionsPath plan node) _ = written at hwritten
    obtain ⟨t, failure⟩ := written
    cases failure with
    | none => exact hwritten
    | some e =>
      dsimp only
      split <;> exact hwritten

/-- **What is written for a leaf leaves other artifacts alone**, unless a file of the answer takes the place
of one. -/
theorem Filed.deliver (h : Filed s b.plan v) {answer : Production}
    (hf : ∀ f ∈ (accept answer.files).1, Spares b.plan v.path (assemble [b.output, f.path]))
    (hq : Spares b.plan v.path (questionsPath b.plan node)) :
    Filed (deliver b s c node answer).1 b.plan v := by
  have hfinal : ∀ f ∈ (accept answer.files).1.map (b.finalFile node),
      Spares b.plan v.path (assemble [b.output, f.path]) := by
    refine List.forall_mem_map.2 fun f hm => ?_
    rw [Site.path_finalFile]
    exact hf f hm
  unfold Build.deliver
  generalize accept answer.files = accepted at hfinal
  obtain ⟨files, refused⟩ := accepted
  dsimp only at hfinal ⊢
  split
  · exact h
  next claimed hc =>
  have hfiles := Filed.writeFiles (p := { store := s, errors := refused }) h hfinal
  split
  · next hw => rwa [hw] at hfiles
  next p hw =>
  rw [hw] at hfiles
  have hquestions := hfiles.writeQuestions hq answer
  split
  · next hw => rwa [hw] at hquestions
  · next hw => rwa [hw] at hquestions

/-! ## Builds that are supplied -/

/-- No file of a reply takes the place of a spec or a context of the leaves. -/
def Move.Spares (b : Site) (leaves : List Leaf) : Move → Prop
  | .finish _ (.ok answer) => ∀ f ∈ (accept answer.files).1, ∀ l ∈ leaves,
      Build.Spares b.plan l.nodePath (assemble [b.output, f.path])
  | _ => True

/-- **No move spoils the leaves** where neither the plan directory nor the output directory is inside the
other. -/
theorem Move.spares_of_apart (hs : s.Plain) (hl : discover s b.plan = .ok leaves)
    (h : ¬ placeOf b.plan <+: placeOf b.output) (h' : ¬ placeOf b.output <+: placeOf b.plan) (m : Move) :
    m.Spares b leaves := by
  cases m with
  | start i => exact trivial
  | next => exact trivial
  | finish i reply =>
  cases reply with
  | error failure => exact trivial
  | ok answer =>
    intro f hf l hmem
    obtain ⟨g, -, hg⟩ := exists_of_mem_accept hf
    obtain ⟨names, file, hm⟩ := isMarked_of_discover hs hl l hmem
    have hne (a : Artifact) : placeOf (planPath b.plan l.nodePath ++ a.suffix)
        ≠ placeOf (assemble [b.output, f.path]) := by
      obtain ⟨above, last, hpath, habove, hlast, -⟩ :=
        exists_artifactPath a b.plan (hm.node.imp_left And.left)
      have hproper : ∀ n ∈ above ++ [last], IsProper n := List.forall_mem_append.2
        ⟨fun n hn => hm.proper n (List.mem_append_left _ (habove.mem hn)), List.forall_mem_singleton.2 hlast⟩
      rw [hpath, placeOf_spell _ hproper, placeOf_assemble (isInside_of_normalize hg)]
      intro he
      have hplan : placeOf b.plan <+: placeOf b.output ++ parts f.path := he ▸ List.prefix_append _ _
      exact (List.prefix_or_prefix_of_prefix hplan (List.prefix_append _ _)).elim h h'
    refine ⟨?_, hne .context⟩
    have hspec := hne .spec
    rwa [show Artifact.spec.suffix = "" from rfl, String.append_empty] at hspec

/-- **A build has what it needs.** The artifacts of the visits that it is about lie in their files. It has
asked about such visits only, and has asked about each leaf that does not wait. -/
structure Supplied (b : Site) (due : Visit → Prop) (s : BuildState) : Prop where
  filed : ∀ v, due v → Filed s.store b.plan v
  batch : ∀ slot ∈ s.batch, ∃ v, due v ∧ v.path = slot.leaf.nodePath
  later : ∀ row ∈ s.later, ∀ l ∈ row, ∃ v, due v ∧ v.path = l.nodePath
  requests : ∀ r ∈ s.requests, ∃ v, due v ∧ r = v.handedOver
  slots : ∀ slot ∈ s.batch, slot.isWaiting = false → ∃ r ∈ s.requests, r.nodePath = slot.leaf.nodePath
  results : ∀ r ∈ s.results, r.skipped = false → ∃ q ∈ s.requests, q.nodePath = r.nodePath

namespace Supplied

variable {due : Visit → Prop} {t : BuildState} {i : Nat} {slot : Slot} {rows : List (List Leaf)}

/-- A leaf of the batch goes on. -/
theorem set (h : Supplied b due t) (requests : List Request) (peak : Nat) {store : Store}
    {claims : Claims} {metrics : Metrics} {status : Status} (hi : t.batch[i]? = some slot)
    (hstore : ∀ v, due v → Filed store b.plan v) (hsub : ∀ r ∈ t.requests, r ∈ requests)
    (hreq : ∀ r ∈ requests, ∃ v, due v ∧ r = v.handedOver)
    (hslot : ∃ r ∈ requests, r.nodePath = slot.leaf.nodePath) :
    Supplied b due ({ t with store, claims, metrics, requests, peak }.set i status) where
  filed := hstore
  batch := forall_mem_modify hi (h.batch slot (List.mem_of_getElem? hi)) h.batch
  later := h.later
  requests := hreq
  slots := by
    refine forall_mem_modify hi (fun _ => hslot) fun x hx hw => ?_
    obtain ⟨r, hr, he⟩ := h.slots x hx hw
    exact ⟨r, hsub r hr, he⟩
  results r hr hs := by
    obtain ⟨q, hq, he⟩ := h.results r hr hs
    exact ⟨q, hsub q hq, he⟩

/-- **A leaf that is started is asked about.** -/
theorem start (h : Supplied b due t) {leaf : Leaf} (hi : t.batch[i]? = some ⟨leaf, .waiting⟩) :
    Supplied b due (t.start b i leaf.nodePath) := by
  obtain ⟨v, hv, hpath⟩ := h.batch _ (List.mem_of_getElem? hi)
  have hrequest := (h.filed v hv).requestFor
  rw [hpath] at hrequest
  rw [BuildState.start, hrequest]
  refine h.set (t.requests ++ [v.handedOver]) _ hi h.filed
    (fun r hr => List.mem_append_left _ hr) (fun r hr => ?_)
    ⟨v.handedOver, List.mem_append_right _ (List.mem_singleton_self _), hpath⟩
  rcases List.mem_append.1 hr with hr | hr
  · exact h.requests r hr
  · exact ⟨v, hv, List.mem_singleton.1 hr⟩

/-- A reply leaves the other artifacts alone. -/
theorem receive (h : Supplied b due t) {leaf : Leaf} {request : Request}
    (hi : t.batch[i]? = some ⟨leaf, .inFlight request⟩) {reply : Except Failure Production}
    (hf : ∀ answer, reply = .ok answer → ∀ v, due v →
      (∀ f ∈ (accept answer.files).1, Build.Spares b.plan v.path (assemble [b.output, f.path]))
        ∧ Build.Spares b.plan v.path (questionsPath b.plan leaf.nodePath)) :
    Supplied b due (t.receive b i leaf.nodePath reply) := by
  have hslot := h.slots _ (List.mem_of_getElem? hi) rfl
  unfold BuildState.receive
  cases reply with
  | error failure =>
    exact h.set t.requests t.peak hi h.filed (fun r hr => hr) h.requests hslot
  | ok answer =>
    have hdeliver (v : Visit) (hv : due v) := (h.filed v hv).deliver (c := t.claims)
      (hf answer rfl v hv).1 (hf answer rfl v hv).2
    dsimp only
    generalize Build.deliver b t.store t.claims leaf.nodePath answer = delivered at hdeliver
    obtain ⟨store, claims, ending⟩ := delivered
    exact h.set t.requests t.peak hi hdeliver (fun r hr => hr) h.requests hslot

/-- The leaves of a settled batch have been asked about. -/
theorem next (h : Supplied b due t) (hl : Lined rows t) : Supplied b due t.next := by
  have hnone {P : Slot → Prop} : ∀ x ∈ [], P x := fun x hx => absurd hx List.not_mem_nil
  have hresults : ∀ r ∈ t.results ++ t.batch.filterMap Slot.result?, r.skipped = false →
      ∃ q ∈ t.requests, q.nodePath = r.nodePath := by
    intro r hr hs
    rcases List.mem_append.1 hr with hr | hr
    · exact h.results r hr hs
    · obtain ⟨slot, hslot, hr⟩ := List.mem_filterMap.1 hr
      have hw : slot.isWaiting = false := by
        obtain ⟨leaf, status⟩ := slot
        cases status with
        | waiting => cases hr
        | inFlight request => rfl
        | settled ending => rfl
      rw [(hl.slots slot hslot r hr).nodePath]
      exact h.slots slot hslot hw
  unfold BuildState.next
  dsimp only
  split
  · refine ⟨h.filed, hnone, fun _ hrow => absurd hrow List.not_mem_nil, h.requests, hnone,
      fun r hr hs => ?_⟩
    rcases List.mem_append.1 hr with hr | hr
    · exact hresults r hr hs
    · obtain ⟨l, -, rfl⟩ := List.mem_map.1 hr
      cases hs
  · split
    · exact ⟨h.filed, hnone, h.later, h.requests, hnone, hresults⟩
    · next row later hlater =>
      obtain ⟨hrow, hrest⟩ := List.forall_mem_cons.1 (hlater ▸ h.later)
      refine ⟨h.filed, List.forall_mem_map.2 hrow, hrest, h.requests,
        List.forall_mem_map.2 fun l _ hw => ?_, hresults⟩
      cases hw

/-- **Every move keeps a build supplied.** -/
theorem step (h : Supplied b due t) (hl : Lined rows t)
    (hdue : ∀ v, due v → ∀ w, due w → Build.Spares b.plan v.path (questionsPath b.plan w.path))
    (hleaf : ∀ v, due v → ∃ l ∈ leaves, l.nodePath = v.path) {m : Move} (hm : m.Spares b leaves) :
    Supplied b due (t.step b m) := by
  cases m with
  | start i =>
    simp only [BuildState.step]
    split
    · next hi => exact h.start hi
    · exact h
  | finish i reply =>
    simp only [BuildState.step]
    split
    · next leaf request hi =>
      obtain ⟨w, hw, hpath⟩ := h.batch _ (List.mem_of_getElem? hi)
      refine h.receive hi fun answer he v hv => ⟨fun f hf => ?_, hpath ▸ hdue v hv w hw⟩
      subst he
      obtain ⟨l, hl, he⟩ := hleaf v hv
      exact he ▸ hm f hf l hl
    · exact h
  | next =>
    simp only [BuildState.step]
    split
    · exact h.next hl
    · exact h

theorem run (h : Supplied b due t) (hl : Lined rows t)
    (hdue : ∀ v, due v → ∀ w, due w → Build.Spares b.plan v.path (questionsPath b.plan w.path))
    (hleaf : ∀ v, due v → ∃ l ∈ leaves, l.nodePath = v.path) {moves : List Move}
    (hm : ∀ m ∈ moves, m.Spares b leaves) : Supplied b due (t.run b moves) := by
  induction moves generalizing t with
  | nil => exact h
  | cons m moves ih =>
    obtain ⟨hm, hmoves⟩ := List.forall_mem_cons.1 hm
    exact ih (h.step hl hdue hleaf hm) (hl.advance (advance_step b t m)) hmoves

end Supplied

/-! ## After a compilation -/

variable {names names' : List String} {base : Place} {shelf : Shelf} {p : BuildPolicy} {made : Store}

theorem planPath_eq_artifact (plan : String) (names : List String) :
    planPath plan (nodePath (rootName :: names)) = Artifact.spec.path plan names :=
  String.append_empty.symm

theorem contextPath_eq_artifact (plan : String) (names : List String) :
    contextPath plan (nodePath (rootName :: names)) = Artifact.context.path plan names := rfl

theorem questionsPath_eq_artifact (plan : String) (names : List String) :
    questionsPath plan (nodePath (rootName :: names)) = Artifact.questions.path plan names := rfl

/-- Questions do not take the place of a spec or a context. -/
theorem spares_questions (plan : String) (hn : ∀ n ∈ names, IsNodeName n)
    (hn' : ∀ n ∈ names', IsNodeName n) :
    Spares plan (nodePath (rootName :: names)) (questionsPath plan (nodePath (rootName :: names'))) := by
  rw [Spares, planPath_eq_artifact, contextPath_eq_artifact, questionsPath_eq_artifact]
  exact ⟨placeOf_artifact_ne (by decide) plan hn hn', placeOf_artifact_ne (by decide) plan hn hn'⟩

/-- The path of a node is that by which it was found. -/
theorem nodePath_of_isMarked {file : String} (h : IsMarked s plan node names file)
    (hn : ∀ n ∈ names, IsNodeName n) : node = nodePath (rootName :: names) := by
  rcases h.node with ⟨rfl, rfl⟩ | ⟨hinside, rfl⟩
  · rfl
  · rw [nodePath_of_ne_nil hinside.ne_nil hn, ← String.toList_inj, String.toList_intercalate,
      hinside.spelled, joinPieces_eq_intercalate]
    rfl

/-- **A leaf that is found after a compilation is supplied** with what the compilation has left. -/
theorem exists_filed (hs : s.Plain) (h : Shelved s p.site.plan base shelf)
    (hm : prepareOutput p s = (made, none)) (hl : discover made p.site.plan = .ok leaves) {l : Leaf}
    (hmem : l ∈ leaves) :
    ∃ names q c, shelf names = some q ∧ q.context = some c
      ∧ l.nodePath = nodePath (rootName :: names)
      ∧ ∀ v : Visit, v.ancestry = rootName :: names → q.spec = v.spec → c = v.context →
        Filed made p.site.plan v := by
  obtain ⟨hplain, -, hold⟩ := plain_prepareOutput hs hm
  obtain ⟨names, file, hmark⟩ := isMarked_of_discover hplain hl l hmem
  obtain ⟨content, hfind⟩ := find_of_isFile hplain hmark.isFile
  have hfile := (find_eq_ok.1 hfind).2
  have hbase : base = placeOf p.site.plan :=
    locate_eq_placeOf hs (find_eq_ok.1 h.anchored.find_directory).1
  rw [placeOf_spell _ hmark.proper, ← hbase] at hfile
  obtain ⟨q, c, hq, hc, rfl⟩ : ∃ q c, shelf names = some q ∧ q.context = some c
      ∧ content = .text (contextText c) := by
    have hbefore := hold _ _ hfile
    rcases h.only (by simp) hbefore with ⟨q, hq⟩ | ⟨ns, q, a, hq, hrel⟩
    · rw [h.directories hq] at hbefore
      cases hbefore
    · obtain ⟨rfl, hname⟩ := List.append_inj' hrel rfl
      obtain rfl : Artifact.context = a :=
        Artifact.fileName_injective (hmark.file.symm.trans (List.singleton_inj.1 hname))
      rw [hrel, h.files .context hq] at hbefore
      obtain ⟨text, ht, he⟩ := Option.map_eq_some_iff.1 hbefore
      obtain ⟨c, hc, rfl⟩ := Option.map_eq_some_iff.1 ht
      cases he
      exact ⟨q, c, hq, hc, rfl⟩
  have hn := h.named hq
  refine ⟨names, q, c, hq, hc, nodePath_of_isMarked hmark hn, fun v hv hspec hcontext => ?_⟩
  have hpath : v.path = nodePath (rootName :: names) := congrArg nodePath hv
  refine ⟨hplain, ?_, ?_⟩
  · rw [hpath, planPath_eq_artifact, ← hspec]
    have hsize := h.short (a := .spec) hq rfl
    have hbefore := h.files .spec hq
    rw [← List.append_assoc] at hfile hbefore
    have hleft := prepareOutput_sibling hs hm hfile hbefore
    rw [List.append_assoc, hbase] at hleft
    rw [placeOf_artifact .spec p.site.plan hn]
    rw [artifactPath_eq_spell .spec p.site.plan hn] at hsize ⊢
    exact find_sibling hplain hmark.proper hfind (Artifact.spec.isFileName names) hsize hleft
  · rw [hmark.file] at hfind
    rw [hpath, ← hcontext, contextPath_eq_artifact, artifactPath_eq_spell _ _ hn]
    exact hfind

variable {digest : String → String} {mayReply : Request → Except Failure Expansion → Prop}
  {xs : List Session} {x : Session}

/-- **A build starts supplied** with what some compilations have left. -/
theorem exists_supplied (hs : s.Plain) (h : Vacant s p.site.plan)
    (hx : ∀ y ∈ x :: xs, y.policy.directory = p.site.plan ∧ y.policy.node.digest = digest)
    (hroots : TellsApart digest ((x :: xs).map Session.root)) (hf : Answered mayReply s xs)
    (hf' : x.Follows mayReply (afterwards s xs))
    (hm : prepareOutput p (x.run (afterwards s xs)).store = (made, none))
    (hl : discover made p.site.plan = .ok leaves) (metrics : Metrics) :
    ∃ due : Visit → Prop,
      Supplied p.site due (.initial made (batches p.parallelism leaves) metrics)
      ∧ ∀ v, due v → (∃ l ∈ leaves, l.nodePath = v.path) ∧ IsAncestry v.ancestry
        ∧ Compiled digest ((x :: xs).map Session.root) mayReply p.site.plan (rootVisit x.root)
          (x.run (afterwards s xs)) v := by
  have h0 : p.site.plan.contains '\x00' = false := noZero_of_makeDirectories h.1
  have hzero (y : Session) (hy : y ∈ x :: xs) : y.policy.directory.contains '\x00' = false := by
    rw [(hx y hy).1, h0]
  have hplain : (x.run (afterwards s xs)).store.Plain :=
    plain_session (hzero x List.mem_cons_self)
      (plain_afterwards (fun y hy => hzero y (List.mem_cons_of_mem x hy)) hs)
  obtain ⟨base, shelf, hshelf, hcompiled⟩ := exists_compiled_afterwards h hx hroots hf hf'
  refine ⟨fun v => ((∃ l ∈ leaves, l.nodePath = v.path) ∧ IsAncestry v.ancestry
    ∧ Compiled digest ((x :: xs).map Session.root) mayReply p.site.plan (rootVisit x.root)
      (x.run (afterwards s xs)) v) ∧ Filed made p.site.plan v, ?_, fun v hv => hv.1⟩
  refine ⟨fun v hv => hv.2, fun _ hslot => absurd hslot List.not_mem_nil, fun row hrow l hl' => ?_,
    fun _ hr => absurd hr List.not_mem_nil, fun _ hslot => absurd hslot List.not_mem_nil,
    fun _ hr => absurd hr List.not_mem_nil⟩
  have hmem := mem_of_mem_rows hrow hl'
  obtain ⟨names, q, c, hq, hc, hpath, hfiled⟩ := exists_filed hplain hshelf hm hl hmem
  obtain ⟨v, hv, hspec, hcontext, hcompiled⟩ := hcompiled names q c hq hc
  have hpath' : l.nodePath = v.path := hpath.trans (congrArg nodePath hv).symm
  exact ⟨v, ⟨⟨⟨l, hmem, hpath'⟩, hv ▸ isAncestry_of_names (hshelf.named hq), hcompiled⟩,
    hfiled v hv hspec hcontext⟩, hpath'.symm⟩

/-- **What is compiled is handed over.** After any compilations into a plan directory that had nothing in it
at first, a build asks about every leaf that it executes. Each call is about what the leaf was compiled as:
its context is the same, and so is its spec, just if that has no carriage return. No file of a reply may take
the place of a leaf's spec or context. -/
theorem handed_over (hs : s.Plain) (h : Vacant s p.site.plan)
    (hx : ∀ y ∈ x :: xs, y.policy.directory = p.site.plan ∧ y.policy.node.digest = digest)
    (hroots : TellsApart digest ((x :: xs).map Session.root)) (hf : Answered mayReply s xs)
    (hf' : x.Follows mayReply (afterwards s xs))
    (hm : prepareOutput p (x.run (afterwards s xs)).store = (made, none))
    (hl : discover made p.site.plan = .ok leaves) {moves : List Move}
    (hmoves : ∀ m ∈ moves, m.Spares p.site leaves) (metrics : Metrics) :
    let built := (BuildState.initial made (batches p.parallelism leaves) metrics).run p.site moves
    (∀ r ∈ built.requests, ∃ v : Visit, r = v.handedOver ∧ (r = v.request ↔ '\r' ∉ v.spec.toList)
      ∧ Compiled digest ((x :: xs).map Session.root) mayReply p.site.plan (rootVisit x.root)
        (x.run (afterwards s xs)) v)
    ∧ ∀ r ∈ built.results, r.skipped = false → ∃ q ∈ built.requests, q.nodePath = r.nodePath := by
  obtain ⟨due, hsupplied, hdue⟩ := exists_supplied hs h hx hroots hf hf' hm hl metrics
  have hapart : ∀ v, due v → ∀ w, due w → Spares p.site.plan v.path (questionsPath p.site.plan w.path) := by
    intro v hv w hw
    obtain ⟨-, ⟨names, ha, hn⟩, -⟩ := hdue v hv
    obtain ⟨-, ⟨names', ha', hn'⟩, -⟩ := hdue w hw
    rw [Visit.path, Visit.path, ha, ha']
    exact spares_questions p.site.plan hn hn'
  have hrun := hsupplied.run (lined_initial _ _ _) hapart (fun v hv => (hdue v hv).1) hmoves
  refine ⟨fun r hr => ?_, hrun.results⟩
  obtain ⟨v, hv, rfl⟩ := hrun.requests r hr
  exact ⟨v, rfl, Visit.handedOver_eq_request_iff, (hdue v hv).2.2⟩

/-! ## A tree of two nodes, built -/

/-- A build beside the plan directory. -/
def pairBuildPolicy : BuildPolicy := { site := { plan := "plan", output := "." } }

/-- The provider answers with nothing. -/
def pairMoves : List Move := [.next, .start 0, .finish 0 (.ok {}), .next]

/-- The build of the leaf. -/
def pairBuild (spec : String) (leaves : List Leaf) : BuildState :=
  (BuildState.initial ((pairSession spec).run .empty).store
    (batches pairBuildPolicy.parallelism leaves) { run := "", phase := "" }).run pairBuildPolicy.site
      pairMoves

/-- Of a root without a context and a node that has one, the node is found. -/
theorem exists_discover_pair {name : String} {q q' : Papers} {c : Context}
    (h : Shelved s plan base ((Shelf.empty.put [] q).put [name] q')) (hq : q.context = none)
    (hc : q'.context = some c) (hroot : (Artifact.context.path plan []).utf8ByteSize < pathLimit)
    (hleaf : (Artifact.context.path plan [name]).utf8ByteSize < pathLimit) :
    ∃ l, discover s plan = .ok [l] ∧ l.nodePath = nodePath [rootName, name] := by
  obtain ⟨leaves, hl, hnd, hmem⟩ := exists_discover h (put_put_nil q q') fun ns p hp => by
    rcases put_put_cases hp with ⟨rfl, -⟩ | ⟨rfl, -⟩
    · exact hleaf
    · exact hroot
  have hpaths : (leaves.map Leaf.nodePath).Perm [nodePath [rootName, name]] := by
    refine (List.perm_ext_iff_of_nodup hnd (List.nodup_singleton _)).2 fun x => ?_
    rw [hmem, List.mem_singleton]
    constructor
    · rintro ⟨ns, p, hp, hsome, rfl⟩
      rcases put_put_cases hp with ⟨rfl, -⟩ | ⟨-, rfl⟩
      · rfl
      · rw [hq] at hsome
        cases hsome
    · rintro rfl
      exact ⟨[name], q', Shelf.put_self .., by rw [hc]; rfl, rfl⟩
  obtain ⟨l, rfl, hpath⟩ := List.map_eq_singleton_iff.1 (List.perm_singleton.1 hpaths)
  exact ⟨l, hl, hpath⟩

/-- **The leaf is found**, and the build asks about it what is handed over. -/
theorem exists_build_pair (spec : String) :
    ∃ leaves, prepareOutput pairBuildPolicy ((pairSession spec).run .empty).store
        = (((pairSession spec).run .empty).store, none)
      ∧ discover ((pairSession spec).run .empty).store "plan" = .ok leaves
      ∧ (pairBuild spec leaves).isDone = true
      ∧ (pairBuild spec leaves).requests = [(pairVisit spec).handedOver]
      ∧ (pairBuild spec leaves).results.map LeafResult.nodePath = ["a"] := by
  obtain ⟨base, q, q', hstore, hq, hspec, hcontext, -⟩ := exists_run_pairSession spec
  have hzero : pairPolicy.directory.contains '\x00' = false := noZero_of_makeDirectories vacant_plan.1
  have hplain : ((pairSession spec).run .empty).store.Plain :=
    plain_session hzero (plain_of_entries (by decide))
  have hprepare : prepareOutput pairBuildPolicy ((pairSession spec).run .empty).store
      = (((pairSession spec).run .empty).store, none) := by
    show makePath _ (parts ".").reverse = _
    rw [show parts "." = [] by decide, List.reverse_nil, makePath]
  obtain ⟨l, hl, hleaf⟩ := exists_discover_pair hstore hq hcontext (by decide) (by decide)
  obtain ⟨names, r, c, hr, hc, hpath, hfiled⟩ := exists_filed hplain hstore hprepare hl
    (List.mem_singleton_self l)
  rcases put_put_cases hr with ⟨rfl, rfl⟩ | ⟨rfl, rfl⟩
  · obtain rfl := Option.some.inj (hcontext.symm.trans hc)
    have hrequest : requestFor ((pairSession spec).run .empty).store pairBuildPolicy.site.plan l.nodePath
        = .ok (some (pairVisit spec).handedOver) := by
      rw [hpath]
      exact (hfiled (pairVisit spec) rfl hspec rfl).requestFor
    have hbatches : batches pairBuildPolicy.parallelism [l] = [[l]] := by cbv
    have hdeliver : deliver pairBuildPolicy.site ((pairSession spec).run .empty).store {} l.nodePath {}
        = (((pairSession spec).run .empty).store, {}, .completed { nodePath := l.nodePath, success := true }) :=
      rfl
    have hrun := run_single { run := "", phase := "" } hrequest hdeliver
    rw [← hbatches] at hrun
    refine ⟨[l], hprepare, hl, hrun.1, hrun.2.2.2, ?_⟩
    rw [pairBuild, pairMoves, hrun.2.2.1]
    show [l.nodePath] = ["a"]
    rw [hleaf]
    decide
  · rw [hq] at hc
    cases hc

theorem parseSource_digit :
    (parseSource "<a>" "b=1;").document.children = [.param "b" "1" ⟨"<a>", ⟨1, 1, 0⟩, ⟨1, 5, 4⟩⟩] ∧
      (parseSource "<a>" "b=1;").problems = [] := by
  have hr : readStatement "<a>" (tokenize "b=1;").tokens =
      ⟨some (.param "b" "1" ⟨"<a>", ⟨1, 1, 0⟩, ⟨1, 5, 4⟩⟩), [⟨.eof, "", ⟨1, 5, 4⟩⟩], []⟩ := by cbv
  exact parseSource_one (by cbv) (by cbv) (by cbv) (by cbv; decide) hr

/-- The leaf is compiled and asked about with the same request. -/
theorem handed_over_digit :
    ∃ leaves, discover ((pairSession "b=1;").run .empty).store "plan" = .ok leaves
      ∧ (pairBuild "b=1;" leaves).isDone = true
      ∧ (pairBuild "b=1;" leaves).requests = [⟨"a", "b=1;", {}⟩]
      ∧ ∃ v : Visit, v.request = ⟨"a", "b=1;", {}⟩
        ∧ Compiled id [emptyRoot] (fun _ _ => True) "plan" (rootVisit emptyRoot)
          ((pairSession "b=1;").run .empty) v := by
  have hspec : (pairVisit "b=1;").spec = "b=1;" := by
    rw [spec_pairVisit parseSource_digit.1 parseSource_digit.2]
    cbv
  have hrequest : (pairVisit "b=1;").handedOver = ⟨"a", "b=1;", {}⟩ := by
    rw [Visit.handedOver, hspec, readBack_eq_self_iff.2 (by decide)]
    rfl
  obtain ⟨rec, lines, hread, hrec⟩ := exists_readRecord_pair "b=1;"
  obtain ⟨leaves, hprepare, hl, hdone, hrequests, -⟩ := exists_build_pair "b=1;"
  rw [hrequest] at hrequests
  refine ⟨leaves, hl, hdone, hrequests, ?_⟩
  have hx : ∀ y ∈ [pairSession "b=1;"], y.policy.directory = pairBuildPolicy.site.plan
      ∧ y.policy.node.digest = id := List.forall_mem_singleton.2 ⟨rfl, rfl⟩
  have hroots : TellsApart id ([pairSession "b=1;"].map Session.root) := fun _ _ _ _ h => h
  have hanswered : Answered (fun _ _ => True) .empty [] := answered_any ..
  have hfollows : (pairSession "b=1;").Follows (fun _ _ => True) (afterwards .empty []) :=
    TreeState.follows_any ..
  have hmoves : ∀ m ∈ pairMoves, m.Spares pairBuildPolicy.site leaves := by
    simp [pairMoves, Move.Spares, accept]
  obtain ⟨hall, -⟩ := handed_over (plain_of_entries (by decide)) vacant_plan hx hroots hanswered hfollows
    hprepare hl hmoves { run := "", phase := "" }
  obtain ⟨v, hv, hiff, hcompiled⟩ := hall ⟨"a", "b=1;", {}⟩ (by
    show _ ∈ (pairBuild "b=1;" leaves).requests
    rw [hrequests]
    exact List.mem_singleton_self _)
  have hpath : v.path = "a" := (congrArg Request.nodePath hv).symm
  have hv' : v.spec = "b=1;" := by
    have hrecorded := (hcompiled.recorded rec lines (hpath.symm ▸ hread)).1
    rw [hrec, hspec] at hrecorded
    exact hrecorded.symm
  exact ⟨v, (hiff.2 (by rw [hv']; decide)).symm, hcompiled⟩

/-! ## A spec with a carriage return -/

theorem parseSource_return :
    (parseSource "<a>" "b=\"\r\";").document.children = [.param "b" "\r" ⟨"<a>", ⟨1, 1, 0⟩, ⟨1, 7, 6⟩⟩] ∧
      (parseSource "<a>" "b=\"\r\";").problems = [] := by
  have hr : readStatement "<a>" (tokenize "b=\"\r\";").tokens =
      ⟨some (.param "b" "\r" ⟨"<a>", ⟨1, 1, 0⟩, ⟨1, 7, 6⟩⟩), [⟨.eof, "", ⟨1, 7, 6⟩⟩], []⟩ := by cbv
  exact parseSource_one (by cbv) (by cbv) (by cbv) (by cbv; decide) hr

/-- **A carriage return is not handed over.** The record of the leaf has the digest of the spec with the
carriage return, and the build asks about a spec with a line end in its place. -/
theorem carriageReturn_not_handed_over :
    ∃ leaves rec lines, discover ((pairSession "b=\"\r\";").run .empty).store "plan" = .ok leaves
      ∧ (pairBuild "b=\"\r\";" leaves).isDone = true
      ∧ (pairBuild "b=\"\r\";" leaves).requests = [⟨"a", "b=\"\n\";", {}⟩]
      ∧ readRecord ((pairSession "b=\"\r\";").run .empty).store "plan" "a" = .ok (some rec, lines)
      ∧ rec.specHash = pairPolicy.node.digest "b=\"\r\";"
      ∧ rec.specHash ≠ pairPolicy.node.digest "b=\"\n\";" := by
  have hspec : (pairVisit "b=\"\r\";").spec = "b=\"\r\";" := by
    rw [spec_pairVisit parseSource_return.1 parseSource_return.2]
    cbv
  have hrequest : (pairVisit "b=\"\r\";").handedOver = ⟨"a", "b=\"\n\";", {}⟩ := by
    have hread : readBack "b=\"\r\";" = "b=\"\n\";" := by cbv
    rw [Visit.handedOver, hspec, hread]
    rfl
  obtain ⟨leaves, -, hl, hdone, hrequests, -⟩ := exists_build_pair "b=\"\r\";"
  obtain ⟨rec, lines, hread, hrec⟩ := exists_readRecord_pair "b=\"\r\";"
  rw [hrequest] at hrequests
  rw [hspec] at hrec
  refine ⟨leaves, rec, lines, hl, hdone, hrequests, hread, hrec, ?_⟩
  rw [hrec]
  decide

end Build

end SpecTree
