import SpecTree.Proofs.Plan.Steady

/-!
# Who wrote a spec

A spec on a shelf, and the context beside it, were written by the provider in an answer about the node
above, and so on up to a root (`Authored`). No digest of two roots' specs may be the same, since a root
may be answered from the record of an earlier one.

1. What a node's artifacts have to do with the visit that left them is said by `Documents`. Compiling
   respects it (`custom_documents`), so every node on a shelf has an author (`Drawn.authored`).
2. What a compilation has asked about are visits that it called for (`asked_session`).
3. A leaf on the shelf after some compilations has the spec and the context of a visit, with which all
   that can be seen of the last compilation agrees (`exists_compiled_afterwards`).
-/

namespace SpecTree.Plan

open TreeState

variable {digest : String → String} {mayReply : Request → Except Failure Expansion → Prop}
  {roots : List Spec.Document} {p : TreePolicy} {shelf : Shelf} {names : List String} {q : Papers}
  {u v w : Visit} {c c' : Census}

/-! ## Authors -/

/-- The visits that an answer about a visit leads to. -/
def Visit.below (v : Visit) (e : Expansion) : List Visit :=
  visitsBelow
    { nodePath := v.path
      ancestry := v.ancestry
      isLeaf := e.children.isEmpty
      children := e.children }

/-- A visit that comes from a root, by answers about the visits above it. -/
inductive Authored (roots : List Spec.Document)
    (mayReply : Request → Except Failure Expansion → Prop) : Visit → Prop
  | root {a : Spec.Document} (h : a ∈ roots) : Authored roots mayReply (rootVisit a)
  | child {v w : Visit} {e : Expansion} (hv : Authored roots mayReply v)
      (he : mayReply v.request (.ok e)) (hw : w ∈ v.below e) : Authored roots mayReply w

/-- Artifacts that a visit may have left. -/
structure Documents (digest : String → String)
    (mayReply : Request → Except Failure Expansion → Prop) (v : Visit) (q : Papers) : Prop where
  spec : q.spec = v.spec
  context : ∀ c, q.context = some c → c = v.context
  record : ∀ rec, q.record = some rec → rec.specHash = digest v.spec
    ∧ rec.contextHash = v.context.fingerprint digest ∧ rec.context = v.context
  children : ∀ rec, q.record = some rec →
    rec.children = [] ∨ ∃ e, mayReply v.request (.ok e) ∧ rec.children = e.children

/-- A digest tells the specs of roots apart. -/
def TellsApart (digest : String → String) (roots : List Spec.Document) : Prop :=
  ∀ a ∈ roots, ∀ b ∈ roots, digest (rootVisit a).spec = digest (rootVisit b).spec →
    (rootVisit a).spec = (rootVisit b).spec

/-- **Compiling leaves what visits may leave.** -/
theorem custom_documents (hp : p.node.digest = digest) (hroots : TellsApart digest roots) :
    Custom p mayReply (Steady.IsRootOf roots) (Documents digest mayReply) where
  root _ := Steady.ancestry_of_isRootOf
  spec v := ⟨rfl, nofun, nofun, nofun⟩
  reuse := by
    rintro v v' q rec ⟨a, ha, rfl⟩ ⟨b, hb, rfl⟩ hq hrec hspec hcontext
    rw [hp] at hspec hcontext
    have hs : (rootVisit a).spec = (rootVisit b).spec :=
      hroots a ha b hb (hspec.symm.trans (hq.record rec hrec).1)
    have hrequest : (rootVisit a).request = (rootVisit b).request := by
      show Request.mk _ _ _ = Request.mk _ _ _
      rw [hs]
      rfl
    refine ⟨hq.spec.trans hs.symm, hq.context, fun r hr => ?_, fun r hr => ?_⟩
    · obtain rfl := Option.some.inj (hrec.symm.trans hr)
      exact ⟨hspec, hcontext, (hq.record rec hr).2.2⟩
    · rw [hrequest]
      exact hq.children r hr
  leaves := by
    intro d o errors q ⟨hspec, hcontext⟩ ho hl
    rw [hp] at hspec hcontext
    have hrecord (r : Record) (hr : q.record = some r) :
        ¬ o.failure.isSome = true ∧ d.record p.node.stamp o = r := by
      rw [hl.record] at hr
      split at hr
      · cases hr
      · next hfailure => exact ⟨hfailure, Option.some.inj hr⟩
    refine ⟨hl.spec, fun c hc => ?_, fun r hr => ?_, fun r hr => ?_⟩
    · rcases hl.context with h | ⟨-, h⟩
      · rw [h] at hc
        cases hc
      · exact (Option.some.inj (h.symm.trans hc)).symm
    · obtain ⟨-, rfl⟩ := hrecord r hr
      exact ⟨hspec, hcontext, rfl⟩
    · obtain ⟨hfailure, rfl⟩ := hrecord r hr
      rcases ho with ⟨-, rfl⟩ | ⟨-, reply, hreply, rfl⟩
      · exact .inl rfl
      · cases reply with
        | ok e => exact .inr ⟨e, hreply, rfl⟩
        | error e => exact absurd rfl hfailure

/-- **Every node on a shelf has an author.** -/
theorem Drawn.authored (hn : ∀ ns q, shelf ns = some q → ∀ n ∈ ns, IsNodeName n)
    (h : Drawn (Steady.IsRootOf roots) (Documents digest mayReply) shelf)
    (hv : IsSource (Steady.IsRootOf roots) shelf names v) : Authored roots mayReply v := by
  have hroot : ∀ v, Steady.IsRootOf roots v → v.ancestry = [rootName] :=
    fun _ => Steady.ancestry_of_isRootOf
  -- Induction on the names, the last one first: what calls for a node lies right above it.
  induction names using List.reverseRecOn generalizing v with
  | nil =>
    rcases hv.parent hn hroot with ⟨⟨a, ha, rfl⟩, -⟩ | ⟨ns, n, q, rec, hns, -⟩
    · exact .root ha
    · simp at hns
  | append_singleton names n ih =>
    rcases hv.parent hn hroot with ⟨-, h0⟩ | ⟨ns, m, q, rec, hns, hq, hrec, hleaf, hvisit⟩
    · simp at h0
    · obtain ⟨rfl, -⟩ := List.append_inj' hns rfl
      obtain ⟨w, hw, hd, hsane⟩ := h names q hq
      have hl := hsane.isLeaf rec hrec
      rcases hd.children rec hrec with h0 | ⟨e, he, hc⟩
      · rw [h0, hleaf] at hl
        cases hl
      · refine .child (ih hw) he ?_
        rw [hc] at hl
        have hbelow : w.below e = visitsOf names rec := visitsBelow_eq_visitsOf hw.1 hl.symm hc.symm
        rwa [hbelow]

/-! ## What was asked about -/

/-- What a compilation has asked about are visits that it called for. Each of them waits for its reply
or has a result. -/
structure Asked (u : Visit) (c : Census) : Prop where
  pending : ∀ v ∈ c.pending, Called u c v
  drafts : ∀ d ∈ c.waiting ++ c.inFlight, Called u c d.visit
  requests : ∀ r ∈ c.requests, ∃ v, Called u c v ∧ v.request = r ∧
    ((∃ d ∈ c.inFlight, d.visit = v) ∨ ∃ r ∈ c.results, r.ancestry = v.ancestry)

/-- With the result of one node more, which a call may have waited for. -/
theorem Asked.settle (h : Asked u c) {r : NodeResult} (hres : c'.results = c.results)
    (hpend : ∀ v ∈ c'.pending, v ∈ c.pending)
    (hdrafts : ∀ d ∈ c'.waiting ++ c'.inFlight, d ∈ c.waiting ++ c.inFlight)
    (hreq : c'.requests = c.requests)
    (hflight : ∀ d ∈ c.inFlight, d ∈ c'.inFlight ∨ r.ancestry = d.visit.ancestry) :
    Asked u (c'.settle r) where
  pending := by
    intro v hv
    rcases List.mem_append.1 hv with hv | hv
    · exact ((h.pending v (hpend v hv)).congr hres).settle r
    · exact .inr ⟨r, List.mem_append_right _ (List.mem_singleton_self r), hv⟩
  drafts d hd := ((h.drafts d (hdrafts d hd)).congr hres).settle r
  requests := by
    intro x hx
    obtain ⟨v, hv, hvx, hsettled⟩ := h.requests x (hreq ▸ hx)
    refine ⟨v, (hv.congr hres).settle r, hvx, ?_⟩
    rcases hsettled with ⟨d, hd, rfl⟩ | ⟨r', hr', ha⟩
    · rcases hflight d hd with hd' | ha
      · exact .inl ⟨d, hd', rfl⟩
      · exact .inr ⟨r, List.mem_append_right _ (List.mem_singleton_self r), ha⟩
    · exact .inr ⟨r', List.mem_append_left _ (hres ▸ hr'), ha⟩

/-- What has been asked about stays so, whatever happens next. -/
theorem Asked.step (h : Asked u c) (hs : Census.Step p mayReply c c') : Asked u c' := by
  cases hs with
  | refuse hp ha => exact ⟨(Census.forall_mem_split hp h.pending).2, h.drafts, h.requests⟩
  | lose hp ha he => exact ⟨(Census.forall_mem_split hp h.pending).2, h.drafts, h.requests⟩
  | withdraw hp ha he hj hc => exact ⟨(Census.forall_mem_split hp h.pending).2, h.drafts, h.requests⟩
  | reuse hp ha he hj =>
    exact h.settle rfl (fun v hv => hp ▸ mem_split_of_mem hv) (fun d hd => hd) rfl
      fun d hd => .inl hd
  | keep hp ha he hj hd hf =>
    exact h.settle rfl (fun v hv => hp ▸ mem_split_of_mem hv) (fun d hd => hd) rfl
      fun d hd => .inl hd
  | @wait before after v d draft store lines hp ha he hj hc hd =>
    obtain ⟨hv, hrest⟩ := Census.forall_mem_split hp h.pending
    refine ⟨hrest, fun e he => ?_, h.requests⟩
    simp only [List.mem_append, List.mem_singleton] at he
    rcases he with (he | rfl) | he
    · exact h.drafts e (List.mem_append_left _ he)
    · show Called u c draft.visit
      rwa [(prepare_eq_ok hd).2]
    · exact h.drafts e (List.mem_append_right _ he)
  | @grant before after d hw hlt =>
    refine ⟨h.pending, fun e he => h.drafts e ?_, fun x hx => ?_⟩
    · rw [hw]
      exact mem_moved_iff.1 ((List.append_assoc ..).symm ▸ he)
    · rcases List.mem_append.1 hx with hx | hx
      · obtain ⟨v, hv, hvx, hsettled⟩ := h.requests x hx
        refine ⟨v, hv, hvx, hsettled.imp_left ?_⟩
        rintro ⟨e, he, rfl⟩
        exact ⟨e, List.mem_append_left _ he, rfl⟩
      · rw [List.mem_singleton.1 hx]
        refine ⟨d.visit, h.drafts d (List.mem_append_left _ ?_), rfl,
          .inl ⟨d, List.mem_append_right _ (List.mem_singleton_self d), rfl⟩⟩
        rw [hw]
        exact List.mem_append_right _ List.mem_cons_self
  | @finish before after d reply store result lines hi hr hf =>
    refine h.settle rfl (fun v hv => hv) (fun e he => ?_) rfl fun e he => ?_
    · rw [hi]
      rcases List.mem_append.1 he with he | he
      · exact List.mem_append_left _ he
      · exact List.mem_append_right _ (mem_split_of_mem he)
    · rw [hi, mem_split_iff] at he
      refine he.imp_right ?_
      rintro rfl
      obtain ⟨d', rfl, hv⟩ := result_of_finish hf
      exact congrArg Visit.ancestry hv

/-- **A session asks about visits that it calls for.** -/
theorem asked_session {x : Session} (h0 : x.policy.directory.contains '\x00' = false) (s : Store) :
    Asked (rootVisit x.root) (x.run s).census := by
  refine Session.induct h0 ?_ fun c c' _ hstep h => h.step hstep
  exact ⟨fun v hv => .inl (List.mem_singleton.1 hv), fun d hd => absurd hd List.not_mem_nil,
    fun r hr => absurd hr List.not_mem_nil⟩

/-! ## Leaves after some compilations -/

/-- **What a node was compiled as.** The visit comes from a root, and its digests are in the node's
record. If the last compilation came to a result for the node, it called for this visit; and whatever it
asked about the node, it asked about this visit. -/
structure Compiled (digest : String → String) (roots : List Spec.Document)
    (mayReply : Request → Except Failure Expansion → Prop) (directory : String) (u : Visit)
    (t : TreeState) (v : Visit) : Prop where
  authored : Authored roots mayReply v
  recorded : ∀ rec lines, readRecord t.store directory v.path = .ok (some rec, lines) →
    rec.specHash = digest v.spec ∧ rec.contextHash = v.context.fingerprint digest
      ∧ rec.context = v.context
  called : ∀ r ∈ t.results, r.nodePath = v.path → Called u t.census v
  asked : ∀ r ∈ t.requests, r.nodePath = v.path → r = v.request

/-- The record that is read of a node is that of the visit that left its artifacts. -/
theorem Kept.recorded {base : Place} {t : TreeState}
    (hk : Kept p mayReply (Steady.IsRootOf roots) (Documents digest mayReply) base u t.census shelf)
    (hq : shelf names = some q) (hv : v.ancestry = rootName :: names)
    (hd : Documents digest mayReply v q) {rec : Record} {lines : List Log.Line}
    (hread : readRecord t.store p.directory v.path = .ok (some rec, lines)) :
    rec.specHash = digest v.spec ∧ rec.contextHash = v.context.fingerprint digest
      ∧ rec.context = v.context := by
  obtain ⟨w, hw, -⟩ := hk.drawn names q hq
  have hread' := hk.shelved.readRecord (hk.shelved.named hq)
    (hasParents_of_isSource hk.named (fun _ => Steady.ancestry_of_isRootOf) hw)
  rw [if_pos (hk.shelved.fits hq), ← hv, show nodePath v.ancestry = v.path from rfl,
    show readRecord t.census.store p.directory v.path = _ from hread, hq] at hread'
  exact hd.record rec (Papers.legible_eq_some.1 (Except.ok.inj hread').symm).1

/-- A node that was asked about and has a context has a result, and was asked about as called for. -/
theorem Kept.exists_called {base : Place} {t : TreeState} {x : Context}
    (hk : Kept p mayReply (Steady.IsRootOf roots) (Documents digest mayReply) base u t.census shelf)
    (hn : t.census.Named) (ha : Asked u t.census) (hu : Steady.IsRootOf roots u)
    (hq : shelf names = some q) (hx : q.context = some x) {r : Request} (hr : r ∈ t.requests)
    (he : r.nodePath = nodePath (rootName :: names)) :
    ∃ v, Called u t.census v ∧ v.request = r ∧ v.ancestry = rootName :: names
      ∧ ∃ r ∈ t.results, r.ancestry = v.ancestry := by
  obtain ⟨v, hv, rfl, hsettled⟩ := ha.requests r hr
  have hva : v.ancestry = rootName :: names :=
    eq_of_nodePath_eq (hv.isAncestry hn (Steady.ancestry_of_isRootOf hu))
      (isAncestry_of_names (hk.shelved.named hq)) he
  refine ⟨v, hv, rfl, hva, hsettled.resolve_left ?_⟩
  -- A node that waits for its reply has no context yet.
  rintro ⟨d, hd, rfl⟩
  have hd' := (hk.drafts d (List.mem_append_right _ hd)).2.papers names hva
  rw [Option.some.inj (hq.symm.trans hd')] at hx
  cases hx

/-- A leaf on the shelf has the spec and the context of what it was compiled as. -/
theorem Kept.exists_compiled {base : Place} {t : TreeState} {x : Context}
    (hk : Kept p mayReply (Steady.IsRootOf roots) (Documents digest mayReply) base u t.census shelf)
    (hs : t.census.Sound p) (ha : Asked u t.census) (hu : Steady.IsRootOf roots u)
    (hq : shelf names = some q) (hx : q.context = some x) :
    ∃ v, v.ancestry = rootName :: names ∧ q.spec = v.spec ∧ x = v.context
      ∧ Compiled digest roots mayReply p.directory u t v := by
  have hroot : ∀ v, Steady.IsRootOf roots v → v.ancestry = [rootName] :=
    fun _ => Steady.ancestry_of_isRootOf
  have hcalled {r : Request} (hr : r ∈ t.requests) (he : r.nodePath = nodePath (rootName :: names)) :=
    hk.exists_called hs.named ha hu hq hx hr he
  by_cases hex : ∃ r ∈ t.results, r.ancestry = rootName :: names
  · obtain ⟨r, hr, he⟩ := hex
    obtain ⟨v, ns, q', hv, hb⟩ := hk.results r hr
    obtain rfl : ns = names := (List.cons.inj (hb.result.symm.trans he)).2
    obtain rfl : q' = q := Option.some.inj (hb.papers.symm.trans hq)
    refine ⟨v, hb.visit, hb.made.spec, hb.made.context x hx,
      hk.drawn.authored hk.named (hk.isSource hu hv hb.visit),
      fun _ _ => hk.recorded hq hb.visit hb.made, fun _ _ _ => hv, fun x hx hxv => ?_⟩
    obtain ⟨w, hw, rfl, hwa, -⟩ := hcalled hx (hxv.trans (congrArg nodePath hb.visit))
    rw [hk.eq_of_called hs.named hroot hu hw hv (hwa.trans hb.visit.symm)]
  · obtain ⟨v, hv, hd, -⟩ := hk.drawn names q hq
    have hpath : v.path = nodePath (rootName :: names) := congrArg nodePath hv.1
    refine ⟨v, hv.1, hd.spec, hd.context x hx, hk.drawn.authored hk.named hv,
      fun _ _ => hk.recorded hq hv.1 hd, fun r hr hrv => ?_, fun r hr hrv => ?_⟩
    · have hf := hs.named.results r hr
      have hpath' := hf.path.symm.trans (hrv.trans hpath)
      exact absurd ⟨r, hr, eq_of_nodePath_eq hf.ancestry (isAncestry_of_names (hk.shelved.named hq)) hpath'⟩
        hex
    · obtain ⟨w, -, -, hwa, r', hr', he⟩ := hcalled hr (hrv.trans hpath)
      exact absurd ⟨r', hr', he.trans hwa⟩ hex

/-- **Leaves after some sessions** on a directory that has nothing in it at first. -/
theorem exists_compiled_afterwards {s : Store} {directory : String} (h : Vacant s directory)
    {xs : List Session} {x : Session}
    (hx : ∀ y ∈ x :: xs, y.policy.directory = directory ∧ y.policy.node.digest = digest)
    (hroots : TellsApart digest ((x :: xs).map Session.root)) (hf : Answered mayReply s xs)
    (hf' : x.Follows mayReply (afterwards s xs)) :
    ∃ base shelf, Shelved (x.run (afterwards s xs)).store directory base shelf
      ∧ ∀ names q c, shelf names = some q → q.context = some c →
        ∃ v, v.ancestry = rootName :: names ∧ q.spec = v.spec ∧ c = v.context
          ∧ Compiled digest ((x :: xs).map Session.root) mayReply directory (rootVisit x.root)
            (x.run (afterwards s xs)) v := by
  have hroot (y : Session) (hy : y ∈ x :: xs) :
      Steady.IsRootOf ((x :: xs).map Session.root) (rootVisit y.root) :=
    ⟨y.root, List.mem_map_of_mem hy, rfl⟩
  obtain ⟨hdirectory, hdigest⟩ := hx x List.mem_cons_self
  obtain ⟨base, shelf, hk, hs⟩ := exists_kept_of_vacant h
    (fun y hy => ⟨(hx y hy).1, hroot y hy⟩)
    (fun y hy => custom_documents (hx y (List.mem_cons_of_mem x hy)).2 hroots) hf
    (custom_documents hdigest hroots) hf'
  have h0 : x.policy.directory.contains '\x00' = false :=
    hdirectory ▸ Store.noZero_of_makeDirectories h.1
  obtain rfl := hdirectory
  exact ⟨base, shelf, hk.shelved, fun names q c hq hc =>
    hk.exists_compiled hs (asked_session h0 _) (hroot x List.mem_cons_self) hq hc⟩

end SpecTree.Plan
