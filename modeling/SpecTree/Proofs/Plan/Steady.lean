import SpecTree.Proofs.Plan.History

/-!
# Compilations with a steady provider

A steady provider answers a request always alike. What a node comes to is then settled by the visit
that calls for it (`Steady.papers`), and so is what it calls for in turn (`Steady.children`).

1. Compiling keeps to that, in whatever state earlier compilations left the plan directory
   (`Steady.custom`). The root may be answered from the record of another root with the same spec;
   any other node only from a record that the same visit left.
2. A compilation that succeeds has on its shelf exactly the nodes that its root leads to, each with
   the artifacts that it comes to (`Steady.core_eq_some_iff`), and a result for each
   (`Steady.mem_summaries_iff`).
-/

namespace SpecTree.Plan

open TreeState

/-- A record without its time stamp. -/
def Record.undated (r : Record) : Record := { r with compiledAt := "" }

/-- Records that differ in their time stamps only have texts that do. -/
theorem record_text_eq_or {q q' : Papers}
    (h : q.record.map Record.undated = q'.record.map Record.undated) :
    q.text? .record = q'.text? .record ∨
      ∃ r r', q.text? .record = some (recordText r) ∧ q'.text? .record = some (recordText r')
        ∧ r.undated = r'.undated := by
  unfold Papers.text?
  cases hr : q.record with
  | none =>
    rw [hr, Option.map_none, eq_comm, Option.map_eq_none_iff] at h
    rw [h]
    exact .inl rfl
  | some r =>
    rw [hr, Option.map_some, eq_comm] at h
    obtain ⟨r', hr', hu⟩ := Option.map_eq_some_iff.1 h
    rw [hr']
    exact .inr ⟨r, r', rfl, rfl, hu.symm⟩

/-- The artifacts of a node without its questions and the time stamp of its record. -/
def Papers.core (q : Papers) : Papers :=
  { q with questions := none, record := q.record.map Record.undated }

/-- What a result tells of the tree. -/
def NodeResult.summary (r : NodeResult) : String × Bool × List ChildSpec :=
  (r.nodePath, r.isLeaf, r.children)

/-- A compilation has gone through, and every file that it had to write could be written. -/
structure Succeeds (t : TreeState) : Prop extends IsWhole t where
  written : ∀ r ∈ t.results, ∀ e ∈ r.errors, ¬ IsWriteFailure e

/-- What stays the same from one compilation to the next. -/
structure Steady where
  digest : String → String
  smallSpec : Int
  answer : Request → Expansion

/-- Roots with the same spec have the same form: they are marked as leaves alike, and have nested
modules alike. -/
def AgreeOnForm (roots : List Spec.Document) : Prop :=
  ∀ a ∈ roots, ∀ b ∈ roots, (Spec.Node.document a).renderBody = (Spec.Node.document b).renderBody →
    isMarkedLeaf (.document a) = isMarkedLeaf (.document b)
      ∧ (Spec.Node.document a).hasNestedModules = (Spec.Node.document b).hasNestedModules

namespace Steady

variable (k : Steady)

/-- Compiling by a policy uses what stays the same. -/
structure Governs (p : TreePolicy) : Prop where
  digest : p.node.digest = k.digest
  smallSpec : p.node.smallSpec = k.smallSpec

/-- A call ends with the provider's answer. -/
def Replies (r : Request) (reply : Except Failure Expansion) : Prop := reply = .ok (k.answer r)

/-- A call ends with the provider's answer, or fails. -/
def MayReply (r : Request) (reply : Except Failure Expansion) : Prop :=
  ∀ e, reply = .ok e → e = k.answer r

/-! ## What a visit comes to -/

def outcome (v : Visit) : Outcome :=
  if v.isPlainLeaf k.smallSpec then .plain else .ofReply (.ok (k.answer v.request))

/-- The record that a visit leaves, without a time stamp. -/
def record (v : Visit) : Record :=
  Draft.record
    { visit := v
      difference := ⟨.notCompiled, k.digest v.spec, v.context.fingerprint k.digest, none⟩ }
    "" (k.outcome v)

/-- The artifacts that a visit leaves, without questions. -/
def papers (v : Visit) : Papers where
  spec := v.spec
  context := if (k.record v).isLeaf then some v.context else none
  record := some (k.record v)

/-- The visits that a visit leads to. -/
def children (v : Visit) : List Visit :=
  visitsBelow
    { nodePath := v.path
      ancestry := v.ancestry
      isLeaf := (k.record v).isLeaf
      children := (k.record v).children }

def summary (v : Visit) : String × Bool × List ChildSpec :=
  (v.path, (k.record v).isLeaf, (k.record v).children)

/-- The visits that a root leads to, over any number of levels. -/
inductive Reaches (u : Visit) : Visit → Prop
  | root : Reaches u u
  | child {v w : Visit} : Reaches u v → w ∈ k.children v → Reaches u w

/-- Artifacts that a visit may have left: those that it comes to, some of them perhaps missing. -/
structure Faithful (v : Visit) (q : Papers) : Prop where
  spec : q.spec = v.spec
  record : ∀ rec, q.record = some rec → rec.undated = k.record v
  context : ∀ c, q.context = some c → c = v.context

variable {k} {roots : List Spec.Document} {p : TreePolicy}

/-- The root of one of the documents. -/
def IsRootOf (roots : List Spec.Document) (v : Visit) : Prop := ∃ a ∈ roots, v = rootVisit a

theorem ancestry_of_isRootOf {v : Visit} (h : IsRootOf roots v) : v.ancestry = [rootName] := by
  obtain ⟨a, -, rfl⟩ := h
  rfl

theorem MayReply.of_replies {r : Request} {reply : Except Failure Expansion}
    (h : k.Replies r reply) : k.MayReply r reply := by
  intro e he
  rw [h] at he
  exact (Except.ok.inj he).symm

/-- Roots with the same spec come to the same. -/
theorem record_eq_of_spec_eq (hroots : AgreeOnForm roots) {v v' : Visit} (hv : IsRootOf roots v)
    (hv' : IsRootOf roots v') (h : v.spec = v'.spec) : k.record v = k.record v' := by
  obtain ⟨a, ha, rfl⟩ := hv
  obtain ⟨b, hb, rfl⟩ := hv'
  obtain ⟨hmarked, hnested⟩ := hroots a ha b hb h
  have hplain : (rootVisit a).isPlainLeaf k.smallSpec = (rootVisit b).isPlainLeaf k.smallSpec := by
    have hm : (rootVisit a).isMarked = (rootVisit b).isMarked := congrArg (false || ·) hmarked
    have hn : (rootVisit a).node.hasNestedModules = (rootVisit b).node.hasNestedModules := hnested
    rw [Visit.isPlainLeaf, Visit.isPlainLeaf, hm, hn, h]
  have hrequest : (rootVisit a).request = (rootVisit b).request := by
    show Request.mk _ _ _ = Request.mk _ _ _
    rw [h]
    rfl
  have ho : k.outcome (rootVisit a) = k.outcome (rootVisit b) := by
    rw [outcome, outcome, hplain, hrequest]
  rw [record, record, ho, h]
  rfl

/-- A record that is written is the one that the visit comes to. -/
theorem undated_record {d : Draft} (hp : k.Governs p) (hd : HasDigests p d.visit d.difference)
    (stamp : String) : (d.record stamp (k.outcome d.visit)).undated = k.record d.visit := by
  obtain ⟨hspec, hcontext⟩ := hd
  rw [hp.digest] at hspec hcontext
  simp only [Record.undated, record, Draft.record, hspec, hcontext]

/-- An outcome with a record is the one that the visit comes to. -/
theorem eq_outcome_of_mayEnd {mayReply : Request → Except Failure Expansion → Prop}
    (hr : ∀ r reply, mayReply r reply → k.MayReply r reply) (hp : k.Governs p) {v : Visit}
    {o : Outcome} (h : MayEnd p mayReply v o) (ho : o.failure.isSome = false) : o = k.outcome v := by
  unfold MayEnd at h
  rw [hp.smallSpec] at h
  rcases h with ⟨hv, rfl⟩ | ⟨hv, reply, hreply, rfl⟩
  · rw [outcome, if_pos hv]
  · rw [outcome, hv, if_neg Bool.false_ne_true]
    cases reply with
    | ok e => rw [hr _ _ hreply e rfl]
    | error e => cases ho

/-- **Compiling leaves what visits come to.** -/
theorem custom (hinj : Function.Injective k.digest) (hroots : AgreeOnForm roots) (hp : k.Governs p)
    {mayReply : Request → Except Failure Expansion → Prop}
    (hr : ∀ r reply, mayReply r reply → k.MayReply r reply) :
    Custom p mayReply (IsRootOf roots) k.Faithful where
  root _ := ancestry_of_isRootOf
  spec v := ⟨rfl, fun _ h => absurd h (by simp), fun _ h => absurd h (by simp)⟩
  reuse := by
    intro v v' q rec hv hv' hq hrec hspec hcontext
    have hfaithful := hq.record rec hrec
    have hs : v.spec = v'.spec := by
      have h := congrArg Record.specHash hfaithful
      rw [hp.digest] at hspec
      exact hinj (hspec.symm.trans h)
    have hc : v.context = v'.context := by
      obtain ⟨a, -, rfl⟩ := hv
      obtain ⟨b, -, rfl⟩ := hv'
      rfl
    rw [← record_eq_of_spec_eq hroots hv hv' hs] at hfaithful
    refine ⟨hq.spec.trans hs.symm, fun rec' hrec' => ?_, fun c h => (hq.context c h).trans hc.symm⟩
    obtain rfl := Option.some.inj (hrec.symm.trans hrec')
    exact hfaithful
  leaves := by
    intro d o errors q hd ho hl
    refine ⟨hl.spec, fun rec hrec => ?_, fun c hc => ?_⟩
    · rw [hl.record] at hrec
      split at hrec
      · cases hrec
      · next hf =>
        obtain rfl := Option.some.inj hrec
        rw [eq_outcome_of_mayEnd hr hp ho (Bool.eq_false_iff.2 hf)]
        exact undated_record hp hd _
    · rcases hl.context with h | ⟨-, h⟩
      · rw [h] at hc
        cases hc
      · exact (Option.some.inj (h.symm.trans hc)).symm

/-! ## A compilation that succeeds -/

variable {u v w : Visit} {base : Place} {shelf : Shelf} {t : TreeState} {names : List String}
  {q : Papers} {r : NodeResult}

/-- What backs a result is all that the visit comes to. -/
theorem core_of_backs (hb : Backs k.Replies k.Faithful shelf v r names q)
    (hr : ∀ e ∈ r.errors, ¬ IsWriteFailure e) :
    q.core = k.papers v ∧ r.isLeaf = (k.record v).isLeaf ∧ r.children = (k.record v).children := by
  obtain ⟨rec, hrec, hl, hc⟩ : ∃ rec, q.record = some rec ∧ r.isLeaf = rec.isLeaf
      ∧ r.children = rec.children := by
    rcases hb.agrees with h | ⟨-, -, e, he⟩
    · exact h
    · cases he
  have hfaithful := hb.made.record rec hrec
  have hleaf : rec.isLeaf = (k.record v).isLeaf := (congrArg Record.isLeaf hfaithful :)
  have hchildren : rec.children = (k.record v).children := (congrArg Record.children hfaithful :)
  refine ⟨?_, hl.trans hleaf, hc.trans hchildren⟩
  have hcontext : q.context = if (k.record v).isLeaf then some v.context else none := by
    cases hq : q.context with
    | some c =>
      rw [← hleaf, hb.isSane.context rec c hrec hq, if_pos rfl, hb.made.context c hq]
    | none =>
      rw [if_neg]
      intro hv
      obtain ⟨e, he, hf⟩ := hb.told (hl.trans (hleaf.trans hv)) hq
      exact hr e he hf
  rw [Papers.core, papers, hb.made.spec, hcontext, hrec, Option.map_some, hfaithful]

theorem visitsBelow_of_backs (hb : Backs k.Replies k.Faithful shelf v r names q)
    (hr : ∀ e ∈ r.errors, ¬ IsWriteFailure e) : visitsBelow r = k.children v := by
  obtain ⟨-, hl, hc⟩ := core_of_backs hb hr
  unfold children visitsBelow
  rw [hl, hc, hb.result, hb.visit]

section

variable (hk : Kept p k.Replies (IsRootOf roots) k.Faithful base u t.census shelf)
  (hs : t.census.Sound p) (hu : IsRootOf roots u)

include hk hs hu

variable (h : Succeeds t)

include h

/-- Every visit that a compilation calls for has a result. -/
theorem exists_backs (hv : Called u t.census v) :
    ∃ r ∈ t.results, ∃ names q, Backs k.Replies k.Faithful shelf v r names q := by
  obtain ⟨r, hr, he⟩ := h.exists_result hs (ancestry_of_isRootOf hu) hv
  obtain ⟨w, names, q, hw, hb⟩ := hk.results r hr
  obtain rfl := hk.eq_of_called hs.named (fun _ => ancestry_of_isRootOf) hu hw hv
    (hb.visit.trans (hb.result.symm.trans he))
  exact ⟨r, hr, names, q, hb⟩

/-- **A compilation that succeeds calls for what its root leads to.** -/
theorem called_iff : Called u t.census v ↔ k.Reaches u v := by
  constructor
  · intro hv
    -- Induction on the depth of the node: what calls for it lies above it.
    induction hn : v.ancestry.length using Nat.strong_induction_on generalizing v with
    | _ n ih =>
      rcases hv with rfl | ⟨r, hr, hv⟩
      · exact .root
      · obtain ⟨w, names, q, hw, hb⟩ := hk.results r hr
        obtain ⟨-, m, -, he⟩ :=
          exists_name_of_mem_visitsBelow (hs.named.results r hr).ancestry hv
        have hlt : w.ancestry.length < n := by
          rw [← hn, he, hb.visit, hb.result, List.length_append, List.length_singleton]
          exact Nat.lt_succ_self _
        rw [visitsBelow_of_backs hb (h.written r hr)] at hv
        exact .child (ih _ hlt hw rfl) hv
  · intro hv
    induction hv with
    | root => exact .inl rfl
    | child _ hw ih =>
      obtain ⟨r, hr, names, q, hb⟩ := exists_backs hk hs hu h ih
      rw [← visitsBelow_of_backs hb (h.written r hr)] at hw
      exact .inr ⟨r, hr, hw⟩

/-- **A compilation that succeeds leaves the artifacts that its root leads to**, and no others. -/
theorem core_eq_some_iff {p' : Papers} :
    (shelf names).map Papers.core = some p' ↔
      ∃ v, k.Reaches u v ∧ v.ancestry = rootName :: names ∧ p' = k.papers v := by
  constructor
  · intro hp
    obtain ⟨q, hq, rfl⟩ := Option.map_eq_some_iff.1 hp
    obtain ⟨r, hr, v, hv, hb⟩ :=
      hk.exists_result hs h.toIsWhole (fun _ => ancestry_of_isRootOf) hu hq
    exact ⟨v, (called_iff hk hs hu h).1 hv, hb.visit, (core_of_backs hb (h.written r hr)).1⟩
  · rintro ⟨v, hv, ha, rfl⟩
    obtain ⟨r, hr, ns, q, hb⟩ := exists_backs hk hs hu h ((called_iff hk hs hu h).2 hv)
    obtain rfl := (List.cons.inj (hb.visit.symm.trans ha)).2
    rw [hb.papers, Option.map_some, (core_of_backs hb (h.written r hr)).1]

/-- **Its results are of the visits that its root leads to.** -/
theorem mem_summaries_iff {o : String × Bool × List ChildSpec} :
    o ∈ t.results.map NodeResult.summary ↔ ∃ v, k.Reaches u v ∧ o = k.summary v := by
  have hsummary {r : NodeResult} {v : Visit} {names : List String} {q : Papers}
      (hr : r ∈ t.results) (hb : Backs k.Replies k.Faithful shelf v r names q) :
      r.summary = k.summary v := by
    obtain ⟨-, hl, hc⟩ := core_of_backs hb (h.written r hr)
    have hpath : r.nodePath = v.path := by
      rw [(hs.named.results r hr).path, Visit.path, hb.visit, hb.result]
    rw [NodeResult.summary, summary, hpath, hl, hc]
  constructor
  · intro ho
    obtain ⟨r, hr, rfl⟩ := List.mem_map.1 ho
    obtain ⟨v, names, q, hv, hb⟩ := hk.results r hr
    exact ⟨v, (called_iff hk hs hu h).1 hv, hsummary hr hb⟩
  · rintro ⟨v, hv, rfl⟩
    obtain ⟨r, hr, names, q, hb⟩ := exists_backs hk hs hu h ((called_iff hk hs hu h).2 hv)
    exact List.mem_map.2 ⟨r, hr, hsummary hr hb⟩

end

end Steady

end SpecTree.Plan
