import SpecTree.Proofs.Plan.Accounting
import SpecTree.Proofs.Plan.Upkeep

/-!
# Where artifacts come from

Every node on a shelf was called for: the root by some compilation, any other node by the record of
its parent (`IsSource`). This outlives single compilations, since a node goes away with all below it
before it is compiled again. What the artifacts of a node have to do with the visit that left them is
a parameter, `made`; a `Custom` says that compiling respects it.

1. A compilation calls for its root and for the children of its results (`Called`), and each result
   is backed by artifacts (`Backs`).
2. `Kept` says so of a compilation as a whole; every step keeps it (`Kept.step`).
-/

namespace SpecTree.Plan

open TreeState

/-- The children that a record calls for. -/
def visitsOf (names : List String) (rec : Record) : List Visit :=
  visitsBelow
    { nodePath := rec.nodePath
      ancestry := rootName :: names
      isLeaf := rec.isLeaf
      children := rec.children }

theorem visitsBelow_eq_visitsOf {r : NodeResult} {names : List String} {rec : Record}
    (ha : r.ancestry = rootName :: names) (hl : r.isLeaf = rec.isLeaf)
    (hc : r.children = rec.children) : visitsBelow r = visitsOf names rec := by
  unfold visitsOf visitsBelow
  rw [ha, hl, hc]

/-- Siblings are told apart by their names. -/
theorem eq_of_mem_visitsBelow {r : NodeResult} (hr : IsAncestry r.ancestry) {v v' : Visit}
    (hv : v ∈ visitsBelow r) (hv' : v' ∈ visitsBelow r) (h : v.ancestry = v'.ancestry) : v = v' := by
  have hnd : ((visitsBelow r).map Visit.ancestry).Nodup := by
    cases hl : r.isLeaf with
    | true =>
      rw [visitsBelow_of_isLeaf hl]
      exact List.nodup_nil
    | false =>
      rw [ancestries_visitsBelow hr hl]
      exact (nodup_distinctNames _).map fun n m he =>
        List.singleton_inj.1 (List.append_cancel_left he)
  exact List.inj_on_of_nodup_map hnd hv hv' h

/-! ## Shelves -/

/-- The record, where there is one, calls a node a leaf if it has no children; no other node has a
context. -/
structure Papers.IsSane (q : Papers) : Prop where
  isLeaf : ∀ rec, q.record = some rec → rec.isLeaf = rec.children.isEmpty
  context : ∀ rec c, q.record = some rec → q.context = some c → rec.isLeaf = true

variable {isRoot : Visit → Prop} {made : Visit → Papers → Prop} {shelf shelf' : Shelf}
  {names : List String} {q : Papers} {v v' : Visit}

/-- A node is called for: as a root, or by the record of its parent. -/
def IsSource (isRoot : Visit → Prop) (shelf : Shelf) (names : List String) (v : Visit) : Prop :=
  v.ancestry = rootName :: names ∧
    (isRoot v ∨ ∃ ns q rec, shelf ns = some q ∧ q.record = some rec ∧ v ∈ visitsOf ns rec)

/-- **Every node is called for**, and its artifacts are what the call leads to. -/
def Drawn (isRoot : Visit → Prop) (made : Visit → Papers → Prop) (shelf : Shelf) : Prop :=
  ∀ names q, shelf names = some q → ∃ v, IsSource isRoot shelf names v ∧ made v q ∧ q.IsSane

theorem isAncestry_of_names (hn : ∀ n ∈ names, IsNodeName n) : IsAncestry (rootName :: names) :=
  ⟨names, rfl, hn⟩

/-- What calls for a node below the root is its parent. -/
theorem IsSource.parent (hn : ∀ ns q, shelf ns = some q → ∀ n ∈ ns, IsNodeName n)
    (hroot : ∀ v, isRoot v → v.ancestry = [rootName]) (h : IsSource isRoot shelf names v) :
    isRoot v ∧ names = [] ∨ ∃ ns n q rec, names = ns ++ [n] ∧ shelf ns = some q ∧ q.record = some rec
      ∧ rec.isLeaf = false ∧ v ∈ visitsOf ns rec := by
  obtain ⟨ha, hr | ⟨ns, q, rec, hq, hrec, hv⟩⟩ := h
  · refine .inl ⟨hr, ?_⟩
    rw [hroot v hr] at ha
    exact (List.cons.inj ha).2.symm
  · refine .inr ⟨ns, ?_⟩
    obtain ⟨hl, n, -, he⟩ :=
      exists_name_of_mem_visitsBelow (isAncestry_of_names (hn ns q hq)) hv
    rw [ha] at he
    exact ⟨n, q, rec, (List.cons.inj he).2, hq, hrec, hl, hv⟩

/-- A call depends on the parent alone. -/
theorem IsSource.congr (hn : ∀ ns q, shelf ns = some q → ∀ n ∈ ns, IsNodeName n)
    (hroot : ∀ v, isRoot v → v.ancestry = [rootName]) (h : IsSource isRoot shelf names v)
    (he : ∀ ns n, names = ns ++ [n] → shelf' ns = shelf ns) : IsSource isRoot shelf' names v := by
  refine ⟨h.1, ?_⟩
  rcases h.parent hn hroot with ⟨hr, -⟩ | ⟨ns, n, q, rec, hnames, hq, hrec, -, hv⟩
  · exact .inl hr
  · exact .inr ⟨ns, q, rec, (he ns n hnames).trans hq, hrec, hv⟩

/-- **Two calls for one node are the same**, except that of a root. -/
theorem IsSource.unique (hn : ∀ ns q, shelf ns = some q → ∀ n ∈ ns, IsNodeName n)
    (hroot : ∀ v, isRoot v → v.ancestry = [rootName]) (h : IsSource isRoot shelf names v)
    (h' : IsSource isRoot shelf names v') : v = v' ∨ isRoot v ∧ isRoot v' := by
  rcases h.parent hn hroot with ⟨hr, h0⟩ | ⟨ns, n, q, rec, hnames, hq, hrec, -, hv⟩
  · rcases h'.parent hn hroot with ⟨hr', -⟩ | ⟨ns, n, q, rec, hnames, -⟩
    · exact .inr ⟨hr, hr'⟩
    · simp [h0] at hnames
  · rcases h'.parent hn hroot with ⟨-, h0⟩ | ⟨ns', n', q', rec', hnames', hq', hrec', -, hv'⟩
    · simp [h0] at hnames
    · obtain ⟨rfl, -⟩ := List.append_inj' (hnames.symm.trans hnames') rfl
      obtain rfl := Option.some.inj (hq.symm.trans hq')
      obtain rfl := Option.some.inj (hrec.symm.trans hrec')
      exact .inl (eq_of_mem_visitsBelow (isAncestry_of_names (hn ns q hq)) hv hv'
        (h.1.trans h'.1.symm))

theorem hasParents_of_isSource (hn : ∀ ns q, shelf ns = some q → ∀ n ∈ ns, IsNodeName n)
    (hroot : ∀ v, isRoot v → v.ancestry = [rootName]) (h : IsSource isRoot shelf names v) :
    HasParents shelf names := by
  intro ns n he
  rcases h.parent hn hroot with ⟨-, h0⟩ | ⟨ns', n', q, rec, hnames, hq, -⟩
  · simp [h0] at he
  · rw [(List.append_inj' (he.symm.trans hnames) rfl).1]
    exact ⟨q, hq⟩

/-- **New artifacts of a node** that is called for, and none below it. -/
theorem Drawn.replace (hn : ∀ ns q, shelf ns = some q → ∀ n ∈ ns, IsNodeName n)
    (hroot : ∀ v, isRoot v → v.ancestry = [rootName]) (h : Drawn isRoot made shelf)
    (hs : IsSource isRoot shelf names v) (hm : made v q) (hq : q.IsSane) :
    Drawn isRoot made (shelf.replace names q) := by
  have habove {ns ms : List String} {m : String} (he : ns = ms ++ [m]) (hp : ¬ names <+: ns) :
      shelf.replace names q ms = shelf ms :=
    shelf.replace_of_not_prefix (fun hp' => hp (he ▸ hp'.trans (List.prefix_append ms [m]))) q
  intro ns p hp
  rcases Shelf.replace_cases hp with ⟨rfl, rfl⟩ | ⟨hnot, hp⟩
  · refine ⟨v, hs.congr hn hroot fun ms m he => ?_, hm, hq⟩
    refine shelf.replace_of_not_prefix (fun hle => ?_) p
    have := hle.length_le
    rw [he, List.length_append, List.length_singleton] at this
    omega
  · obtain ⟨w, hw, hm', hq'⟩ := h ns p hp
    exact ⟨w, hw.congr hn hroot fun ms m he => habove he hnot, hm', hq'⟩

/-- Nothing lies below a node without a record. -/
theorem replace_eq_put (hs : ∀ ns p, shelf ns = some p → ∀ pre, pre <+: ns → ∃ p', shelf pre = some p')
    (hn : ∀ ns q, shelf ns = some q → ∀ n ∈ ns, IsNodeName n)
    (hroot : ∀ v, isRoot v → v.ancestry = [rootName]) (h : Drawn isRoot made shelf)
    (hq : shelf names = some q) (hr : q.record = none) (p : Papers) :
    shelf.replace names p = shelf.put names p := by
  funext ns
  by_cases he : ns = names
  · rw [he, Shelf.replace_self, Shelf.put_self]
  · rw [Shelf.replace, Shelf.put_of_ne _ he, Shelf.put_of_ne _ he]
    by_cases hp : names <+: ns
    · rw [shelf.wipe_of_prefix hp]
      refine (Option.eq_none_iff_forall_ne_some.2 fun p' hp' => ?_).symm
      obtain ⟨more, rfl⟩ := hp
      obtain ⟨n, more, rfl⟩ := List.exists_cons_of_ne_nil
        (show more ≠ [] from fun h0 => he (by rw [h0, List.append_nil]))
      obtain ⟨p'', hp''⟩ := hs _ p' hp' (names ++ [n]) ⟨more, by simp⟩
      obtain ⟨w, hw, -⟩ := h _ _ hp''
      rcases hw.parent hn hroot with ⟨-, h0⟩ | ⟨ms, m, q', rec, hms, hq', hrec, -⟩
      · simp at h0
      · rw [← (List.append_inj' hms rfl).1, hq] at hq'
        obtain rfl := Option.some.inj hq'
        rw [hr] at hrec
        cases hrec
    · exact shelf.wipe_of_not_prefix hp

/-! ## Compilations -/

/-- An outcome that a visit may come to. -/
def MayEnd (p : TreePolicy) (mayReply : Request → Except Failure Expansion → Prop) (v : Visit)
    (o : Outcome) : Prop :=
  v.isPlainLeaf p.node.smallSpec = true ∧ o = .plain ∨
    v.isPlainLeaf p.node.smallSpec = false ∧ ∃ reply, mayReply v.request reply ∧ o = .ofReply reply

/-- The difference has the digests of a visit. -/
def HasDigests (p : TreePolicy) (v : Visit) (d : Difference) : Prop :=
  d.specHash = p.node.digest v.spec ∧ d.contextHash = v.context.fingerprint p.node.digest

/-- Compiling leaves what `made` says, and a record that is used again still stands for it. -/
structure Custom (p : TreePolicy) (mayReply : Request → Except Failure Expansion → Prop)
    (isRoot : Visit → Prop) (made : Visit → Papers → Prop) : Prop where
  root : ∀ v, isRoot v → v.ancestry = [rootName]
  spec : ∀ v : Visit, made v { spec := v.spec }
  reuse : ∀ v v' q rec, isRoot v → isRoot v' → made v' q → q.record = some rec →
    rec.specHash = p.node.digest v.spec → rec.contextHash = v.context.fingerprint p.node.digest →
    made v q
  leaves : ∀ (d : Draft) o errors q, HasDigests p d.visit d.difference →
    MayEnd p mayReply d.visit o → Leaves d p.node.stamp o errors q → made d.visit q

/-- A compilation of `u` calls for a visit. -/
def Called (u : Visit) (c : Census) (v : Visit) : Prop := v = u ∨ ∃ r ∈ c.results, v ∈ visitsBelow r

theorem Called.congr {u v : Visit} {c c' : Census} (h : c'.results = c.results)
    (hv : Called u c v) : Called u c' v := by
  unfold Called at hv ⊢
  rwa [h]

theorem Called.settle {u v : Visit} {c : Census} (hv : Called u c v) (r : NodeResult) :
    Called u (c.settle r) v := by
  rcases hv with rfl | ⟨r', hr', hv⟩
  · exact .inl rfl
  · exact .inr ⟨r', List.mem_append_left _ hr', hv⟩

theorem Called.isAncestry {u v : Visit} {c : Census} (hv : Called u c v) (hn : c.Named)
    (hu : u.ancestry = [rootName]) : IsAncestry v.ancestry := by
  rcases hv with rfl | ⟨r, hr, hv⟩
  · exact hu ▸ isAncestry_root
  · exact isAncestry_of_mem_visitsBelow (hn.results r hr).ancestry hv

/-- No other visit than the root's is called for at the root. -/
theorem Called.eq_root {u v : Visit} {c : Census} (hv : Called u c v) (hn : c.Named)
    (ha : v.ancestry = [rootName]) : v = u := by
  rcases hv with rfl | ⟨r, hr, hv⟩
  · rfl
  · obtain ⟨ns, hns, -⟩ := (hn.results r hr).ancestry
    obtain ⟨-, n, -, he⟩ := exists_name_of_mem_visitsBelow (hn.results r hr).ancestry hv
    rw [ha, hns] at he
    simp at he

/-- A node waits for its reply with its spec alone. -/
structure Drafted (p : TreePolicy) (shelf : Shelf) (d : Draft) : Prop where
  papers : ∀ names, d.visit.ancestry = rootName :: names → shelf names = some { spec := d.visit.spec }
  digests : HasDigests p d.visit d.difference
  notPlain : d.visit.isPlainLeaf p.node.smallSpec = false

/-- The artifacts behind the result of a visit: it agrees with the record, unless the provider
failed. -/
structure Backs (mayReply : Request → Except Failure Expansion → Prop) (made : Visit → Papers → Prop)
    (shelf : Shelf) (v : Visit) (r : NodeResult) (names : List String) (q : Papers) : Prop where
  visit : v.ancestry = rootName :: names
  result : r.ancestry = rootName :: names
  papers : shelf names = some q
  made : made v q
  isSane : q.IsSane
  agrees : (∃ rec, q.record = some rec ∧ r.isLeaf = rec.isLeaf ∧ r.children = rec.children) ∨
    q.record = none ∧ r.isLeaf = true ∧ ∃ e, mayReply v.request (.error e)
  told : r.isLeaf = true → q.context = none → ∃ e ∈ r.errors, IsWriteFailure e

/-- **What a compilation keeps to**, on a store that holds a shelf. -/
structure Kept (p : TreePolicy) (mayReply : Request → Except Failure Expansion → Prop)
    (isRoot : Visit → Prop) (made : Visit → Papers → Prop) (base : Place) (u : Visit) (c : Census)
    (shelf : Shelf) : Prop where
  shelved : Shelved c.store p.directory base shelf
  drawn : Drawn isRoot made shelf
  pending : ∀ v ∈ c.pending, Called u c v
  drafts : ∀ d ∈ c.waiting ++ c.inFlight, Called u c d.visit ∧ Drafted p shelf d
  results : ∀ r ∈ c.results, ∃ v names q, Called u c v ∧ Backs mayReply made shelf v r names q

theorem Leaves.isSane {d : Draft} {stamp : String} {o : Outcome} {errors : List String}
    (h : Leaves d stamp o errors q) : q.IsSane where
  isLeaf := by
    intro rec hrec
    rw [h.record] at hrec
    split at hrec
    · cases hrec
    · obtain rfl := Option.some.inj hrec
      rfl
  context := by
    intro rec c hrec hc
    rw [h.record] at hrec
    split at hrec
    · cases hrec
    · obtain rfl := Option.some.inj hrec
      rcases h.context with h0 | ⟨hl, -⟩
      · rw [h0] at hc
        cases hc
      · exact hl

theorem isPlainLeaf_of_judge {p : NodePolicy} {v : Visit} {d : Difference} :
    (judge p v d = .keepLeaf → v.isPlainLeaf p.smallSpec = true) ∧
      (judge p v d = .ask → v.isPlainLeaf p.smallSpec = false) := by
  unfold judge
  split
  · exact ⟨nofun, nofun⟩
  · cases v.isPlainLeaf p.smallSpec with
    | true => exact ⟨fun _ => rfl, nofun⟩
    | false => exact ⟨nofun, fun _ => rfl⟩

theorem mem_moved_iff {α : Type} {before after l : List α} {a x : α} :
    x ∈ before ++ after ++ (l ++ [a]) ↔ x ∈ before ++ a :: after ++ l := by
  rw [List.mem_append, List.mem_append (s := l), List.mem_singleton,
    List.mem_append (s := before ++ a :: after), mem_split_iff, or_assoc, or_comm (a := x = a)]

namespace Kept

variable {p : TreePolicy} {mayReply : Request → Except Failure Expansion → Prop} {base : Place}
  {u : Visit} {c c' : Census} {t : Store}

theorem named (h : Kept p mayReply isRoot made base u c shelf) :
    ∀ ns q, shelf ns = some q → ∀ n ∈ ns, IsNodeName n := fun _ _ hq => h.shelved.named hq

/-- What a compilation calls for is called for on the shelf. -/
theorem isSource (h : Kept p mayReply isRoot made base u c shelf) (hu : isRoot u)
    (hv : Called u c v) (ha : v.ancestry = rootName :: names) : IsSource isRoot shelf names v := by
  refine ⟨ha, ?_⟩
  rcases hv with rfl | ⟨r, hr, hv⟩
  · exact .inl hu
  · obtain ⟨w, ns, q, -, hb⟩ := h.results r hr
    rcases hb.agrees with ⟨rec, hrec, hl, hc⟩ | ⟨-, hl, -⟩
    · exact .inr ⟨ns, q, rec, hb.papers, hrec, visitsBelow_eq_visitsOf hb.result hl hc ▸ hv⟩
    · rw [visitsBelow_of_isLeaf hl] at hv
      cases hv

/-- Two visits that a compilation calls for stand for different nodes. -/
theorem eq_of_called (h : Kept p mayReply isRoot made base u c shelf) (hn : c.Named)
    (hroot : ∀ v, isRoot v → v.ancestry = [rootName]) (hu : isRoot u) (hv : Called u c v)
    (hv' : Called u c v') (he : v.ancestry = v'.ancestry) : v = v' := by
  obtain ⟨names, ha, -⟩ := hv.isAncestry hn (hroot u hu)
  rcases (h.isSource hu hv ha).unique h.named hroot (h.isSource hu hv' (he.symm.trans ha))
    with heq | ⟨hr, hr'⟩
  · exact heq
  · rw [hv.eq_root hn (hroot v hr), hv'.eq_root hn (hroot v' hr')]

/-- A result brings its children along. -/
theorem settle (h : Kept p mayReply isRoot made base u c shelf) {r : NodeResult}
    (hv : Called u c v) (hb : Backs mayReply made shelf v r names q) :
    Kept p mayReply isRoot made base u (c.settle r) shelf := by
  refine ⟨h.shelved, h.drawn, fun w hw => ?_, fun d hd => ?_, fun r' hr' => ?_⟩
  · rcases List.mem_append.1 hw with hw | hw
    · exact (h.pending w hw).settle r
    · exact .inr ⟨r, List.mem_append_right _ (List.mem_singleton_self r), hw⟩
  · exact ⟨(h.drafts d hd).1.settle r, (h.drafts d hd).2⟩
  · rcases List.mem_append.1 hr' with hr' | hr'
    · obtain ⟨w, ns, q', hw, hb'⟩ := h.results r' hr'
      exact ⟨w, ns, q', hw.settle r, hb'⟩
    · rw [List.mem_singleton.1 hr']
      exact ⟨v, names, q, hv.settle r, hb⟩

/-- **New artifacts of a node that is not settled** leave the other nodes as they are. -/
theorem replace (hC : Custom p mayReply isRoot made)
    (h : Kept p mayReply isRoot made base u c shelf) (hs : c.Sound p)
    (hsource : IsSource isRoot shelf names v) (hm : made v q) (hq : q.IsSane)
    (ht : Shelved c'.store p.directory base (shelf.replace names q))
    (hres : c'.results = c.results) (hpend : ∀ v ∈ c'.pending, v ∈ c.pending)
    (hdrafts : ∀ d ∈ c'.waiting ++ c'.inFlight, d ∈ c.waiting ++ c.inFlight)
    (hperm : (nodePath (rootName :: names) :: c'.paths).Perm c.paths) :
    Kept p mayReply isRoot made base u c' (shelf.replace names q) := by
  have hkeep {ns : List String} (hns : ∀ n ∈ ns, IsNodeName n)
      (hx : nodePath (rootName :: ns) ∈ c'.paths) : shelf.replace names q ns = shelf ns := by
    refine shelf.replace_of_not_prefix (hs.booked.not_above hs.named hns
      (hperm.trans hs.booked.paths) (fun r hr => ?_) hx) q
    exact Census.mem_paths_of_mem_results (hres ▸ hr)
  refine ⟨ht, h.drawn.replace h.named hC.root hsource hm hq, 
    fun w hw => (h.pending w (hpend w hw)).congr hres, fun d hd => ?_, fun r hr => ?_⟩
  · obtain ⟨hcall, hd'⟩ := h.drafts d (hdrafts d hd)
    refine ⟨hcall.congr hres, fun ns hns => ?_, hd'.digests, hd'.notPlain⟩
    have hpath : nodePath (rootName :: ns) ∈ c'.paths := by
      rw [← hns]
      refine List.mem_append_left _ (List.mem_append_right _ (List.mem_append_left _
        (List.mem_append_left _ ?_)))
      rw [← List.map_append]
      exact List.mem_map_of_mem (f := fun d : Draft => d.visit.path) hd
    have hpapers := hd'.papers ns hns
    rwa [hkeep (h.shelved.named hpapers) hpath]
  · rw [hres] at hr
    obtain ⟨w, ns, q', hw, hb⟩ := h.results r hr
    have hpath : nodePath (rootName :: ns) ∈ c'.paths := by
      rw [← hb.result, ← (hs.named.results r hr).path]
      exact Census.mem_paths_of_mem_results (hres ▸ hr)
    refine ⟨w, ns, q', hw.congr hres, { hb with papers := ?_ }⟩
    rw [hkeep (h.shelved.named hb.papers) hpath, hb.papers]

/-- Nothing below a node that waits for its reply is there. -/
theorem replace_draft (hC : Custom p mayReply isRoot made)
    (h : Kept p mayReply isRoot made base u c shelf) {spec : String}
    (hq : shelf names = some { spec }) (p : Papers) : shelf.replace names p = shelf.put names p :=
  replace_eq_put (fun _ _ hp _ hpre => h.shelved.prefix_mem hp hpre) h.named hC.root h.drawn hq rfl p

/-- What is known when a pending visit is taken up. -/
theorem pending_split (h : Kept p mayReply isRoot made base u c shelf) (hs : c.Sound p)
    (hu : isRoot u) {before after : List Visit} (hp : c.pending = before ++ v :: after) :
    Called u c v ∧ (∀ w ∈ before ++ after, Called u c w) ∧
      ∃ names, v.ancestry = rootName :: names ∧ (∀ n ∈ names, IsNodeName n)
        ∧ IsSource isRoot shelf names v := by
  obtain ⟨hv, hrest⟩ := Census.forall_mem_split hp h.pending
  obtain ⟨names, ha, hn⟩ := (Census.forall_mem_split hp hs.named.pending).1
  exact ⟨hv, hrest, names, ha, hn, h.isSource hu hv ha⟩

/-- What is known of it when it has been prepared: the node has its spec on the shelf, and nothing is below it. -/
theorem prepared (hC : Custom p mayReply isRoot made) (hu : isRoot u)
    (h : Kept p mayReply isRoot made base u c shelf) (hs : c.Sound p) {before after : List Visit}
    (hp : c.pending = before ++ v :: after) {d : Difference} {draft : Draft} {store : Store} {lines : List Log.Line}
    (he : examine p.node c.store p.directory v = .ok (d, lines))
    (hd : prepare c.store p.directory v d = .ok (store, draft)) :
    ∃ names, v.ancestry = rootName :: names ∧ IsSource isRoot shelf names v
      ∧ draft = { visit := v, difference := d } ∧ HasDigests p v d
      ∧ Shelved store p.directory base (shelf.replace names { spec := v.spec }) := by
  obtain ⟨-, -, names, hav, hn, hsource⟩ := h.pending_split hs hu hp
  have hup := hasParents_of_isSource h.named hC.root hsource
  obtain ⟨hfits, hspec, hcontext, -⟩ := h.shelved.examine hav hn hup he
  obtain ⟨t, hd', ht⟩ := h.shelved.prepare hav hn hup hfits d
  obtain ⟨rfl, rfl⟩ := Prod.mk.inj (Except.ok.inj (hd'.symm.trans hd))
  exact ⟨names, hav, hsource, rfl, ⟨hspec, hcontext⟩, ht⟩

/-- **A visit answered from a record** is backed by what is on the shelf. -/
theorem backs_reuse (hC : Custom p mayReply isRoot made)
    (h : Kept p mayReply isRoot made base u c shelf) (hsource : IsSource isRoot shelf names v)
    (hn : ∀ n ∈ names, IsNodeName n) {d : Difference} {r : Record} {lines : List Log.Line}
    (he : examine p.node c.store p.directory v = .ok (d, lines))
    (hj : judge p.node v d = .reuse r) :
    ∃ q, Backs mayReply made shelf v (v.reuse r d.reason) names q := by
  obtain ⟨-, hd, hd', hall⟩ := h.shelved.examine hsource.1 hn
    (hasParents_of_isSource h.named hC.root hsource) he
  obtain ⟨q, hq, hrec, hspec, hctx, hleaf⟩ := hall r hj
  obtain ⟨w, hw, hm, hsane⟩ := h.drawn names q hq
  have hmv : made v q := by
    rcases hsource.unique h.named hC.root hw with rfl | ⟨hr, hr'⟩
    · exact hm
    · exact hC.reuse v w q r hr hr' hm hrec (hspec.trans hd) (hctx.trans hd')
  refine ⟨q, hsource.1, hsource.1, hq, hmv, hsane, .inl ⟨r, hrec, rfl, rfl⟩, fun hl h0 => ?_⟩
  obtain ⟨x, hx⟩ := hleaf hl
  rw [h0] at hx
  cases hx

/-- **A visit that ends** is backed by what its end leaves. -/
theorem backs_finish {d d' : Draft} {o : Outcome} (hd : d'.visit = d.visit)
    (ha : d.visit.ancestry = rootName :: names) (ho : MayEnd p mayReply d.visit o)
    (hl : Leaves d p.node.stamp o d'.errors q) (hm : made d.visit q) (hq : shelf names = some q) :
    Backs mayReply made shelf d.visit (Draft.result d' o) names q := by
  refine ⟨ha, ?_, hq, hm, hl.isSane, ?_, hl.told⟩
  · show d'.visit.ancestry = _
    rw [hd, ha]
  · have hrec := hl.record
    rcases ho with ⟨-, rfl⟩ | ⟨-, reply, hr, rfl⟩
    · exact .inl ⟨_, hrec, rfl, rfl⟩
    · cases reply with
      | ok e => exact .inl ⟨_, hrec, rfl, rfl⟩
      | error e => exact .inr ⟨hrec, rfl, e, hr⟩

/-- A node kept as a leaf without asking. -/
theorem keep (hC : Custom p mayReply isRoot made) (hu : isRoot u)
    (h : Kept p mayReply isRoot made base u c shelf) (hs : c.Sound p) {before after : List Visit}
    {d : Difference} {draft : Draft} {store store' : Store} {result : NodeResult}
    {lines lines' : List Log.Line} (hp : c.pending = before ++ v :: after)
    (he : examine p.node c.store p.directory v = .ok (d, lines))
    (hj : judge p.node v d = .keepLeaf) (hd : prepare c.store p.directory v d = .ok (store, draft))
    (hf : { draft with lines := [] }.finish p.node.stamp store p.directory .plain
      = .ok (store', result, lines'))
    (hc : c' = { c with store := store', pending := before ++ after, visited := c.visited + 1 }) :
    ∃ shelf', Kept p mayReply isRoot made base u (c'.settle result) shelf' := by
  have hv := (h.pending_split hs hu hp).1
  obtain ⟨names, hav, hsource, rfl, hdigests, ht⟩ := h.prepared hC hu hs hp he hd
  obtain ⟨t', d', lines'', q, hf', hdv, ht', hl, -⟩ :=
    ht.finish (d := { visit := v, difference := d }) hav (Shelf.replace_self ..) p.node.stamp .plain
  obtain ⟨rfl, hr⟩ := Prod.mk.inj (Except.ok.inj (hf'.symm.trans hf))
  obtain ⟨rfl, -⟩ := Prod.mk.inj hr
  have ho : MayEnd p mayReply v .plain := .inl ⟨isPlainLeaf_of_judge.1 hj, rfl⟩
  have hm := hC.leaves { visit := v, difference := d } .plain _ q hdigests ho hl
  have hres : c'.results = c.results := by rw [hc]
  have hk : Kept p mayReply isRoot made base u c' (shelf.replace names q) := by
    refine h.replace hC hs hsource hm hl.isSane ?_ hres (fun w hw => ?_) (fun w hw => ?_) ?_
    · rw [hc]
      rwa [Shelf.replace, Shelf.put_put] at ht'
    · rw [hc] at hw
      rw [hp]
      exact mem_split_of_mem hw
    · rwa [hc] at hw
    · rw [← hav, hc]
      exact Census.perm_paths_of_pending hp rfl rfl rfl
  exact ⟨_, hk.settle (hv.congr hres) (backs_finish hdv hav ho hl hm (Shelf.replace_self ..))⟩

/-- A node that waits for a call. -/
theorem wait (hC : Custom p mayReply isRoot made) (hu : isRoot u)
    (h : Kept p mayReply isRoot made base u c shelf) (hs : c.Sound p) {before after : List Visit}
    {d : Difference} {draft : Draft} {store : Store} {lines : List Log.Line}
    (hp : c.pending = before ++ v :: after)
    (he : examine p.node c.store p.directory v = .ok (d, lines)) (hj : judge p.node v d = .ask)
    (hd : prepare c.store p.directory v d = .ok (store, draft))
    (hc : c' = { c with
      store
      pending := before ++ after
      waiting := c.waiting ++ [{ draft with lines := [] }]
      visited := c.visited + 1
      calls := c.calls + 1 }) :
    ∃ shelf', Kept p mayReply isRoot made base u c' shelf' := by
  obtain ⟨hv, hrest, -⟩ := h.pending_split hs hu hp
  obtain ⟨names, hav, hsource, rfl, hdigests, ht⟩ := h.prepared hC hu hs hp he hd
  have hres : c'.results = c.results := by rw [hc]
  have hk : Kept p mayReply isRoot made base u { c with store, pending := before ++ after }
      (shelf.replace names { spec := v.spec }) := by
    refine h.replace hC hs hsource (hC.spec v) ⟨nofun, nofun⟩ ht rfl (fun w hw => ?_)
      (fun w hw => hw) ?_
    · rw [hp]
      exact mem_split_of_mem hw
    · rw [← hav]
      exact Census.perm_paths_of_pending hp rfl rfl rfl
  refine ⟨_, ?_, hk.drawn, fun w hw => ?_, fun w hw => ?_, fun r hr => ?_⟩
  · rw [hc]
    exact hk.shelved
  · rw [hc] at hw
    exact (hrest w hw).congr hres
  · have hw' : w ∈ c.waiting ++ c.inFlight ∨ w = { visit := v, difference := d } := by
      rw [hc] at hw
      rcases List.mem_append.1 hw with hw | hw
      · rcases List.mem_append.1 hw with hw | hw
        · exact .inl (List.mem_append_left _ hw)
        · exact .inr (List.mem_singleton.1 hw)
      · exact .inl (List.mem_append_right _ hw)
    rcases hw' with hw | rfl
    · exact ⟨(h.drafts w hw).1.congr hres, (hk.drafts w hw).2⟩
    · refine ⟨hv.congr hres, fun ns hns => ?_, hdigests, isPlainLeaf_of_judge.2 hj⟩
      obtain rfl := (List.cons.inj (hns.symm.trans hav)).2
      exact Shelf.replace_self ..
  · obtain ⟨w, ns, q, hw, hb⟩ := hk.results r (hres ▸ hr)
    exact ⟨w, ns, q, hw.congr hres, hb⟩

/-- A call that ends. -/
theorem finish (hC : Custom p mayReply isRoot made) (hu : isRoot u)
    (h : Kept p mayReply isRoot made base u c shelf) (hs : c.Sound p) {before after : List Draft}
    {d : Draft} {reply : Except Failure Expansion} {store : Store} {result : NodeResult}
    {lines : List Log.Line} (hi : c.inFlight = before ++ d :: after)
    (hr : mayReply d.visit.request reply)
    (hf : d.finish p.node.stamp c.store p.directory (.ofReply reply) = .ok (store, result, lines))
    (hc : c' = { c with store, inFlight := before ++ after }) :
    ∃ shelf', Kept p mayReply isRoot made base u (c'.settle result) shelf' := by
  obtain ⟨⟨hv, hdr⟩, hrest⟩ := Census.forall_mem_split hi fun d hd =>
    h.drafts d (List.mem_append_right _ hd)
  obtain ⟨names, hav, hn⟩ := (Census.forall_mem_split hi hs.named.inFlight).1
  have hq := hdr.papers names hav
  obtain ⟨t, d', lines', q, hf', hdv, ht, hl, -⟩ :=
    h.shelved.finish hav hq p.node.stamp (.ofReply reply)
  obtain ⟨rfl, hx⟩ := Prod.mk.inj (Except.ok.inj (hf'.symm.trans hf))
  obtain ⟨rfl, -⟩ := Prod.mk.inj hx
  have ho : MayEnd p mayReply d.visit (.ofReply reply) := .inr ⟨hdr.notPlain, reply, hr, rfl⟩
  have hm := hC.leaves d (.ofReply reply) _ q hdr.digests ho hl
  have hres : c'.results = c.results := by rw [hc]
  have hk : Kept p mayReply isRoot made base u c' (shelf.replace names q) := by
    refine h.replace hC hs (h.isSource hu hv hav) hm hl.isSane ?_ hres (fun w hw => ?_)
      (fun w hw => ?_) ?_
    · rw [hc]
      rwa [h.replace_draft hC hq]
    · rwa [hc] at hw
    · rw [hi]
      rw [hc] at hw
      rcases List.mem_append.1 hw with hw | hw
      · exact List.mem_append_left _ hw
      · exact List.mem_append_right _ (mem_split_of_mem hw)
    · rw [← hav, hc]
      exact Census.perm_paths_of_inFlight hi rfl rfl rfl rfl rfl rfl
  exact ⟨_, hk.settle (hv.congr hres) (backs_finish hdv hav ho hl hm (Shelf.replace_self ..))⟩

/-- **Every step keeps to it.** -/
theorem step (hC : Custom p mayReply isRoot made) (hu : isRoot u)
    (h : Kept p mayReply isRoot made base u c shelf) (hs : c.Sound p)
    (hstep : Census.Step p mayReply c c') :
    ∃ shelf', Kept p mayReply isRoot made base u c' shelf' := by
  cases hstep with
  | refuse hp ha =>
    exact ⟨shelf, h.shelved, h.drawn, (h.pending_split hs hu hp).2.1, h.drafts, h.results⟩
  | lose hp ha he =>
    exact ⟨shelf, h.shelved, h.drawn, (h.pending_split hs hu hp).2.1, h.drafts, h.results⟩
  | withdraw hp ha he hj hc =>
    exact ⟨shelf, h.shelved, h.drawn, (h.pending_split hs hu hp).2.1, h.drafts, h.results⟩
  | @reuse before after v d r lines hp ha he hj =>
    obtain ⟨hv, hrest, names, hav, hn, hsource⟩ := h.pending_split hs hu hp
    obtain ⟨q, hb⟩ := h.backs_reuse hC hsource hn he hj
    have hk : Kept p mayReply isRoot made base u
        { c with pending := before ++ after, visited := c.visited + 1 } shelf :=
      ⟨h.shelved, h.drawn, hrest, h.drafts, h.results⟩
    exact ⟨shelf, hk.settle hv hb⟩
  | keep hp ha he hj hd hf => exact h.keep hC hu hs hp he hj hd hf rfl
  | wait hp ha he hj hc hd => exact h.wait hC hu hs hp he hj hd rfl
  | grant hw hlt =>
    refine ⟨shelf, h.shelved, h.drawn, h.pending, fun d hd => h.drafts d ?_, h.results⟩
    rw [hw]
    simp only [List.mem_append, List.mem_cons] at hd ⊢
    tauto
  | finish hi hr hf => exact h.finish hC hu hs hi hr hf rfl

/-- **So does every run.** -/
theorem run (hC : Custom p mayReply isRoot made) (hu : isRoot u)
    (h : Kept p mayReply isRoot made base u c shelf) (hs : c.Sound p)
    (hrun : Relation.ReflTransGen (Census.Step p mayReply) c c') :
    ∃ shelf', Kept p mayReply isRoot made base u c' shelf' := by
  induction hrun with
  | refl => exact ⟨shelf, h⟩
  | tail hrun hstep ih =>
    obtain ⟨shelf', h'⟩ := ih
    exact h'.step hC hu (hs.run hrun) hstep

end Kept

end SpecTree.Plan
