import SpecTree.Proofs.Plan.Fate

/-!
# Compilations keep to what is foretold

Whatever the order of its moves, a compilation gives every node that it knows of the fate that `Terms`
foretells (`Foretold`). Of the shelf it keeps to `Renewed`: below a node that is compiled nothing is
left from before, and elsewhere all is as it was.

Every step keeps to both (`Fated.step`): a node that changes hands never lies above one in other hands
that is known already, so no step touches what another node is going to find or has left.
-/

namespace SpecTree.Plan

open TreeState

variable {p : TreePolicy} {mayReply : Request → Except Failure Expansion → Prop} {c c' : Census}
  {names : List String} {old shelf shelf' : Shelf} {q : Papers} {v : Visit} {r : NodeResult}

theorem ancestry_eq_names (h : IsAncestry v.ancestry) :
    v.ancestry = rootName :: v.names ∧ ∀ n ∈ v.names, IsNodeName n := by
  obtain ⟨names, he, hn⟩ := h
  rw [Visit.names, he]
  exact ⟨rfl, hn⟩

theorem names_eq (h : v.ancestry = rootName :: names) : v.names = names := by
  rw [Visit.names, h, List.tail_cons]

/-! ## Nodes that are compiled -/

/-- A node has been compiled, or is being compiled; its record is not used again. -/
def Census.Compiles (c : Census) (names : List String) : Prop :=
  (∃ d ∈ c.waiting ++ c.inFlight, d.visit.ancestry = rootName :: names) ∨
    ∃ r ∈ c.results, r.cacheHit = false ∧ r.ancestry = rootName :: names

/-- One more draft. -/
theorem Census.compiles_iff {d : Draft} (hres : c'.results = c.results)
    (hd : ∀ x, x ∈ c'.waiting ++ c'.inFlight ↔ x ∈ c.waiting ++ c.inFlight ∨ x = d)
    (hv : d.visit.ancestry = rootName :: names) (ns : List String) :
    c'.Compiles ns ↔ c.Compiles ns ∨ ns = names := by
  have hdraft : (∃ x ∈ c'.waiting ++ c'.inFlight, x.visit.ancestry = rootName :: ns)
      ↔ (∃ x ∈ c.waiting ++ c.inFlight, x.visit.ancestry = rootName :: ns) ∨ ns = names := by
    simp only [hd, or_and_right, exists_or, exists_eq_left, hv, List.cons_inj_right]
    rw [eq_comm (a := names)]
  rw [Compiles, Compiles, hres, hdraft, or_right_comm]

/-- A node that is still to be visited is not compiled. -/
theorem Census.Sound.not_compiles (hs : c.Sound p) (hv : v ∈ c.pending) : ¬ c.Compiles v.names := by
  have hnd : c.paths.Nodup := hs.booked.paths.nodup_iff.2 hs.booked.once
  have hdisjoint := List.disjoint_of_nodup_append (List.Nodup.of_append_left hnd)
  have hpath : v.path ∈ c.pending.map Visit.path := List.mem_map_of_mem hv
  have ha := (ancestry_eq_names (hs.named.pending v hv)).1
  intro h
  refine hdisjoint hpath ?_
  rw [Visit.path, ha]
  rcases h with ⟨d, hd, he⟩ | ⟨r, hr, -, he⟩
  · rw [← he, Census.admitted, ← List.map_append]
    exact List.mem_append_left _ (List.mem_append_left _
      (List.mem_map_of_mem (f := fun d : Draft => d.visit.path) hd))
  · rw [← he, ← (hs.named.results r hr).path]
    exact List.mem_append_left _ (List.mem_append_right _ (List.mem_map_of_mem hr))

/-- A shelf of which some nodes have been compiled anew: of those below them nothing is left, and all
others are as they were. -/
structure Renewed (old : Shelf) (compiled : List String → Prop) (shelf : Shelf) : Prop where
  cleared : ∀ {names pre}, ¬ compiled names → pre <+: names → compiled pre → shelf names = none
  kept : ∀ {names}, (∀ pre, pre <+: names → ¬ compiled pre) → shelf names = old names

namespace Renewed

variable {compiled compiled' : List String → Prop}

theorem congr (h : Renewed old compiled shelf) (hc : ∀ ns, compiled' ns ↔ compiled ns) :
    Renewed old compiled' shelf := by
  rwa [show compiled' = compiled from funext fun ns => propext (hc ns)]

/-- One more node is compiled. -/
theorem replace (h : Renewed old compiled shelf) (names : List String) (q : Papers) :
    Renewed old (fun ns => compiled ns ∨ ns = names) (shelf.replace names q) where
  cleared := by
    intro ns pre hns hpre hc
    obtain ⟨hns, hne⟩ := not_or.1 hns
    by_cases hp : names <+: ns
    · rw [Shelf.replace, Shelf.put_of_ne _ hne, shelf.wipe_of_prefix hp]
    · rw [shelf.replace_of_not_prefix hp]
      refine h.cleared hns hpre (hc.resolve_right fun he => hp (he ▸ hpre))
  kept := by
    intro ns hns
    rw [shelf.replace_of_not_prefix fun hp => hns names hp (.inr rfl)]
    exact h.kept fun pre hp hc => hns pre hp (.inl hc)

/-- A compiled node gets other artifacts. -/
theorem put (h : Renewed old compiled shelf) (hc : compiled names) (q : Papers) :
    Renewed old compiled (shelf.put names q) where
  cleared := by
    intro ns pre hns hpre hpc
    have hne : ns ≠ names := fun he => hns (he ▸ hc)
    rw [shelf.put_of_ne hne]
    exact h.cleared hns hpre hpc
  kept := by
    intro ns hns
    have hne : ns ≠ names := fun he => hns ns (List.prefix_refl _) (he ▸ hc)
    rw [shelf.put_of_ne hne]
    exact h.kept hns

/-- Nothing above a node that was found is compiled. -/
theorem not_compiled_above (h : Renewed old compiled shelf) (hn : ¬ compiled names)
    (hq : shelf names = some q) : ∀ pre, pre <+: names → ¬ compiled pre := by
  intro pre hp hc
  rw [h.cleared hn hp hc] at hq
  cases hq

end Renewed

/-! ## Every node comes to its fate -/

/-- **What is known of every node in a compilation's hands.** -/
structure Foretold (k : Terms) (old : Shelf) (u : Visit) (stamp : String) (c : Census)
    (shelf : Shelf) : Prop where
  pending : ∀ v ∈ c.pending, k.Due old u v (shelf v.names)
  drafts : ∀ d ∈ c.waiting ++ c.inFlight, ∃ v found dif, d = { visit := v, difference := dif }
    ∧ k.Due old u v found ∧ k.fate v found = .compiled dif (.ofReply (k.answer v.request))
    ∧ shelf v.names = some { spec := v.spec }
  results : ∀ r ∈ c.results, ∃ v found, k.Due old u v found ∧ k.result? v found = some r
    ∧ shelf v.names = k.papers? stamp v found
  failures : ∀ x ∈ c.failures, ∃ found, k.Due old u x.1 found ∧ k.fate x.1 found = .lost x.2

/-- **A compilation keeps to its fate**, on a store that holds a shelf. -/
structure Fated (k : Terms) (old : Shelf) (base : Place) (u : Visit) (p : TreePolicy) (c : Census)
    (shelf : Shelf) : Prop extends Foretold k old u p.node.stamp c shelf where
  shelved : Shelved c.store p.directory base shelf
  renewed : Renewed old c.Compiles shelf

variable {k : Terms} {u : Visit} {stamp : String} {base : Place} {found : Option Papers}

namespace Foretold

/-- A node goes out of the hands, and nothing but this node and those below it changes. -/
theorem without (h : Foretold k old u stamp c shelf) (hs : c.Sound p) (names : List String)
    (hpend : ∀ v ∈ c'.pending, v ∈ c.pending)
    (hdrafts : ∀ d ∈ c'.waiting ++ c'.inFlight, d ∈ c.waiting ++ c.inFlight)
    (hres : c'.results = c.results) (hfail : c'.failures = c.failures)
    (hperm : (nodePath (rootName :: names) :: c'.paths).Perm c.paths)
    (hshelf : ∀ ns, ¬ names <+: ns → shelf' ns = shelf ns) :
    Foretold k old u stamp c' shelf' := by
  have hkeep {v : Visit} (hv : IsAncestry v.ancestry) (hx : v.path ∈ c'.paths) :
      shelf' v.names = shelf v.names := by
    obtain ⟨ha, hn⟩ := ancestry_eq_names hv
    rw [Visit.path, ha] at hx
    refine hshelf _ (hs.booked.not_above hs.named hn (hperm.trans hs.booked.paths) (fun r hr => ?_) hx)
    exact Census.mem_paths_of_mem_results (hres ▸ hr)
  refine ⟨fun v hv => ?_, fun d hd => ?_, fun r hr => ?_, fun x hx => h.failures x (hfail ▸ hx)⟩
  · rw [hkeep (hs.named.pending v (hpend v hv))
      (List.mem_append_left _ (List.mem_append_left _ (List.mem_map_of_mem hv)))]
    exact h.pending v (hpend v hv)
  · obtain ⟨v, found, dif, rfl, hdue, hfate, hq⟩ := h.drafts d (hdrafts d hd)
    have hv : IsAncestry v.ancestry := by
      rcases List.mem_append.1 (hdrafts _ hd) with hd | hd
      · exact hs.named.waiting _ hd
      · exact hs.named.inFlight _ hd
    refine ⟨v, found, dif, rfl, hdue, hfate, ?_⟩
    rw [hkeep hv, hq]
    refine List.mem_append_left _ (List.mem_append_right _ (List.mem_append_left _
      (List.mem_append_left _ ?_)))
    rw [← List.map_append]
    exact List.mem_map_of_mem (f := fun d : Draft => d.visit.path) hd
  · rw [hres] at hr
    obtain ⟨v, found, hdue, hv, hq⟩ := h.results r hr
    have hf := hs.named.results r hr
    have ha := Terms.ancestry_of_result? hv
    refine ⟨v, found, hdue, hv, ?_⟩
    rw [hkeep (ha ▸ hf.ancestry), hq]
    rw [Visit.path, ← ha, ← hf.path]
    exact Census.mem_paths_of_mem_results (hres ▸ hr)

/-- A result brings its children along. -/
theorem settle (h : Foretold k old u stamp c shelf) (hdue : k.Due old u v found)
    (hr : k.result? v found = some r) (hq : shelf v.names = k.papers? stamp v found)
    (hbelow : ∀ w ∈ visitsBelow r, shelf w.names = if r.cacheHit then old w.names else none) :
    Foretold k old u stamp (c.settle r) shelf where
  pending := by
    intro w hw
    rcases List.mem_append.1 hw with hw | hw
    · exact h.pending w hw
    · rw [hbelow w hw]
      exact .child hdue hr hw
  drafts := h.drafts
  results := by
    intro r' hr'
    rcases List.mem_append.1 hr' with hr' | hr'
    · exact h.results r' hr'
    · rw [List.mem_singleton.1 hr']
      exact ⟨v, found, hdue, hr, hq⟩
  failures := h.failures

end Foretold

theorem compiles_settle (c : Census) (r : NodeResult) (ns : List String) :
    (c.settle r).Compiles ns ↔
      c.Compiles ns ∨ r.cacheHit = false ∧ r.ancestry = rootName :: ns := by
  unfold Census.Compiles Census.settle
  simp only [List.mem_append, List.mem_singleton, or_and_right, exists_or, exists_eq_left, or_assoc]

/-- What the children of a settled node find. -/
theorem Renewed.below (h : Renewed old (c.settle r).Compiles shelf) (hs : (c.settle r).Sound p)
    (hreuse : r.cacheHit = true →
      ∀ pre, rootName :: pre <+: r.ancestry → ¬ (c.settle r).Compiles pre) :
    ∀ w ∈ visitsBelow r, shelf w.names = if r.cacheHit then old w.names else none := by
  intro w hw
  have hr : IsAncestry r.ancestry :=
    (hs.named.results r (List.mem_append_right _ (List.mem_singleton_self r))).ancestry
  have hnot : ¬ (c.settle r).Compiles w.names := hs.not_compiles (List.mem_append_right _ hw)
  obtain ⟨-, n, -, he⟩ := exists_name_of_mem_visitsBelow hr hw
  obtain ⟨names, hnames, -⟩ := hr
  have hw' : w.names = names ++ [n] := names_eq (by rw [he, hnames]; rfl)
  rw [hw'] at hnot ⊢
  cases hhit : r.cacheHit with
  | true =>
    refine h.kept fun pre hp => ?_
    rcases List.prefix_concat_iff.1 hp with rfl | hp
    · exact hnot
    · refine hreuse hhit pre ?_
      rwa [hnames, List.cons_prefix_cons, and_iff_right rfl]
  | false =>
    exact h.cleared hnot (List.prefix_append names [n]) ((compiles_settle c r names).2
      (.inr ⟨hhit, hnames⟩))

namespace Fated

/-- The nodes above a node in hand are there. -/
theorem hasParents (h : Fated k old base u p c shelf) (hs : c.Sound p) (hv : v ∈ c.pending) :
    HasParents shelf v.names := by
  intro ns n he
  obtain ⟨ha, hn⟩ := ancestry_eq_names (hs.named.pending v hv)
  have hx : nodePath (rootName :: v.names) ∈ c.due := by
    refine hs.booked.paths.subset (List.mem_append_left _ (List.mem_append_left _ ?_))
    rw [← ha]
    exact List.mem_map_of_mem (f := Visit.path) hv
  obtain ⟨r, hr, hra⟩ := hs.booked.exists_result_above hs.named hn hx
    (he ▸ List.prefix_append ns [n]) (by rw [he]; simp)
  obtain ⟨w, found, -, hw, hq⟩ := h.results r hr
  obtain ⟨q, hq'⟩ := Terms.isSome_papers? p.node.stamp hw
  refine ⟨q, ?_⟩
  rw [← names_eq ((Terms.ancestry_of_result? hw).symm.trans hra), hq, hq']

/-- What is known when a pending visit is taken up. -/
theorem pending_split (h : Fated k old base u p c shelf) (hs : c.Sound p)
    {before after : List Visit} (hp : c.pending = before ++ v :: after) :
    k.Due old u v (shelf v.names) ∧ v.ancestry = rootName :: v.names
      ∧ (∀ n ∈ v.names, IsNodeName n) ∧ HasParents shelf v.names ∧ ¬ c.Compiles v.names := by
  have hv : v ∈ c.pending := by
    rw [hp]
    exact List.mem_append_right _ List.mem_cons_self
  obtain ⟨ha, hn⟩ := ancestry_eq_names (hs.named.pending v hv)
  exact ⟨h.pending v hv, ha, hn, h.hasParents hs hv, hs.not_compiles hv⟩

/-- The difference that examining finds. -/
theorem comparison_of_examine (hk : k.Governs p) (h : Fated k old base u p c shelf) (hs : c.Sound p)
    {before after : List Visit} (hp : c.pending = before ++ v :: after) {d : Difference}
    {lines : List Log.Line} (he : examine p.node c.store p.directory v = .ok (d, lines)) :
    comparison k.node.digest k.directory v.names v (shelf v.names) = .ok d := by
  obtain ⟨-, ha, hn, hup, -⟩ := h.pending_split hs hp
  rw [← hk.digest, ← hk.directory]
  exact h.shelved.comparison_of_examine ha hn hup he

/-- A visit that is given up. -/
theorem lose (hk : k.Governs p) (h : Fated k old base u p c shelf) (hs : c.Sound p)
    {before after : List Visit} (hp : c.pending = before ++ v :: after) {e : FileError}
    (he : examine p.node c.store p.directory v = .error e) :
    Fated k old base u p { c with
      pending := before ++ after
      visited := c.visited + 1
      failures := c.failures ++ [(v, e)] } shelf := by
  obtain ⟨hdue, ha, hn, hup, -⟩ := h.pending_split hs hp
  have hd := h.shelved.comparison_of_examine_error ha hn hup he
  rw [hk.digest, hk.directory] at hd
  refine { h with
    pending := (Census.forall_mem_split hp h.pending).2
    failures := fun x hx => ?_ }
  rcases List.mem_append.1 hx with hx | hx
  · exact h.failures x hx
  · rw [List.mem_singleton.1 hx]
    exact ⟨_, hdue, Terms.fate_of_error hd⟩

/-- A visit answered from a record. -/
theorem reuse (hk : k.Governs p) (h : Fated k old base u p c shelf) (hs : c.Sound p)
    {before after : List Visit} (hp : c.pending = before ++ v :: after) {d : Difference}
    {rec : Record} {lines : List Log.Line}
    (he : examine p.node c.store p.directory v = .ok (d, lines)) (hj : judge p.node v d = .reuse rec)
    (hc : c' = { c with pending := before ++ after, visited := c.visited + 1 }.settle
      (v.reuse rec d.reason)) (hs' : c'.Sound p) :
    Fated k old base u p c' shelf := by
  obtain ⟨hdue, ha, hn, hup, hnot⟩ := h.pending_split hs hp
  have hd := h.comparison_of_examine hk hs hp he
  rw [hk.judge] at hj
  have hfate := Terms.fate_of_reuse hd hj
  obtain ⟨q, -, -, hq, -⟩ := Terms.exists_of_fate_reused hfate
  have hcompiles (ns : List String) : c'.Compiles ns ↔ c.Compiles ns := by
    rw [hc, compiles_settle]
    exact or_iff_left fun hr => absurd hr.1 (by simp [Visit.reuse])
  have hrenewed : Renewed old c'.Compiles shelf := h.renewed.congr hcompiles
  have habove := h.renewed.not_compiled_above hnot hq
  subst hc
  refine ⟨Foretold.settle ?_ hdue (Terms.result?_of_reused hfate)
    (Terms.papers?_of_reused _ hfate).symm (hrenewed.below hs' fun _ pre hpre => ?_), h.shelved,
    hrenewed⟩
  · exact { h with pending := (Census.forall_mem_split hp h.pending).2 }
  · rw [hcompiles]
    refine habove pre ?_
    have hpre : rootName :: pre <+: v.ancestry := hpre
    rwa [ha, List.cons_prefix_cons, and_iff_right rfl] at hpre

end Fated

/-- **Finishing a node** that is foretold to be compiled gives the result and the artifacts that are
foretold. -/
theorem Shelved.finish_of_fate (hk : k.Governs p) {s t : Store}
    (h : Shelved s p.directory base shelf) (ha : v.ancestry = rootName :: v.names)
    (hq : shelf v.names = some { spec := v.spec }) {d : Difference} {o : Outcome}
    (hfate : k.fate v found = .compiled d o) {lines : List Log.Line}
    (hf : ({ visit := v, difference := d } : Draft).finish stamp s p.directory o = .ok (t, r, lines)) :
    k.result? v found = some r ∧ ∃ q, k.papers? stamp v found = some q
      ∧ Shelved t p.directory base (shelf.put v.names q) := by
  obtain ⟨t', d', lines', hf', ht, hd⟩ :=
    h.finish_eq (d := { visit := v, difference := d }) ha hq stamp o
  obtain ⟨rfl, hr⟩ := Prod.mk.inj (Except.ok.inj (hf'.symm.trans hf))
  obtain ⟨rfl, -⟩ := Prod.mk.inj hr
  refine ⟨?_, _, Terms.papers?_of_compiled stamp hfate, ?_⟩
  · rw [Terms.result?_of_compiled hfate, Draft.result, Draft.result, hd.visit, hd.difference,
      hd.errors, hk.directory]
    rfl
  · rwa [← hk.directory]

namespace Fated

/-- A node whose compilation ends. -/
theorem compiled_settle (h : Foretold k old u p.node.stamp c shelf)
    (ht : Shelved c.store p.directory base shelf) (hdue : k.Due old u v found)
    (ha : v.ancestry = rootName :: v.names) {d : Difference} {o : Outcome}
    (hfate : k.fate v found = .compiled d o) (hr : k.result? v found = some r)
    (hq : shelf v.names = k.papers? p.node.stamp v found)
    (hrenewed : Renewed old (fun ns => c.Compiles ns ∨ ns = v.names) shelf)
    (hs : (c.settle r).Sound p) : Fated k old base u p (c.settle r) shelf := by
  have hhit : r.cacheHit = false := by
    rcases Terms.fate_of_result? hr with ⟨hreused, -⟩ | ⟨-, -, -, hhit⟩
    · rw [hfate] at hreused
      cases hreused
    · exact hhit
  have hcompiles (ns : List String) : (c.settle r).Compiles ns ↔ c.Compiles ns ∨ ns = v.names := by
    rw [compiles_settle, Terms.ancestry_of_result? hr, ha, List.cons_inj_right, and_iff_right hhit,
      eq_comm]
  have hrenewed' : Renewed old (c.settle r).Compiles shelf := hrenewed.congr hcompiles
  refine ⟨h.settle hdue hr hq (hrenewed'.below hs fun hhit' => ?_), ht, hrenewed'⟩
  rw [hhit] at hhit'
  cases hhit'

/-- A node kept as a leaf without asking. -/
theorem keep (hk : k.Governs p) (h : Fated k old base u p c shelf) (hs : c.Sound p)
    {before after : List Visit} (hp : c.pending = before ++ v :: after) {d : Difference}
    {draft : Draft} {store store' : Store} {lines lines' : List Log.Line}
    (he : examine p.node c.store p.directory v = .ok (d, lines)) (hj : judge p.node v d = .keepLeaf)
    (hd : prepare c.store p.directory v d = .ok (store, draft))
    (hf : { draft with lines := [] }.finish p.node.stamp store p.directory .plain
      = .ok (store', r, lines'))
    (hc : c' = { c with store := store', pending := before ++ after, visited := c.visited + 1 })
    (hs' : (c'.settle r).Sound p) : ∃ shelf', Fated k old base u p (c'.settle r) shelf' := by
  obtain ⟨hdue, ha, hn, hup, hnot⟩ := h.pending_split hs hp
  have hcompare := h.comparison_of_examine hk hs hp he
  have hfits : Fits p.directory v.names := hk.directory ▸ fits_of_comparison hcompare
  rw [hk.judge] at hj
  have hfate := Terms.fate_of_keepLeaf hcompare hj
  obtain ⟨t, hd', ht⟩ := h.shelved.prepare ha hn hup hfits d
  obtain ⟨rfl, rfl⟩ := Prod.mk.inj (Except.ok.inj (hd'.symm.trans hd))
  obtain ⟨hr, q, hq, ht'⟩ := ht.finish_of_fate hk ha (Shelf.replace_self ..) hfate hf
  rw [show (shelf.replace v.names { spec := v.spec }).put v.names q = shelf.replace v.names q from
    Shelf.put_put ..] at ht'
  have hrest : Foretold k old u p.node.stamp c' (shelf.replace v.names q) := by
    subst hc
    refine h.without hs v.names (fun w hw => ?_) (fun w hw => hw) rfl rfl ?_ fun ns hns =>
      shelf.replace_of_not_prefix hns q
    · rw [hp]
      exact mem_split_of_mem hw
    · rw [← ha]
      exact Census.perm_paths_of_pending hp rfl rfl rfl
  have hstore : c'.store = store' := by rw [hc]
  have hcompiles : c'.Compiles = c.Compiles := by rw [hc]; rfl
  refine ⟨shelf.replace v.names q, compiled_settle hrest (hstore ▸ ht') hdue ha hfate hr ?_ ?_ hs'⟩
  · rw [Shelf.replace_self, hq]
  · rw [hcompiles]
    exact h.renewed.replace v.names q

/-- A node that waits for a call. -/
theorem wait (hk : k.Governs p) (h : Fated k old base u p c shelf) (hs : c.Sound p)
    {before after : List Visit} (hp : c.pending = before ++ v :: after) {d : Difference}
    {draft : Draft} {store : Store} {lines : List Log.Line}
    (he : examine p.node c.store p.directory v = .ok (d, lines)) (hj : judge p.node v d = .ask)
    (hd : prepare c.store p.directory v d = .ok (store, draft))
    (hc : c' = { c with
      store
      pending := before ++ after
      waiting := c.waiting ++ [{ draft with lines := [] }]
      visited := c.visited + 1
      calls := c.calls + 1 }) :
    ∃ shelf', Fated k old base u p c' shelf' := by
  obtain ⟨hdue, ha, hn, hup, hnot⟩ := h.pending_split hs hp
  have hcompare := h.comparison_of_examine hk hs hp he
  have hfits : Fits p.directory v.names := hk.directory ▸ fits_of_comparison hcompare
  rw [hk.judge] at hj
  have hfate := Terms.fate_of_ask hcompare hj
  obtain ⟨t, hd', ht⟩ := h.shelved.prepare ha hn hup hfits d
  obtain ⟨rfl, rfl⟩ := Prod.mk.inj (Except.ok.inj (hd'.symm.trans hd))
  have hrest : Foretold k old u p.node.stamp { c with store := t, pending := before ++ after }
      (shelf.replace v.names { spec := v.spec }) := by
    refine h.without hs v.names (fun w hw => ?_) (fun w hw => hw) rfl rfl ?_ fun ns hns =>
      shelf.replace_of_not_prefix hns _
    · rw [hp]
      exact mem_split_of_mem hw
    · rw [← ha]
      exact Census.perm_paths_of_pending hp rfl rfl rfl
  have hdrafts (w : Draft) : w ∈ c'.waiting ++ c'.inFlight ↔
      w ∈ c.waiting ++ c.inFlight ∨ w = { visit := v, difference := d } := by
    rw [hc, List.append_assoc, List.mem_append, List.mem_append, List.mem_append,
      List.mem_singleton, or_left_comm, or_comm]
  have hcompiles := Census.compiles_iff (by rw [hc]) hdrafts ha
  refine ⟨shelf.replace v.names { spec := v.spec }, ⟨?_, fun w hw => ?_, ?_, ?_⟩, ?_,
    (h.renewed.replace v.names _).congr hcompiles⟩
  · rw [hc]
    exact hrest.pending
  · rcases (hdrafts w).1 hw with hw | rfl
    · exact hrest.drafts w hw
    · exact ⟨v, _, d, rfl, hdue, hfate, Shelf.replace_self ..⟩
  · rw [hc]
    exact hrest.results
  · rw [hc]
    exact hrest.failures
  · rw [hc]
    exact ht

/-- A call that ends. -/
theorem finish (hk : k.Governs p) (h : Fated k old base u p c shelf) (hs : c.Sound p)
    {before after : List Draft} {d : Draft} {reply : Except Failure Expansion} {store : Store}
    {lines : List Log.Line} (hi : c.inFlight = before ++ d :: after)
    (hr : k.Replies d.visit.request reply)
    (hf : d.finish p.node.stamp c.store p.directory (.ofReply reply) = .ok (store, r, lines))
    (hc : c' = { c with store, inFlight := before ++ after }) (hs' : (c'.settle r).Sound p) :
    ∃ shelf', Fated k old base u p (c'.settle r) shelf' := by
  have hd : d ∈ c.inFlight := by
    rw [hi]
    exact List.mem_append_right _ List.mem_cons_self
  obtain ⟨v, found, dif, rfl, hdue, hfate, hq⟩ := h.drafts d (List.mem_append_right _ hd)
  obtain ⟨ha, hn⟩ := ancestry_eq_names (hs.named.inFlight _ hd)
  obtain rfl : reply = k.answer v.request := hr
  obtain ⟨hres, q, hq', ht⟩ := h.shelved.finish_of_fate hk ha hq hfate hf
  have hrest : Foretold k old u p.node.stamp c' (shelf.put v.names q) := by
    subst hc
    refine h.without hs v.names (fun w hw => hw) (fun w hw => ?_) rfl rfl ?_
      fun ns hns => shelf.put_of_ne (by rintro rfl; exact hns (List.prefix_refl _)) q
    · rw [hi]
      rcases List.mem_append.1 hw with hw | hw
      · exact List.mem_append_left _ hw
      · exact List.mem_append_right _ (mem_split_of_mem hw)
    · rw [← ha]
      exact Census.perm_paths_of_inFlight hi rfl rfl rfl rfl rfl rfl
  have hstore : c'.store = store := by rw [hc]
  have hdrafts (w : Draft) : w ∈ c.waiting ++ c.inFlight ↔
      w ∈ c'.waiting ++ c'.inFlight ∨ w = { visit := v, difference := dif } := by
    rw [hc, hi, List.mem_append, mem_split_iff, ← or_assoc, ← List.mem_append]
  have hcompiles := Census.compiles_iff (by rw [hc]) hdrafts ha
  refine ⟨shelf.put v.names q, compiled_settle hrest (hstore ▸ ht) hdue ha hfate hres ?_ ?_ hs'⟩
  · rw [Shelf.put_self, hq']
  · exact (h.renewed.put (.inl ⟨_, List.mem_append_right _ hd, ha⟩) q).congr fun ns => (hcompiles ns).symm

/-- **Every step keeps to the fate.** -/
theorem step (hk : k.Governs p) (h : Fated k old base u p c shelf) (hs : c.Sound p)
    (hstep : Census.Step p k.Replies c c') :
    ∃ shelf', Fated k old base u p c' shelf' := by
  have hs' := hs.step hstep
  cases hstep with
  | refuse hp ha =>
    exact ⟨shelf, { h with pending := (Census.forall_mem_split hp h.pending).2 }⟩
  | lose hp ha he => exact ⟨shelf, h.lose hk hs hp he⟩
  | withdraw hp ha he hj hc =>
    exact ⟨shelf, { h with pending := (Census.forall_mem_split hp h.pending).2 }⟩
  | reuse hp ha he hj => exact ⟨shelf, h.reuse hk hs hp he hj rfl hs'⟩
  | keep hp ha he hj hd hf => exact h.keep hk hs hp he hj hd hf rfl hs'
  | wait hp ha he hj hc hd => exact h.wait hk hs hp he hj hd rfl
  | @grant before after d hw hlt =>
    have hdrafts (x : Draft) : x ∈ before ++ after ++ (c.inFlight ++ [d])
        ↔ x ∈ c.waiting ++ c.inFlight := by
      rw [hw, mem_moved_iff]
    refine ⟨shelf, { h with
      drafts := fun x hx => h.drafts x ((hdrafts x).1 hx)
      renewed := h.renewed.congr fun ns => ?_ }⟩
    unfold Census.Compiles
    simp only [hdrafts]
  | finish hi hr hf => exact h.finish hk hs hi hr hf rfl hs'

/-- **So does every run.** -/
theorem run (hk : k.Governs p) (h : Fated k old base u p c shelf) (hs : c.Sound p)
    (hrun : Relation.ReflTransGen (Census.Step p k.Replies) c c') :
    ∃ shelf', Fated k old base u p c' shelf' := by
  induction hrun with
  | refl => exact ⟨shelf, h⟩
  | tail hrun hstep ih =>
    obtain ⟨shelf', h'⟩ := ih
    exact h'.step hk (hs.run hrun) hstep

end Fated

end SpecTree.Plan
