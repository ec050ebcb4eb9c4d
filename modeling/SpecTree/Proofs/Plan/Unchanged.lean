import SpecTree.Proofs.Plan.Notices
import SpecTree.Proofs.Plan.Order

/-!
# An unchanged project costs nothing

A compilation that reports nothing, done over again, makes no call, changes nothing and tells of the same
nodes (`unchanged_costs_nothing`).

1. Whatever the replies of a run, some function gives them (`exists_answer`), since a node is asked about
   once. So a run keeps to the fate that these answers foretell, also where the provider has a memory.
2. What a node without errors leaves is accepted when the node is compared again (`Terms.exists_unchanged`).
3. A store that remembers a list of results with all their children (`Remembers`) is not changed by a
   compilation that starts from one of them (`Recalled.run`).
-/

namespace SpecTree.Plan

open TreeState

variable {p : TreePolicy} {s : Store} {t : TreeState} {c c' : Census} {v w : Visit} {r : NodeResult}
  {mayReply : Request → Except Failure Expansion → Prop} {directory : String}

/-! ## Answers -/

/-- Results stay. -/
theorem Census.Step.results_subset (h : Census.Step p mayReply c c') : c.results ⊆ c'.results := by
  cases h with
  | refuse | lose | withdraw | wait | grant => exact fun _ hr => hr
  | reuse | keep | finish => exact fun _ hr => List.mem_append_left _ hr

namespace TreeState

theorem sound_step (h0 : p.directory.contains '\x00' = false) (hs : t.census.Sound p) (m : Move) :
    (t.step p m).census.Sound p ∧ t.results ⊆ (t.step p m).results := by
  have hm : m.Follows (fun _ _ => True) t := by cases m <;> simp [Move.Follows]
  rcases census_step h0 hs.named hm with he | hstep
  · exact ⟨he ▸ hs, fun r hr => show r ∈ (t.step p m).census.results by rw [he]; exact hr⟩
  · exact ⟨hs.step hstep, hstep.results_subset⟩

/-- A call that ends leaves a result. -/
theorem exists_result_of_finish (h0 : p.directory.contains '\x00' = false) (hs : t.census.Sound p) {i : Nat}
    {d : Draft} (hd : t.inFlight[i]? = some d) (reply : Except Failure Expansion) :
    ∃ r ∈ (t.step p (.finish i reply)).results, r.nodePath = d.visit.path := by
  have hd' : IsAncestry d.visit.ancestry := hs.named.inFlight d (List.mem_of_getElem? hd)
  obtain ⟨store, d', lines, hf, hv⟩ := exists_finish h0 hd' t.store p.node.stamp (.ofReply reply)
  have hc : (t.step p (.finish i reply)).census.results = t.results ++ [Draft.result d' (.ofReply reply)] := by
    simp only [step, hd, receive]
    rw [census_conclude (by exact hf)]
    rfl
  refine ⟨_, show _ ∈ (t.step p (.finish i reply)).census.results from hc ▸ List.mem_append_right _
    (List.mem_singleton_self _), ?_⟩
  exact congrArg Visit.path hv

/-- What is answered about a node that has a result has no part in what follows. -/
theorem follows_congr (h0 : p.directory.contains '\x00' = false) (hs : t.census.Sound p) {path : String}
    (hr : ∃ r ∈ t.results, r.nodePath = path) {answer answer' : Request → Except Failure Expansion}
    (heq : ∀ q : Request, q.nodePath ≠ path → answer q = answer' q) {moves : List Move}
    (hf : Follows p (fun q reply => reply = answer q) t moves) :
    Follows p (fun q reply => reply = answer' q) t moves := by
  induction moves generalizing t with
  | nil => trivial
  | cons m moves ih =>
    obtain ⟨hm, hrest⟩ := hf
    obtain ⟨hs', hsub⟩ := sound_step h0 hs m
    obtain ⟨r, hrm, rfl⟩ := hr
    refine ⟨?_, ih hs' ⟨r, hsub hrm, rfl⟩ hrest⟩
    cases m with
    | start i => trivial
    | grant i => trivial
    | finish i reply =>
      intro d hd
      rw [hm d hd, heq]
      intro he
      -- A node with a result is in no other hands.
      have hnd : t.census.paths.Nodup := hs.booked.paths.nodup_iff.2 hs.booked.once
      have hadmitted : t.census.admitted.Nodup :=
        (List.nodup_append.1 (List.nodup_append.1 hnd).1).2.1
      have hhands : r.nodePath ∈ t.waiting.map (·.visit.path) ++ t.inFlight.map (·.visit.path) :=
        List.mem_append_right _ (List.mem_map.2 ⟨d, List.mem_of_getElem? hd, he⟩)
      exact (List.nodup_append.1 (List.nodup_append.1 hadmitted).1).2.2 _ hhands _
        (List.mem_map_of_mem hrm) rfl

/-- **Some function gives all replies of a run.** -/
theorem exists_answer (h0 : p.directory.contains '\x00' = false) (hs : t.census.Sound p) (moves : List Move) :
    ∃ answer : Request → Except Failure Expansion, Follows p (fun q reply => reply = answer q) t moves := by
  induction moves generalizing t with
  | nil => exact ⟨fun _ => .ok {}, trivial⟩
  | cons m moves ih =>
    obtain ⟨hs', -⟩ := sound_step h0 hs m
    obtain ⟨answer, hf⟩ := ih hs'
    cases m with
    | start i => exact ⟨answer, trivial, hf⟩
    | grant i => exact ⟨answer, trivial, hf⟩
    | finish i reply =>
      cases hd : t.inFlight[i]? with
      | none => exact ⟨answer, fun d hd' => (nomatch hd.symm.trans hd'), hf⟩
      | some d =>
        refine ⟨fun q => if q.nodePath = d.visit.path then reply else answer q, fun d' hd' => ?_, ?_⟩
        · obtain rfl := Option.some.inj (hd.symm.trans hd')
          exact (if_pos rfl).symm
        · exact follows_congr h0 hs' (exists_result_of_finish h0 hs hd reply) (fun q hq => (if_neg hq).symm) hf

end TreeState

/-! ## Nodes compared again -/

theorem comparison_congr (hspec : w.spec = v.spec) (hcontext : w.context = v.context)
    (digest : String → String) (directory : String) (names : List String) (found : Option Papers) :
    comparison digest directory names w found = comparison digest directory names v found := by
  unfold comparison
  rw [hspec, hcontext]

/-- A record that needs no renewal is used again. -/
theorem judge_of_unchanged {k : NodePolicy} {d : Difference} {rec : Record} (hk : k.useCache = true)
    (hu : d.reason = .unchanged) (hp : d.previous = some rec) : judge k v d = .reuse rec := by
  have hreuse : d.reusable? = some rec := by
    rw [Difference.reusable?, if_neg (by simp [Difference.isStale, hu]), hp]
  rw [judge, if_pos hk, hreuse]

/-- The artifacts of an outcome about which nothing is told need no renewal. -/
theorem Draft.comparison_papers {digest : String → String} {directory stamp : String} {names : List String}
    {d : Difference} {o : Outcome} (hd : d.specHash = digest v.spec ∧ d.contextHash = v.context.fingerprint digest)
    (hfits : Fits directory names) (hstamp : Stamp.isStamp stamp = true) (hf : o.failure = none)
    (hq : Draft.complaints directory names o = []) :
    comparison digest directory names v
        (some (Draft.papers { visit := v, difference := d } directory names stamp o))
      = .ok ⟨.unchanged, digest v.spec, v.context.fingerprint digest,
          some (Draft.record { visit := v, difference := d } stamp o)⟩ := by
  have hrec : Papers.legible (Draft.papers { visit := v, difference := d } directory names stamp o)
      = some (Draft.record { visit := v, difference := d } stamp o) := by
    refine Papers.legible_eq_some.2 ⟨?_, hstamp⟩
    rw [Draft.papers, hf]
    rfl
  have hcontext : o.isLeaf = true → (Artifact.context.path directory names).utf8ByteSize < Store.pathLimit := by
    intro hl
    by_contra hs
    refine complaints_ne_nil "context artifact" hs ?_
    rw [Draft.complaints, if_pos hl] at hq
    exact (List.append_eq_nil_iff.1 hq).1
  have hreason : Papers.reasonFor (Draft.papers { visit := v, difference := d } directory names stamp o) directory
      names (digest v.spec) (v.context.fingerprint digest)
      (Draft.record { visit := v, difference := d } stamp o) = .ok .unchanged := by
    have hspec : (Draft.record { visit := v, difference := d } stamp o).specHash = digest v.spec := hd.1
    have hcontextHash : (Draft.record { visit := v, difference := d } stamp o).contextHash
        = v.context.fingerprint digest := hd.2
    rw [Papers.reasonFor, if_neg (not_not.2 hspec), if_neg (not_not.2 hcontextHash)]
    by_cases hl : o.isLeaf = true
    · have hthere : (Draft.papers { visit := v, difference := d } directory names stamp o).context = some v.context :=
        if_pos ⟨hl, hcontext hl⟩
      rw [if_neg (by simp [Draft.record, hl]), if_pos (hcontext hl), hthere]
      rfl
    · exact if_pos (by simpa [Draft.record] using hl)
  simp only [comparison, if_pos hfits, hrec, hreason, Except.map]

/-- **What a node without errors leaves is accepted** when the node is compared again. -/
theorem Terms.exists_unchanged {k : Terms} {found : Option Papers} {stamp : String}
    (hstamp : Stamp.isStamp stamp = true) (hr : k.result? v found = some r) (herr : r.errors = []) :
    ∃ d rec, comparison k.node.digest k.directory v.names v (k.papers? stamp v found) = .ok d
      ∧ d.reason = .unchanged ∧ d.previous = some rec ∧ rec.isLeaf = r.isLeaf ∧ rec.children = r.children := by
  cases hd : comparison k.node.digest k.directory v.names v found with
  | error e =>
    rw [result?_of_lost (fate_of_error hd)] at hr
    cases hr
  | ok d =>
    have hcompiled {o : Outcome} (hf : k.fate v found = .compiled d o) :
        ∃ d rec, comparison k.node.digest k.directory v.names v (k.papers? stamp v found) = .ok d
          ∧ d.reason = .unchanged ∧ d.previous = some rec ∧ rec.isLeaf = r.isLeaf
          ∧ rec.children = r.children := by
      rw [result?_of_compiled hf] at hr
      obtain rfl := Option.some.inj hr
      obtain ⟨ho, hq⟩ := List.append_eq_nil_iff.1 herr
      have hnone : o.failure = none := by
        unfold Outcome.errors at ho
        split at ho
        · cases ho
        · assumption
      rw [papers?_of_compiled stamp hf]
      exact ⟨_, _, Draft.comparison_papers (digests_of_comparison hd) (fits_of_comparison hd) hstamp hnone hq,
        rfl, rfl, rfl, rfl⟩
    cases hj : judge k.node v d with
    | reuse rec =>
      have hf := fate_of_reuse hd hj
      rw [result?_of_reused hf] at hr
      obtain rfl := Option.some.inj hr
      rw [papers?_of_reused stamp hf]
      obtain ⟨hu, hp⟩ := judge_eq_reuse hj
      exact ⟨d, rec, hd, hu, hp, rfl, rfl⟩
    | keepLeaf => exact hcompiled (fate_of_keepLeaf hd hj)
    | ask => exact hcompiled (fate_of_ask hd hj)

/-! ## Compilations that have nothing to do -/

/-- The store remembers what the visit comes to. -/
def Recalls (p : TreePolicy) (s : Store) (v : Visit) (r : NodeResult) : Prop :=
  v.ancestry = r.ancestry ∧ ∃ d lines rec, examine p.node s p.directory v = .ok (d, lines)
    ∧ judge p.node v d = .reuse rec ∧ rec.isLeaf = r.isLeaf ∧ rec.children = r.children

/-- **The store remembers the results**, those of all children among them, and there is room for all. -/
structure Remembers (p : TreePolicy) (s : Store) (results : List NodeResult) : Prop where
  filed : ∀ r ∈ results, Census.IsFiled r
  below : ∀ r ∈ results, ∀ w ∈ visitsBelow r, ∃ r' ∈ results, Recalls p s w r'
  room : results.length ≤ p.maxNodes.toNat

/-- A result has the shape of one that is remembered, and comes from its record. -/
structure Repeats (r r' : NodeResult) : Prop where
  ancestry : r.ancestry = r'.ancestry
  isLeaf : r.isLeaf = r'.isLeaf
  children : r.children = r'.children
  cacheHit : r.cacheHit = true
  errors : r.errors = []

/-- **Nothing happens** but that results are told again. -/
structure Recalled (p : TreePolicy) (s : Store) (results : List NodeResult) (c : Census) : Prop where
  store : c.store = s
  waiting : c.waiting = []
  inFlight : c.inFlight = []
  calls : c.calls = 0
  requests : c.requests = []
  exceeded : c.exceeded = none
  skipped : c.skipped = []
  failures : c.failures = []
  pending : ∀ v ∈ c.pending, ∃ r ∈ results, Recalls p s v r
  results : ∀ r ∈ c.results, ∃ r' ∈ results, Repeats r r'

variable {results : List NodeResult}

theorem Repeats.visitsBelow {r' : NodeResult} (h : Repeats r r') : visitsBelow r = visitsBelow r' := by
  unfold TreeState.visitsBelow
  rw [h.ancestry, h.isLeaf, h.children]

namespace Recalled

/-- A node that is remembered is admitted. -/
theorem admits (hm : Remembers p s results) (h : Recalled p s results c) (hs : c.Sound p) (hv : v ∈ c.pending) :
    c.Admits p := by
  refine ⟨h.exceeded, ?_⟩
  have hadmitted : c.admitted = c.results.map NodeResult.nodePath := by
    simp [Census.admitted, h.waiting, h.inFlight, h.failures]
  have hnd : (v.path :: c.results.map NodeResult.nodePath).Nodup := by
    have hpaths : c.paths.Nodup := hs.booked.paths.nodup_iff.2 hs.booked.once
    rw [Census.paths, hadmitted] at hpaths
    obtain ⟨-, hres, hne⟩ := List.nodup_append.1 (List.nodup_append.1 hpaths).1
    exact List.nodup_cons.2 ⟨fun hx => hne _ (List.mem_map_of_mem hv) _ hx rfl, hres⟩
  have hsub : v.path :: c.results.map NodeResult.nodePath ⊆ results.map NodeResult.nodePath := by
    refine List.cons_subset.2 ⟨?_, fun x hx => ?_⟩
    · obtain ⟨r, hr, ha, -⟩ := h.pending v hv
      exact List.mem_map.2 ⟨r, hr, by rw [(hm.filed r hr).path, ← ha, Visit.path]⟩
    · obtain ⟨r, hr, rfl⟩ := List.mem_map.1 hx
      obtain ⟨r', hr', hrep⟩ := h.results r hr
      exact List.mem_map.2
        ⟨r', hr', by rw [(hm.filed r' hr').path, (hs.named.results r hr).path, hrep.ancestry]⟩
  have hle := hnd.length_le_of_subset hsub
  have hvisited := hs.counted.visited
  have hroom := hm.room
  rw [hadmitted, List.length_map] at hvisited
  rw [List.length_cons, List.length_map, List.length_map] at hle
  omega

/-- **Every step keeps to it.** -/
theorem step (hm : Remembers p s results) (h : Recalled p s results c) (hs : c.Sound p)
    (hstep : Census.Step p mayReply c c') : Recalled p s results c' := by
  -- What becomes of a visit is known.
  have hknown {before after : List Visit} {v : Visit} (hp : c.pending = before ++ v :: after) :
      c.Admits p ∧ (∃ r ∈ results, Recalls p c.store v r) ∧
        ∀ w ∈ before ++ after, ∃ r ∈ results, Recalls p s w r := by
    obtain ⟨hv, hrest⟩ := Census.forall_mem_split hp h.pending
    have hmem : v ∈ c.pending := hp ▸ List.mem_append_right _ List.mem_cons_self
    exact ⟨h.admits hm hs hmem, h.store ▸ hv, hrest⟩
  have hreuse {before after : List Visit} {v : Visit} (hp : c.pending = before ++ v :: after) {d : Difference}
      {lines : List Log.Line} (he : examine p.node c.store p.directory v = .ok (d, lines)) :
      ∃ r ∈ results, ∃ rec, v.ancestry = r.ancestry ∧ judge p.node v d = .reuse rec
        ∧ rec.isLeaf = r.isLeaf ∧ rec.children = r.children := by
    obtain ⟨-, ⟨r, hr, ha, d', lines', rec, he', hj, hl, hc⟩, -⟩ := hknown hp
    obtain ⟨rfl, -⟩ := Prod.mk.inj (Except.ok.inj (he'.symm.trans he))
    exact ⟨r, hr, rec, ha, hj, hl, hc⟩
  cases hstep with
  | refuse hp ha => exact absurd (hknown hp).1 ha
  | lose hp ha he =>
    obtain ⟨-, ⟨r, -, -, d, lines, rec, he', -⟩, -⟩ := hknown hp
    cases he.symm.trans he'
  | keep hp ha he hj =>
    obtain ⟨-, -, rec, -, hj', -⟩ := hreuse hp he
    cases hj.symm.trans hj'
  | withdraw hp ha he hj =>
    obtain ⟨-, -, rec, -, hj', -⟩ := hreuse hp he
    cases hj.symm.trans hj'
  | wait hp ha he hj =>
    obtain ⟨-, -, rec, -, hj', -⟩ := hreuse hp he
    cases hj.symm.trans hj'
  | grant hw =>
    rw [h.waiting] at hw
    simp at hw
  | finish hi =>
    rw [h.inFlight] at hi
    simp at hi
  | @reuse before after v d rec lines hp ha he hj =>
    obtain ⟨r', hr', rec', hanc, hj', hl, hc⟩ := hreuse hp he
    obtain rfl := Judgement.reuse.inj (hj.symm.trans hj')
    have hrep : Repeats (v.reuse rec d.reason) r' := ⟨hanc, hl, hc, rfl, rfl⟩
    refine { h with
      pending := List.forall_mem_append.2 ⟨(hknown hp).2.2, fun w hw => ?_⟩
      results := List.forall_mem_append.2 ⟨h.results, List.forall_mem_singleton.2 ⟨r', hr', hrep⟩⟩ }
    exact hm.below r' hr' w (hrep.visitsBelow ▸ hw)

/-- **So does every run.** -/
theorem run (hm : Remembers p s results) (h : Recalled p s results c) (hs : c.Sound p)
    (hrun : Relation.ReflTransGen (Census.Step p mayReply) c c') :
    Recalled p s results c' := by
  induction hrun with
  | refl => exact h
  | tail hrun hstep ih => exact ih.step hm (hs.run hrun) hstep

end Recalled

/-! ## Compilations that report nothing -/

/-- A compilation is done, and its report tells of no node that was skipped and of no error. -/
structure IsClean (t : TreeState) : Prop where
  isDone : t.isDone = true
  rootFailure : t.rootFailure? = none
  skipped : t.report.skipped = []
  errors : t.report.errors = []

/-- A compilation, as far as it has come, asks nothing, changes nothing in the store and has nothing to
report but nodes that need not be compiled. -/
structure CostsNothing (s : Store) (t : TreeState) : Prop where
  store : t.store = s
  requests : t.requests = []
  calls : t.report.calls = 0
  hits : ∀ r ∈ t.report.nodes, r.cacheHit = true
  rootFailure : t.rootFailure? = none
  skipped : t.report.skipped = []
  errors : t.report.errors = []

theorem IsClean.errors_eq_nil (h : IsClean t) : ∀ r ∈ t.results, r.errors = [] :=
  List.flatMap_eq_nil_iff.1 (List.append_eq_nil_iff.1 h.errors).2

/-- No node was skipped or given up. -/
theorem IsClean.isWhole {x : Session} (h : IsClean (x.run s)) : IsWhole (x.run s) where
  isDone := h.isDone
  skipped := h.skipped
  failures := failures_eq_nil _ _ _ _ h.isDone h.rootFailure (List.append_eq_nil_iff.1 h.errors).1

section

variable {k : Terms} {old shelf : Shelf} {base : Place} {u : Visit} {found : Option Papers}
  (h : Fated k old base u p t.census shelf) (hs : t.census.Sound p) (hu : u.ancestry = [rootName])
  (ht : IsWhole t)

include h hs hu ht

theorem Fated.exists_result (hv : k.Due old u v found) : ∃ r ∈ t.results, k.result? v found = some r := by
  rcases h.settled hs hu (ht.isFree hs) hv with hr | ⟨e, he, -⟩
  · exact hr
  · rw [ht.failures] at he
    cases he

variable {p' : TreePolicy} (hk : k.Governs p) (herr : ∀ r ∈ t.results, r.errors = [])
  (hstamp : Stamp.isStamp p.node.stamp = true) (hdirectory : p'.directory = p.directory)
  (hdigest : p'.node.digest = p.node.digest) (hcache : p'.node.useCache = true)

include hk herr hstamp hdirectory hdigest hcache

/-- The store remembers every visit that was due. -/
theorem Fated.exists_recalls (hv : k.Due old u v found) (ha : w.ancestry = v.ancestry) (hspec : w.spec = v.spec)
    (hcontext : w.context = v.context) :
    ∃ r ∈ t.results, k.result? v found = some r ∧ Recalls p' t.store w r := by
  obtain ⟨r, hr, hvr⟩ := h.exists_result hs hu ht hv
  obtain ⟨v', found', hv', hvr', hq⟩ := h.results r hr
  obtain ⟨rfl, rfl⟩ := hv'.unique hu hv
    ((Terms.ancestry_of_result? hvr').symm.trans (Terms.ancestry_of_result? hvr))
  obtain ⟨d, rec, hd, hreason, hrec, hl, hc⟩ := Terms.exists_unchanged hstamp hvr (herr r hr)
  obtain ⟨hnames, hn⟩ := ancestry_eq_names (hv.isAncestry (hu ▸ isAncestry_root))
  obtain ⟨q, hq'⟩ := Terms.isSome_papers? p.node.stamp hvr
  have hup : HasParents shelf v'.names := fun ns n he => h.shelved.closed (n := n) (he ▸ hq.trans hq')
  have hexamine := h.shelved.examine_eq p'.node (ha.trans hnames) hn hup
  rw [hq, comparison_congr hspec hcontext, hdigest, hk.digest, hk.directory, hd, ← hk.directory] at hexamine
  refine ⟨r, hr, hvr, ha.trans (Terms.ancestry_of_result? hvr).symm, ?_⟩
  rw [hdirectory]
  cases he : examine p'.node t.store p.directory w with
  | error e =>
    rw [show t.store = t.census.store from rfl] at he
    rw [he] at hexamine
    cases hexamine
  | ok x =>
    obtain ⟨d', lines⟩ := x
    rw [show t.store = t.census.store from rfl] at he
    rw [he] at hexamine
    obtain rfl : d' = d := Except.ok.inj hexamine
    exact ⟨d', lines, rec, rfl, judge_of_unchanged hcache hreason hrec, hl, hc⟩

/-- **The store remembers all results.** -/
theorem Fated.remembers (hmax : p.maxNodes ≤ p'.maxNodes) : Remembers p' t.store t.results where
  filed := hs.named.results
  below := by
    intro r hr w hw
    obtain ⟨v, found, hv, hvr, -⟩ := h.results r hr
    obtain ⟨r', hr', -, hrecalls⟩ :=
      h.exists_recalls hs hu ht hk herr hstamp hdirectory hdigest hcache (.child hv hvr hw) rfl rfl rfl
    exact ⟨r', hr', hrecalls⟩
  room := by
    have hvisited : t.visited = _ := hs.counted.visited
    have hnodes : t.visited ≤ _ := hs.counted.nodes
    rw [Census.length_admitted] at hvisited
    have hlen : t.census.results.length = t.results.length := rfl
    omega

end

theorem recalled_initial {results : List NodeResult} {root : Spec.Document}
    (hroot : ∃ r ∈ results, Recalls p s (rootVisit root) r) (metrics : Metrics) :
    Recalled p s results (initial s root metrics).census where
  store := rfl
  waiting := rfl
  inFlight := rfl
  calls := rfl
  requests := rfl
  exceeded := rfl
  skipped := rfl
  failures := rfl
  pending := fun _ hv => List.mem_singleton.1 hv ▸ hroot
  results := fun _ hr => absurd hr List.not_mem_nil

theorem Recalled.costsNothing {results : List NodeResult} (h : Recalled p s results t.census)
    (ht : Watched t []) : CostsNothing s t where
  store := h.store
  requests := h.requests
  calls := h.calls
  hits := by
    intro r hr
    obtain ⟨r', -, hrep⟩ := h.results r hr
    exact hrep.cacheHit
  rootFailure := by
    rw [rootFailure?, show t.failures = [] from h.failures]
    rfl
  skipped := h.skipped
  errors := by
    refine List.append_eq_nil_iff.2 ⟨ht.quiet h.failures, List.flatMap_eq_nil_iff.2 fun r hr => ?_⟩
    obtain ⟨r', -, hrep⟩ := h.results r hr
    exact hrep.errors

section

variable {k : Terms} {old shelf : Shelf} {base : Place} {u u' : Visit} {found : Option Papers} {t' : TreeState}
  {p' : TreePolicy} (h : Recalled p' s t.results t'.census) (hs' : t'.census.Sound p') (ht' : IsWhole t')
  (hu' : u'.ancestry = [rootName]) (hfated : Fated k old base u p t.census shelf) (hu : u.ancestry = [rootName])

include h hs' ht' hu' hfated hu

/-- Every node that was due is told of again. -/
theorem Recalled.exists_repeats (hv : k.Due old u v found) (hvr : k.result? v found = some r) :
    ∃ r' ∈ t'.results, Repeats r' r := by
  -- What is called for again has a result, which repeats the one of the same node.
  have hcalled {v : Visit} {found : Option Papers} {r : NodeResult} (hv : k.Due old u v found)
      (hvr : k.result? v found = some r) {w : Visit} (hw : Called u' t'.census w) (ha : w.ancestry = v.ancestry) :
      ∃ r' ∈ t'.results, Repeats r' r := by
    obtain ⟨r', hr', he⟩ := ht'.exists_result hs' hu' hw
    obtain ⟨r'', hr'', hrep⟩ := h.results r' hr'
    obtain ⟨v'', found'', hv'', hvr'', -⟩ := hfated.results r'' hr''
    obtain ⟨rfl, rfl⟩ := hv''.unique hu hv (by
      rw [← Terms.ancestry_of_result? hvr'', ← hrep.ancestry, he, ha])
    obtain rfl := Option.some.inj (hvr''.symm.trans hvr)
    exact ⟨r', hr', hrep⟩
  induction hv generalizing r with
  | root => exact hcalled .root hvr (.inl rfl) (hu'.trans hu.symm)
  | child hv hr hw ih =>
    obtain ⟨r', hr', hrep⟩ := ih hr
    exact hcalled (.child hv hr hw) hvr (.inr ⟨r', hr', hrep.visitsBelow ▸ hw⟩) rfl

/-- **The same nodes are told of.** -/
theorem Recalled.perm (hs : t.census.Sound p) (ht : IsWhole t) :
    (t'.results.map fun r => (r.nodePath, r.isLeaf)).Perm (t.results.map fun r => (r.nodePath, r.isLeaf)) := by
  have hnodup {t : TreeState} {p : TreePolicy} (hs : t.census.Sound p) (ht : IsWhole t) :
      (t.results.map fun r => (r.nodePath, r.isLeaf)).Nodup :=
    List.Nodup.of_map Prod.fst (by rw [List.map_map]; exact ht.nodup hs)
  have hkind {r r' : NodeResult} (hr' : r' ∈ t'.results) (hr : r ∈ t.results) (hrep : Repeats r' r) :
      (r'.nodePath, r'.isLeaf) = (r.nodePath, r.isLeaf) := by
    rw [(hs'.named.results r' hr').path, (hs.named.results r hr).path, hrep.ancestry, hrep.isLeaf]
  refine (List.perm_ext_iff_of_nodup (hnodup hs' ht') (hnodup hs ht)).2 fun a => ?_
  constructor
  · intro ha
    obtain ⟨r', hr', rfl⟩ := List.mem_map.1 ha
    obtain ⟨r, hr, hrep⟩ := h.results r' hr'
    exact List.mem_map.2 ⟨r, hr, (hkind hr' hr hrep).symm⟩
  · intro ha
    obtain ⟨r, hr, rfl⟩ := List.mem_map.1 ha
    obtain ⟨v, found, hv, hvr, -⟩ := hfated.results r hr
    obtain ⟨r', hr', hrep⟩ := h.exists_repeats hs' ht' hu' hfated hu hv hvr
    exact List.mem_map.2 ⟨r', hr', hkind hr' hr hrep⟩

end

theorem isClean_lateSession : IsClean (lateSession.run (afterwards .empty [])) := by
  obtain ⟨base, hs⟩ := vacant_empty.shelved
  obtain ⟨d, d', q, -, hresults, -, -, -, -, -, hquiet⟩ := exists_run_plain
    (p := lateSession.policy) hs ⟨by decide, fun _ hn => absurd hn List.not_mem_nil⟩
    isPlainLeaf_emptyRoot (by decide) lateSession.metrics
  have hwhole : IsWhole (lateSession.run .empty) := lateSession_run
  have hwatched : Watched (lateSession.run .empty) [] := (watched_initial _ _ _).run _ _
  refine ⟨hwhole.isDone, ?_, hwhole.skipped, List.append_eq_nil_iff.2 ⟨hwatched.quiet hwhole.failures, ?_⟩⟩
  · show List.findSome? _ (lateSession.run .empty).failures = none
    rw [hwhole.failures]
    rfl
  · refine List.flatMap_eq_nil_iff.2 fun r hr => ?_
    have hr' : r ∈ [Draft.result d' .plain] := hresults ▸ hr
    rw [List.mem_singleton.1 hr']
    exact hquiet (by decide) (by decide)

end SpecTree.Plan
