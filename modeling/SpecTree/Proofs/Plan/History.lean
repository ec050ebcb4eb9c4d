import SpecTree.Proofs.Plan.Lineage

/-!
# Compilations one after another

A session is one compilation, which may stop anywhere. Sessions follow each other on one plan
directory, which has nothing in it when they begin.

1. After any sessions the directory holds a shelf, and every node on it was called for
   (`exists_shelf_afterwards`).
2. A session that is done, and neither skips nor loses a node, has a result for every node on the
   shelf (`Kept.exists_result`).
3. All that a compilation does to a store is to make directories, to write files and to remove entries. So
   a store without links has none afterwards, after one compilation (`plain_session`) or many
   (`plain_afterwards`).
-/

namespace SpecTree.Plan

open TreeState

/-- The visit that compiles a root. -/
def rootVisit (root : Spec.Document) : Visit := { node := .document root, ancestry := [rootName] }

/-- One compilation: what is compiled, and how, and the moves that are made. -/
structure Session where
  policy : TreePolicy
  root : Spec.Document
  metrics : Metrics
  moves : List Move

namespace Session

/-- The plan directory is made first. -/
def start (x : Session) (s : Store) : TreeState :=
  .initial (s.makeDirectories x.policy.directory).1 x.root x.metrics

def run (x : Session) (s : Store) : TreeState := (x.start s).run x.policy x.moves

/-- All replies may come. -/
def Follows (x : Session) (mayReply : Request → Except Failure Expansion → Prop) (s : Store) : Prop :=
  TreeState.Follows x.policy mayReply (x.start s) x.moves

end Session

/-- The store after some sessions. -/
def afterwards (s : Store) : List Session → Store
  | [] => s
  | x :: xs => afterwards (x.run s).store xs

/-- All replies in some sessions may come. -/
def Answered (mayReply : Request → Except Failure Expansion → Prop) (s : Store) : List Session → Prop
  | [] => True
  | x :: xs => x.Follows mayReply s ∧ Answered mayReply (x.run s).store xs

/-- The plan directory can be made, and has nothing in it then. -/
def Vacant (s : Store) (directory : String) : Prop :=
  (s.makeDirectories directory).2 = none ∧
    ∃ base, (s.makeDirectories directory).1.find true directory = .ok (base, .directory) ∧
      ∀ rel, rel ≠ [] → Store.entry? (s.makeDirectories directory).1 (base ++ rel) = none

variable {s : Store} {directory : String} {base : Place} {shelf : Shelf} {x : Session}
  {mayReply : Request → Except Failure Expansion → Prop} {isRoot : Visit → Prop}
  {made : Visit → Papers → Prop}

theorem Vacant.shelved (h : Vacant s directory) :
    ∃ base, Shelved (s.makeDirectories directory).1 directory base Shelf.empty := by
  obtain ⟨-, base, hf, hn⟩ := h
  exact ⟨base, .empty ⟨_, hf, hn, .refl _⟩ hn⟩

/-- **What every step keeps, a session keeps.** -/
theorem Session.induct {P : Census → Prop} (h0 : x.policy.directory.contains '\x00' = false)
    (hstart : P (x.start s).census)
    (hstep : ∀ c c', c.Sound x.policy → Census.Step x.policy (fun _ _ => True) c c' → P c → P c') :
    P (x.run s).census := by
  have hrun : Relation.ReflTransGen (Census.Step x.policy fun _ _ => True) (x.start s).census
      (x.run s).census := (census_run h0 (named_initial _ _ _) (follows_any (x.start s) x.moves)).1
  suffices h : ∀ c, Relation.ReflTransGen (Census.Step x.policy fun _ _ => True) (x.start s).census c →
      P c from h _ hrun
  intro c hc
  induction hc with
  | refl => exact hstart
  | tail hc hs ih => exact hstep _ _ ((sound_initial x.policy _ _ _).run hc) hs ih

theorem drawn_empty : Drawn isRoot made Shelf.empty := nofun

/-- Making the directory again changes nothing. -/
theorem start_of_shelved (hs : Shelved s x.policy.directory base shelf)
    (hsize : (Store.pathOf (Path.parts x.policy.directory)).utf8ByteSize < Store.pathLimit) :
    x.start s = .initial s x.root x.metrics := by
  rw [Session.start, Store.makeDirectories_base hs.anchored hsize]

/-- **One session** on a store that holds a shelf. -/
theorem kept_session (hC : Custom x.policy mayReply isRoot made) (hu : isRoot (rootVisit x.root))
    (hs : Shelved s x.policy.directory base shelf) (hd : Drawn isRoot made shelf)
    (hsize : (Store.pathOf (Path.parts x.policy.directory)).utf8ByteSize < Store.pathLimit)
    (hf : x.Follows mayReply s) :
    ∃ shelf', Kept x.policy mayReply isRoot made base (rootVisit x.root) (x.run s).census shelf' := by
  have h0 := hs.anchored.noZero
  have hstart := start_of_shelved (x := x) hs hsize
  unfold Session.Follows at hf
  unfold Session.run
  rw [hstart] at hf ⊢
  have hk : Kept x.policy mayReply isRoot made base (rootVisit x.root)
      (TreeState.initial s x.root x.metrics).census shelf := by
    refine ⟨hs, hd, fun v hv => ?_, fun d hd => ?_, fun r hr => ?_⟩
    · exact .inl (List.mem_singleton.1 hv)
    · exact absurd hd List.not_mem_nil
    · exact absurd hr List.not_mem_nil
  exact hk.run hC hu (sound_initial _ _ _ _) (census_run h0 (named_initial _ _ _) hf).1

/-- **After any sessions** the directory holds a shelf. -/
theorem exists_shelf_afterwards {xs : List Session}
    (hx : ∀ x ∈ xs, x.policy.directory = directory ∧ Custom x.policy mayReply isRoot made
      ∧ isRoot (rootVisit x.root))
    (hsize : (Store.pathOf (Path.parts directory)).utf8ByteSize < Store.pathLimit)
    (hs : Shelved s directory base shelf) (hd : Drawn isRoot made shelf)
    (hf : Answered mayReply s xs) :
    ∃ shelf', Shelved (afterwards s xs) directory base shelf' ∧ Drawn isRoot made shelf' := by
  induction xs generalizing s shelf with
  | nil => exact ⟨shelf, hs, hd⟩
  | cons x xs ih =>
    obtain ⟨rfl, hC, hu⟩ := hx x List.mem_cons_self
    obtain ⟨shelf', hk⟩ := kept_session hC hu hs hd hsize hf.1
    exact ih (fun y hy => hx y (List.mem_cons_of_mem x hy)) hk.shelved hk.drawn hf.2

/-- A session starts alike whether the directory is there already or not. -/
theorem start_afterwards_of_vacant (h : Vacant s directory) {xs : List Session}
    (hx : ∀ y ∈ x :: xs, y.policy.directory = directory) :
    let s' := (s.makeDirectories directory).1
    x.start (afterwards s xs) = x.start (afterwards s' xs)
      ∧ (Answered mayReply s xs ↔ Answered mayReply s' xs) := by
  intro s'
  obtain ⟨base, hs⟩ := h.shelved
  have hstart (y : Session) (hy : y.policy.directory = directory) : y.start s = y.start s' := by
    subst hy
    rw [start_of_shelved hs (Store.size_of_makeDirectories h.1)]
    rfl
  cases xs with
  | nil => exact ⟨hstart x (hx x List.mem_cons_self), Iff.rfl⟩
  | cons y ys =>
    have he := hstart y (hx y (List.mem_cons_of_mem x List.mem_cons_self))
    have hrun : y.run s = y.run s' := congrArg (TreeState.run y.policy · y.moves) he
    simp only [afterwards, Answered, Session.Follows, hrun, he, and_self]

/-- **The last of some sessions** on a directory that has nothing in it at first. -/
theorem exists_kept_of_vacant (h : Vacant s directory) {xs : List Session}
    (hx : ∀ y ∈ x :: xs, y.policy.directory = directory ∧ isRoot (rootVisit y.root))
    (hC : ∀ y ∈ xs, Custom y.policy mayReply isRoot made) (hf : Answered mayReply s xs)
    {mayReply' : Request → Except Failure Expansion → Prop}
    (hC' : Custom x.policy mayReply' isRoot made) (hf' : x.Follows mayReply' (afterwards s xs)) :
    ∃ base shelf, Kept x.policy mayReply' isRoot made base (rootVisit x.root)
        (x.run (afterwards s xs)).census shelf
      ∧ (x.run (afterwards s xs)).census.Sound x.policy := by
  have hsize := Store.size_of_makeDirectories h.1
  obtain ⟨rfl, hu⟩ := hx x List.mem_cons_self
  obtain ⟨base, hs⟩ := h.shelved
  obtain ⟨hstart, hanswer⟩ := start_afterwards_of_vacant h fun y hy => (hx y hy).1
  obtain ⟨shelf, hs', hd⟩ := exists_shelf_afterwards (fun y hy =>
    ⟨(hx y (List.mem_cons_of_mem x hy)).1, hC y hy, (hx y (List.mem_cons_of_mem x hy)).2⟩)
    hsize hs drawn_empty (hanswer.1 hf)
  unfold Session.Follows at hf'
  rw [hstart] at hf'
  obtain ⟨shelf', hk⟩ := kept_session hC' hu hs' hd hsize hf'
  unfold Session.run at hk ⊢
  rw [← hstart] at hk
  exact ⟨base, shelf', hk, sound_run hs.anchored.noZero _ _ _ _⟩

theorem answered_any (s : Store) (xs : List Session) : Answered (fun _ _ => True) s xs := by
  induction xs generalizing s with
  | nil => trivial
  | cons x xs ih => exact ⟨follows_any _ _, ih _⟩

/-- Where any artifacts may come from any visit, any compilation leaves what it should. -/
theorem custom_any (p : TreePolicy) :
    Custom p (fun _ _ => True) (fun v => v.ancestry = [rootName]) fun _ _ => True where
  root := fun _ h => h
  spec := fun _ => trivial
  reuse := fun _ _ _ _ _ _ _ _ _ _ => trivial
  leaves := fun _ _ _ _ _ _ _ => trivial

/-! ## Sessions that are done -/

/-- Nothing is left to do, and no node was skipped or given up. -/
structure IsWhole (s : TreeState) : Prop where
  isDone : s.isDone = true
  skipped : s.skipped = []
  failures : s.failures = []

/-- Every node that was called for has a result. -/
theorem IsWhole.perm {t : TreeState} (h : IsWhole t) {p : TreePolicy} (hs : t.census.Sound p) :
    (t.results.map NodeResult.nodePath).Perm t.census.due := by
  obtain ⟨hr, hw, hi⟩ := isDone_iff.1 h.isDone
  have hpaths : t.census.paths = t.results.map NodeResult.nodePath := by
    simp [Census.paths, Census.admitted, census, hr, hw, hi, h.skipped, h.failures]
  exact hpaths ▸ hs.booked.paths

theorem IsWhole.nodup {t : TreeState} (h : IsWhole t) {p : TreePolicy} (hs : t.census.Sound p) :
    (t.results.map NodeResult.nodePath).Nodup :=
  (h.perm hs).nodup_iff.2 hs.booked.once

/-- A child of a result has a result. -/
theorem IsWhole.exists_result {t : TreeState} (h : IsWhole t) {p : TreePolicy}
    (hs : t.census.Sound p) {u v : Visit} (hu : u.ancestry = [rootName])
    (hv : Called u t.census v) : ∃ r ∈ t.results, r.ancestry = v.ancestry := by
  have hdue : v.path ∈ t.census.due := by
    rcases hv with rfl | ⟨r, hr, hv⟩
    · rw [Visit.path, hu]
      exact List.mem_cons_self
    · exact List.mem_cons_of_mem _ (List.mem_flatMap.2 ⟨r, hr, List.mem_map_of_mem hv⟩)
  obtain ⟨r, hr, he⟩ := List.mem_map.1 ((h.perm hs).mem_iff.2 hdue)
  have hf := hs.named.results r hr
  exact ⟨r, hr, eq_of_nodePath_eq hf.ancestry (hv.isAncestry hs.named hu) (hf.path.symm.trans he)⟩

/-- A record's children are those of the result that it backs. -/
theorem Backs.visitsBelow {v : Visit} {r : NodeResult} {names : List String} {q : Papers}
    {rec : Record} (h : Backs mayReply made shelf v r names q) (hrec : q.record = some rec) :
    visitsBelow r = visitsOf names rec := by
  rcases h.agrees with ⟨rec', hrec', hl, hc⟩ | ⟨hnone, -⟩
  · obtain rfl := Option.some.inj (hrec.symm.trans hrec')
    exact visitsBelow_eq_visitsOf h.result hl hc
  · rw [hrec] at hnone
    cases hnone

/-- **Every node on the shelf has a result** when a session has gone through. -/
theorem Kept.exists_result {p : TreePolicy} {t : TreeState} {u : Visit}
    (hk : Kept p mayReply isRoot made base u t.census shelf) (hs : t.census.Sound p) (h : IsWhole t)
    (hroot : ∀ v, isRoot v → v.ancestry = [rootName]) (hu : isRoot u) {names : List String}
    {q : Papers} (hq : shelf names = some q) :
    ∃ r ∈ t.results, ∃ v, Called u t.census v ∧ Backs mayReply made shelf v r names q := by
  have hresult {ns : List String} {q : Papers} (hq : shelf ns = some q) {w : Visit}
      (hw : Called u t.census w) (ha : w.ancestry = rootName :: ns) :
      ∃ r ∈ t.results, ∃ v, Called u t.census v ∧ Backs mayReply made shelf v r ns q := by
    obtain ⟨r, hr, he⟩ := h.exists_result hs (hroot u hu) hw
    obtain ⟨v, ns', q', hv, hb⟩ := hk.results r hr
    obtain rfl : ns' = ns := (List.cons.inj (hb.result.symm.trans (he.trans ha))).2
    obtain rfl : q' = q := Option.some.inj (hb.papers.symm.trans hq)
    exact ⟨r, hr, v, hv, hb⟩
  induction names using List.reverseRecOn generalizing q with
  | nil => exact hresult hq (.inl rfl) (hroot u hu)
  | append_singleton names n ih =>
    obtain ⟨w, hw, -⟩ := hk.drawn _ _ hq
    rcases hw.parent hk.named hroot with ⟨-, h0⟩ | ⟨ns, m, q', rec, hns, hq', hrec, -, hv⟩
    · simp at h0
    · obtain ⟨rfl, -⟩ := List.append_inj' hns rfl
      obtain ⟨r, hr, v, -, hb⟩ := ih hq'
      rw [← hb.visitsBelow hrec] at hv
      exact hresult hq (.inr ⟨r, hr, hv⟩) hw.1

end SpecTree.Plan

namespace SpecTree.Plan

open Store TreeState

variable {s t : Store} {directory : String} {p : TreePolicy}
  {mayReply : Request → Except Failure Expansion → Prop}

/-! ## Moves bring no links -/

theorem plain_prepare {v : Visit} {d : Difference} {draft : Draft} (h : s.Plain)
    (hd : prepare s directory v d = .ok (t, draft)) : t.Plain :=
  prepare_induct (fun _ place h => plain_prune h place) (fun _ h => plain_writeDeep h _ _) h hd

theorem plain_finish {d : Draft} {stamp : String} {o : Outcome} {r : NodeResult} {lines : List Log.Line}
    (h : s.Plain) (hf : d.finish stamp s directory o = .ok (t, r, lines)) : t.Plain :=
  Draft.finish_induct (fun _ h => plain_writeDeep h _ _) (fun _ _ h => plain_writeDeep h _ _)
    (fun _ _ _ h => plain_writeDeep h _ _) h hf

/-- **No move brings a link.** -/
theorem Census.Step.plain {c c' : Census} (hs : Census.Step p mayReply c c') (h : c.store.Plain) :
    c'.store.Plain := by
  cases hs with
  | refuse | lose | reuse | withdraw | grant => exact h
  | wait hp ha he hj hc hd => exact plain_prepare h hd
  | keep hp ha he hj hd hf => exact plain_finish (plain_prepare h hd) hf
  | finish hi hr hf => exact plain_finish h hf

/-! ## Sessions bring no links -/

theorem plain_session {x : Session} (h0 : x.policy.directory.contains '\x00' = false) (h : s.Plain) :
    (x.run s).store.Plain := by
  have hstart : (x.start s).census.store.Plain := (sameFiles_makeDirectories h x.policy.directory).plain
  exact Session.induct (P := fun c => c.store.Plain) h0 hstart fun c c' hs hstep h =>
    hstep.plain h

theorem plain_afterwards {xs : List Session}
    (h0 : ∀ x ∈ xs, x.policy.directory.contains '\x00' = false) (h : s.Plain) :
    (afterwards s xs).Plain := by
  induction xs generalizing s with
  | nil => exact h
  | cons x xs ih =>
    obtain ⟨hx, hxs⟩ := List.forall_mem_cons.1 h0
    exact ih hxs (plain_session hx h)

end SpecTree.Plan
