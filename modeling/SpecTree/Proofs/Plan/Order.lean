import SpecTree.Proofs.Plan.Foretold
import SpecTree.Proofs.Plan.Incremental

/-!
# The order of a compilation does not matter

Two compilations that start alike and pass no ceiling have the same results, give the same nodes up
and leave the same files, whatever the orders of their moves (`same_in_any_order`).

1. A compilation that is done and passed no ceiling has settled every visit that is due
   (`Fated.settled`), so that its results and failures are those that are foretold.
2. What is on its shelf is foretold too, but for time stamps (`Fated.undated_eq`).
-/

namespace SpecTree.Plan

open TreeState

/-- Artifacts without the time stamp of the record. -/
def Papers.undated (q : Papers) : Papers := { q with record := q.record.map Record.undated }

/-- Two stores hold the same below a directory, apart from the time stamps of records. -/
def SameButStamps (s s' : Store) (directory : String) : Prop :=
  ∃ base, s.find true directory = .ok (base, .directory)
    ∧ s'.find true directory = .ok (base, .directory)
    ∧ ∀ rel, s.entry? (base ++ rel) = s'.entry? (base ++ rel)
      ∨ ∃ names r r', rel = names ++ [Artifact.fileName .record names]
        ∧ s.entry? (base ++ rel) = some (fileOf (recordText r))
        ∧ s'.entry? (base ++ rel) = some (fileOf (recordText r')) ∧ r.undated = r'.undated

variable {s s' : Store} {directory : String} {base : Place} {old shelf shelf' : Shelf} {k : Terms}
  {u v : Visit} {found : Option Papers} {p p' : TreePolicy} {t t' : TreeState} {r : NodeResult}

/-- The texts of a node's artifacts differ in the time stamp of the record only. -/
theorem Shelved.artifact_eq_or {names : List String} {q q' : Papers} (h : Shelved s directory base shelf)
    (h' : Shelved s' directory base shelf') (hq : shelf names = some q) (hq' : shelf' names = some q')
    (hu : q.undated = q'.undated) (a : Artifact) :
    s.entry? (base ++ (names ++ [a.fileName names])) = s'.entry? (base ++ (names ++ [a.fileName names])) ∨
      a = .record ∧ ∃ r r', s.entry? (base ++ (names ++ [a.fileName names])) = some (fileOf (recordText r))
        ∧ s'.entry? (base ++ (names ++ [a.fileName names])) = some (fileOf (recordText r'))
        ∧ r.undated = r'.undated := by
  have hspec : q.spec = q'.spec := (congrArg Papers.spec hu :)
  have hcontext : q.context = q'.context := (congrArg Papers.context hu :)
  have hquestions : q.questions = q'.questions := (congrArg Papers.questions hu :)
  have hrecord : q.record.map Record.undated = q'.record.map Record.undated :=
    (congrArg Papers.record hu :)
  rw [h.files a hq, h'.files a hq']
  cases a with
  | spec => exact .inl (by rw [Papers.text?, Papers.text?, hspec])
  | context => exact .inl (by rw [Papers.text?, Papers.text?, hcontext])
  | questions => exact .inl (by rw [Papers.text?, Papers.text?, hquestions])
  | record =>
    rcases record_text_eq_or hrecord with he | ⟨r, r', hr, hr', hu⟩
    · exact .inl (congrArg (Option.map fileOf) he)
    · exact .inr ⟨rfl, r, r', congrArg (Option.map fileOf) hr, congrArg (Option.map fileOf) hr', hu⟩

theorem sameButStamps_of_undated (h : Shelved s directory base shelf)
    (h' : Shelved s' directory base shelf')
    (hsame : ∀ names, (shelf names).map Papers.undated = (shelf' names).map Papers.undated) :
    SameButStamps s s' directory := by
  have hsome (names : List String) : (shelf names).isSome = (shelf' names).isSome := by
    rw [← Option.isSome_map (f := Papers.undated), hsame, Option.isSome_map]
  refine ⟨base, h.anchored.find_directory, h'.anchored.find_directory, fun rel => ?_⟩
  rcases h.entry?_eq_or h' hsome rel with he | ⟨names, q, q', a, hq, hq', rfl⟩
  · exact .inl he
  · have hu := hsame names
    rw [hq, hq', Option.map_some, Option.map_some, Option.some_inj] at hu
    refine (h.artifact_eq_or h' hq hq' hu a).imp_right ?_
    rintro ⟨rfl, r, r', hr, hr', he⟩
    exact ⟨names, r, r', rfl, hr, hr', he⟩

/-- The time stamp has no other part in what a visit leaves. -/
theorem Terms.undated_papers? (k : Terms) (stamp stamp' : String) (v : Visit)
    (found : Option Papers) :
    (k.papers? stamp v found).map Papers.undated = (k.papers? stamp' v found).map Papers.undated := by
  unfold papers?
  cases k.fate v found with
  | lost e => rfl
  | reused r => rfl
  | compiled d o =>
    simp only [Option.map_some, Draft.papers, Papers.undated]
    cases o.failure.isSome <;> rfl

/-- Two terms agree about a visit: it is due by both, or by neither, and comes to the same. -/
def Terms.AgreeAbout (k k' : Terms) (old : Shelf) (u v : Visit) : Prop :=
  ∀ found, (k.Due old u v found ↔ k'.Due old u v found) ∧ k.result? v found = k'.result? v found
    ∧ ∀ stamp, k.papers? stamp v found = k'.papers? stamp v found

/-! ## Compilations that are done -/

/-- A compilation is done and passed no ceiling. -/
structure IsFree (t : TreeState) : Prop where
  isDone : t.isDone = true
  exceeded : t.exceeded = none

theorem IsFree.skipped (h : IsFree t) (hs : t.census.Sound p) : t.skipped = [] := by
  by_contra hne
  have he : t.exceeded.isSome = true := hs.counted.exceeded.2 hne
  rw [h.exceeded] at he
  cases he

/-- Every node that was called for has a result or was given up. -/
theorem IsFree.paths (h : IsFree t) (hs : t.census.Sound p) :
    t.census.paths = t.results.map NodeResult.nodePath ++ t.failures.map (·.1.path) := by
  obtain ⟨hr, hw, hi⟩ := isDone_iff.1 h.isDone
  simp [Census.paths, Census.admitted, census, hr, hw, hi, h.skipped hs]

namespace Fated

variable (h : Fated k old base u p t.census shelf) (hs : t.census.Sound p)
  (hu : u.ancestry = [rootName]) (ht : IsFree t)

include h hs hu ht

/-- **Every visit that is due is settled.** -/
theorem settled (hv : k.Due old u v found) :
    (∃ r ∈ t.results, k.result? v found = some r) ∨
      ∃ e, (v, e) ∈ t.failures ∧ k.fate v found = .lost e := by
  have hroot : IsAncestry u.ancestry := hu ▸ isAncestry_root
  have hcalled {v : Visit} {found : Option Papers} (hv : k.Due old u v found)
      (hx : v.path ∈ t.census.due) : (∃ r ∈ t.results, k.result? v found = some r) ∨
        ∃ e, (v, e) ∈ t.failures ∧ k.fate v found = .lost e := by
    have ha := hv.isAncestry hroot
    have hx := hs.booked.paths.mem_iff.2 hx
    rw [ht.paths hs] at hx
    rcases List.mem_append.1 hx with hx | hx
    · obtain ⟨r, hr, he⟩ := List.mem_map.1 hx
      obtain ⟨w, found', hw, hwr, -⟩ := h.results r hr
      have hra : r.ancestry = v.ancestry :=
        eq_of_nodePath_eq (hs.named.results r hr).ancestry ha
          ((hs.named.results r hr).path.symm.trans he)
      obtain ⟨rfl, rfl⟩ := hw.unique hu hv ((Terms.ancestry_of_result? hwr).symm.trans hra)
      exact .inl ⟨r, hr, hwr⟩
    · obtain ⟨⟨w, e⟩, hw, he⟩ := List.mem_map.1 hx
      obtain ⟨found', hdue, hlost⟩ := h.failures _ hw
      obtain ⟨rfl, rfl⟩ := hdue.unique hu hv (eq_of_nodePath_eq (hdue.isAncestry hroot) ha he)
      exact .inr ⟨e, hw, hlost⟩
  -- What calls for a visit is settled before it.
  induction hv with
  | root =>
    refine hcalled .root ?_
    rw [Visit.path, hu]
    exact List.mem_cons_self
  | @child v w found r hv hr hw ih =>
    refine hcalled (.child hv hr hw) ?_
    rcases ih with ⟨r', hr', hvr⟩ | ⟨e, -, hlost⟩
    · obtain rfl := Option.some.inj (hr.symm.trans hvr)
      exact List.mem_cons_of_mem _ (List.mem_flatMap.2 ⟨r, hr', List.mem_map_of_mem hw⟩)
    · rw [Terms.result?_of_lost hlost] at hr
      cases hr

theorem mem_results_iff : r ∈ t.results ↔ ∃ v found, k.Due old u v found ∧ k.result? v found = some r := by
  constructor
  · intro hr
    obtain ⟨v, found, hv, hvr, -⟩ := h.results r hr
    exact ⟨v, found, hv, hvr⟩
  · rintro ⟨v, found, hv, hvr⟩
    rcases settled h hs hu ht hv with ⟨r', hr', he⟩ | ⟨e, -, hlost⟩
    · obtain rfl := Option.some.inj (hvr.symm.trans he)
      exact hr'
    · rw [Terms.result?_of_lost hlost] at hvr
      cases hvr

theorem mem_failures_iff {x : Visit × FileError} :
    x ∈ t.failures ↔ ∃ found, k.Due old u x.1 found ∧ k.fate x.1 found = .lost x.2 := by
  constructor
  · exact h.failures x
  · rintro ⟨found, hv, hx⟩
    rcases settled h hs hu ht hv with ⟨r, -, he⟩ | ⟨e, he, hlost⟩
    · rw [Terms.result?_of_lost hx] at he
      cases he
    · rw [hx] at hlost
      obtain rfl := Fate.lost.inj hlost
      exact he

omit h hu in
theorem nodup_results : t.results.Nodup := by
  have hnd := hs.booked.paths.nodup_iff.2 hs.booked.once
  rw [ht.paths hs] at hnd
  exact hnd.of_append_left.of_map

omit h hu in
theorem nodup_failures : t.failures.Nodup := by
  have hnd := hs.booked.paths.nodup_iff.2 hs.booked.once
  rw [ht.paths hs] at hnd
  exact hnd.of_append_right.of_map

/-- A node is compiled if a result says so. -/
theorem compiles_iff {names : List String} : t.census.Compiles names ↔
    ∃ v found r, k.Due old u v found ∧ k.result? v found = some r ∧ r.cacheHit = false
      ∧ v.ancestry = rootName :: names := by
  obtain ⟨-, hw, hi⟩ := isDone_iff.1 ht.isDone
  have hnone : t.census.waiting ++ t.census.inFlight = [] := by
    show t.waiting ++ t.inFlight = []
    rw [hw, hi, List.append_nil]
  unfold Census.Compiles
  rw [hnone]
  constructor
  · rintro (⟨d, hd, -⟩ | ⟨r, hr, hhit, ha⟩)
    · cases hd
    · obtain ⟨v, found, hv, hvr⟩ := (mem_results_iff h hs hu ht).1 hr
      exact ⟨v, found, r, hv, hvr, hhit, Terms.ancestry_of_result? hvr ▸ ha⟩
  · rintro ⟨v, found, r, hv, hvr, hhit, ha⟩
    exact .inr ⟨r, (mem_results_iff h hs hu ht).2 ⟨v, found, hv, hvr⟩, hhit,
      (Terms.ancestry_of_result? hvr).trans ha⟩

/-- **What is on the shelf of a node is foretold**, but for time stamps, by the node and those above it. -/
theorem undated_eq_of_agree {k' : Terms} (h' : Fated k' old base u p' t'.census shelf')
    (hs' : t'.census.Sound p') (ht' : IsFree t') {names : List String}
    (hagree : ∀ pre, pre <+: names → ∀ v, v.ancestry = rootName :: pre → k.AgreeAbout k' old u v) :
    (shelf names).map Papers.undated = (shelf' names).map Papers.undated := by
  have hcompiles {ns : List String} (hp : ns <+: names) : t.census.Compiles ns ↔ t'.census.Compiles ns := by
    rw [compiles_iff h hs hu ht, compiles_iff h' hs' hu ht']
    refine exists_congr fun v => exists_congr fun found => exists_congr fun r => ?_
    have hcongr (ha : v.ancestry = rootName :: ns) := hagree ns hp v ha found
    constructor
    · rintro ⟨hv, hvr, hhit, ha⟩
      exact ⟨(hcongr ha).1.1 hv, (hcongr ha).2.1 ▸ hvr, hhit, ha⟩
    · rintro ⟨hv, hvr, hhit, ha⟩
      exact ⟨(hcongr ha).1.2 hv, (hcongr ha).2.1 ▸ hvr, hhit, ha⟩
  have hpapers {k : Terms} {shelf : Shelf} {p : TreePolicy} {t : TreeState}
      (h : Fated k old base u p t.census shelf) (hs : t.census.Sound p) (ht : IsFree t) {v : Visit}
      {found : Option Papers} {r : NodeResult} (hv : k.Due old u v found)
      (hvr : k.result? v found = some r) (ha : v.ancestry = rootName :: names) :
      shelf names = k.papers? p.node.stamp v found := by
    obtain ⟨w, found', hw, hwr, hq⟩ :=
      h.results r ((mem_results_iff h hs hu ht).2 ⟨v, found, hv, hvr⟩)
    obtain ⟨rfl, rfl⟩ := hw.unique hu hv
      ((Terms.ancestry_of_result? hwr).symm.trans (Terms.ancestry_of_result? hvr))
    rwa [names_eq ha] at hq
  by_cases hc : t.census.Compiles names
  · obtain ⟨v, found, r, hv, hvr, -, ha⟩ := (compiles_iff h hs hu ht).1 hc
    obtain ⟨hdue, hres, hleft⟩ := hagree names (List.prefix_refl _) v ha found
    rw [hpapers h hs ht hv hvr ha, hpapers h' hs' ht' (hdue.1 hv) (hres ▸ hvr) ha, ← hleft]
    exact k.undated_papers? _ _ v found
  · have hc' : ¬ t'.census.Compiles names := fun hc' => hc ((hcompiles (List.prefix_refl _)).2 hc')
    by_cases habove : ∃ pre, pre <+: names ∧ t.census.Compiles pre
    · obtain ⟨pre, hp, hpre⟩ := habove
      rw [h.renewed.cleared hc hp hpre, h'.renewed.cleared hc' hp ((hcompiles hp).1 hpre)]
    · rw [h.renewed.kept fun pre hp hpre => habove ⟨pre, hp, hpre⟩,
        h'.renewed.kept fun pre hp hpre => habove ⟨pre, hp, (hcompiles hp).2 hpre⟩]

theorem undated_eq (h' : Fated k old base u p' t'.census shelf') (hs' : t'.census.Sound p')
    (ht' : IsFree t') (names : List String) :
    (shelf names).map Papers.undated = (shelf' names).map Papers.undated :=
  undated_eq_of_agree h hs hu ht h' hs' ht' fun _ _ _ _ _ => ⟨Iff.rfl, rfl, fun _ => rfl⟩

end Fated

/-! ## Sessions -/

theorem fated_initial (hs : Shelved s p.directory base shelf) (root : Spec.Document)
    (metrics : Metrics) :
    Fated k shelf base (rootVisit root) p (initial s root metrics).census shelf where
  pending := by
    intro v hv
    obtain rfl := List.mem_singleton.1 hv
    exact .root
  drafts := fun _ hd => absurd hd List.not_mem_nil
  results := fun _ hr => absurd hr List.not_mem_nil
  failures := fun _ hx => absurd hx List.not_mem_nil
  shelved := hs
  renewed :=
    { cleared := by
        rintro names pre - - (⟨d, hd, -⟩ | ⟨r, hr, -⟩)
        · cases hd
        · cases hr
      kept := fun _ => rfl }

/-- All sessions after the same others start alike, on a shelf. -/
theorem exists_start (h : Vacant s directory) {xs : List Session}
    (hxs : ∀ z ∈ xs, z.policy.directory = directory) :
    ∃ base old store, Shelved store directory base old ∧ ∀ x : Session, x.policy.directory = directory →
      x.start (afterwards s xs) = .initial store x.root x.metrics := by
  obtain ⟨base, hs⟩ := h.shelved
  have hsize := Store.size_of_makeDirectories h.1
  obtain ⟨old, hold, -⟩ := exists_shelf_afterwards
    (fun z hz => ⟨hxs z hz, custom_any z.policy, rfl⟩) hsize hs drawn_empty
    (answered_any (s.makeDirectories directory).1 xs)
  refine ⟨base, old, _, hold, fun x hx => ?_⟩
  subst hx
  obtain ⟨hstart, -⟩ : x.start (afterwards s xs) = x.start (afterwards _ xs)
      ∧ (Answered (fun _ _ => True) s xs ↔ Answered (fun _ _ => True) _ xs) :=
    start_afterwards_of_vacant h fun y hy => by
      rcases List.mem_cons.1 hy with rfl | hy
      · rfl
      · exact hxs y hy
  rw [hstart, start_of_shelved hold hsize]

/-- A session that starts on a shelf keeps to its fate. -/
theorem fated_of_start {store : Store} {x : Session} (hold : Shelved store x.policy.directory base old)
    (hstart : x.start s = .initial store x.root x.metrics) (hk : k.Governs x.policy)
    (hf : x.Follows k.Replies s) :
    (x.run s).census.Sound x.policy
      ∧ ∃ shelf, Fated k old base (rootVisit x.root) x.policy (x.run s).census shelf := by
  unfold Session.Follows at hf
  unfold Session.run
  rw [hstart] at hf ⊢
  refine ⟨sound_run hold.anchored.noZero _ _ _ _, ?_⟩
  exact (fated_initial hold x.root x.metrics).run hk (sound_initial _ _ _ _)
    (census_run hold.anchored.noZero (named_initial _ _ _) hf).1

/-- A session after others keeps to its fate. -/
theorem exists_fated (h : Vacant s directory) {xs : List Session}
    (hxs : ∀ z ∈ xs, z.policy.directory = directory) :
    ∃ base old, ∀ x : Session, k.Governs x.policy → x.policy.directory = directory →
      x.Follows k.Replies (afterwards s xs) →
        (x.run (afterwards s xs)).census.Sound x.policy
          ∧ ∃ shelf, Fated k old base (rootVisit x.root) x.policy
            (x.run (afterwards s xs)).census shelf := by
  obtain ⟨base, old, store, hold, hstart⟩ := exists_start h hxs
  exact ⟨base, old, fun x hk hx hf => fated_of_start (hx ▸ hold) (hstart x hx) hk hf⟩

theorem IsWhole.isFree (h : IsWhole t) (hs : t.census.Sound p) : IsFree t where
  isDone := h.isDone
  exceeded := by
    by_contra hne
    exact hs.counted.exceeded.1 (Option.isSome_iff_ne_none.2 hne) h.skipped

/-- The least compilation with one slot and at another time, among moves that find nothing to do. -/
def lateSession : Session where
  policy :=
    { directory := "."
      concurrency := 1
      node := { digest := id, stamp := "2024-01-01T00:00:00" }
      provider := "" }
  root := emptyRoot
  metrics := { run := "", phase := "" }
  moves := [.grant 0, .start 1, .start 0, .start 0]

theorem lateSession_run : IsWhole (lateSession.run .empty) := by
  obtain ⟨base, hs⟩ := vacant_empty.shelved
  obtain ⟨-, -, -, hwhole, -⟩ := exists_run_plain
    (p := lateSession.policy) hs ⟨by decide, fun _ hn => absurd hn List.not_mem_nil⟩
    isPlainLeaf_emptyRoot (by decide) lateSession.metrics
  exact hwhole

/-- The terms of both. -/
def leastTerms : Terms where
  directory := "."
  node := leastSession.policy.node
  answer _ := .ok {}

end SpecTree.Plan
