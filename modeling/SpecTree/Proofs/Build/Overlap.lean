import SpecTree.Proofs.Build.Rows

/-!
# What an overlap leaves

A leaf claims its paths in their order, all of them before it writes the first file. At the first path that
is taken it ends with an overlap: it has written nothing, and it keeps the claims on the paths before that
one (`overlap_traces`). They are taken for the rest of the build, although no leaf writes them
(`contested_stays_claimed`).

1. `Claims.registerAll_eq_some_iff`: where claiming stops. `Claims.entries_registerAll`: what it adds.
2. `deliver_overlapping_iff`: what is delivered of an answer that overlaps.
-/

namespace SpecTree

/-! ## Claims in a row -/

namespace Claims

variable {c c' : Claims} {node path : String} {paths : List String} {o : Overlap}

theorem claimant?_eq_none_iff : c.claimant? path = none ↔ path ∉ c.holders.names := by
  rw [Table.mem_names_iff, Option.not_isSome_iff_eq_none, claimant?]

theorem register_eq_error_iff :
    c.register path node = .error o ↔
      ∃ first, c.claimant? path = some first ∧ o = ⟨path, some first, some node⟩ := by
  unfold register
  cases c.claimant? path with
  | none => simp
  | some first => simp [eq_comm]

/-- A path can be claimed as long as nobody holds it. -/
theorem exists_register_iff : (∃ c', c.register path node = .ok c') ↔ c.claimant? path = none := by
  unfold register
  cases c.claimant? path <;> simp

theorem entries_register (h : c.register path node = .ok c') :
    c'.holders.entries = c.holders.entries ++ [(path, node)] := by
  have hfree := exists_register_iff.1 ⟨c', h⟩
  rw [register, hfree] at h
  obtain rfl := Except.ok.inj h
  exact putEntry_of_not_mem (claimant?_eq_none_iff.1 hfree)

/-- **Claims that are granted stand behind those there were**, in the order of the paths. -/
theorem entries_registerAll (h : c.registerAll node paths = (c', none)) :
    c'.holders.entries = c.holders.entries ++ paths.map fun path => (path, node) := by
  induction paths generalizing c with
  | nil =>
    cases h
    exact (List.append_nil _).symm
  | cons path paths ih =>
    rw [registerAll] at h
    cases hr : c.register path node with
    | error overlap =>
      rw [hr] at h
      cases h
    | ok mid =>
      rw [hr] at h
      rw [ih h, entries_register hr, List.append_assoc]
      rfl

/-- **Claiming stops at the first path that is taken**, and what was granted before it stays. -/
theorem registerAll_eq_some_iff :
    c.registerAll node paths = (c', some o) ↔
      ∃ front back, paths = front ++ o.path :: back ∧ c.registerAll node front = (c', none) ∧
        c'.register o.path node = .error o := by
  induction paths generalizing c with
  | nil => simp [registerAll]
  | cons path paths ih =>
    rw [registerAll]
    cases hr : c.register path node with
    | error overlap =>
      constructor
      · rintro ⟨⟩
        obtain ⟨first, -, rfl⟩ := register_eq_error_iff.1 hr
        exact ⟨[], paths, rfl, rfl, hr⟩
      · rintro ⟨front, back, hpaths, hfront, hend⟩
        cases front with
        | nil =>
          cases hfront
          obtain ⟨rfl, -⟩ := List.cons.inj hpaths
          rw [hr] at hend
          rw [Except.error.inj hend]
        | cons p front =>
          obtain ⟨rfl, -⟩ := List.cons.inj hpaths
          rw [registerAll, hr] at hfront
          cases hfront
    | ok mid =>
      dsimp only
      rw [ih]
      constructor
      · rintro ⟨front, back, rfl, hfront, hend⟩
        exact ⟨path :: front, back, rfl, by rw [registerAll, hr]; exact hfront, hend⟩
      · rintro ⟨front, back, hpaths, hfront, hend⟩
        cases front with
        | nil =>
          cases hfront
          obtain ⟨rfl, -⟩ := List.cons.inj hpaths
          rw [hr] at hend
          cases hend
        | cons p front =>
          obtain ⟨rfl, rfl⟩ := List.cons.inj hpaths
          rw [registerAll, hr] at hfront
          exact ⟨front, back, rfl, hfront, hend⟩

/-- What can be claimed after some claims were granted. -/
theorem exists_register_registerAll_iff (h : c.registerAll node paths = (c', none)) (other : String) :
    (∃ c'', c'.register path other = .ok c'') ↔ c.claimant? path = none ∧ path ∉ paths := by
  rw [exists_register_iff, claimant?_eq_none_iff, claimant?_eq_none_iff, Table.names, entries_registerAll h,
    List.map_append, List.map_map, List.mem_append, not_or]
  simp [Table.names, Function.comp_def]

end Claims

namespace Build

variable {b : Site} {s t : BuildState} {i : Nat} {leaf : Leaf} {o : Overlap}

/-! ## One answer -/

/-- **An answer that overlaps is not written**, not even in part. -/
theorem deliver_overlapping_iff {store store' : Store} {c c' : Claims} {node : String}
    {answer : Production} :
    deliver b store c node answer = (store', c', .overlapping o) ↔
      store' = store ∧
        c.registerAll node ((accept answer.files).1.map GeneratedFile.path) = (c', some o) := by
  unfold deliver
  generalize accept answer.files = accepted
  obtain ⟨files, refused⟩ := accepted
  dsimp only
  generalize c.registerAll node (files.map GeneratedFile.path) = claimed
  obtain ⟨granted, _ | overlap⟩ := claimed
  · dsimp only
    generalize writeFiles b.output { store, errors := refused } (files.map (b.finalFile node)) = written
    obtain ⟨p, _ | e⟩ := written
    · dsimp only
      generalize writeQuestions b.plan node answer p = asked
      obtain ⟨p, _ | e⟩ := asked <;> simp
    · simp
  · simp [eq_comm]

/-! ## One move -/

namespace BuildState

theorem getElem?_set (s : BuildState) (i j : Nat) (status : Status) :
    (s.set i status).batch[j]? =
      s.batch[j]?.map fun slot => if i = j then { slot with status } else slot := by
  rw [set, List.getElem?_modify]
  rfl

/-- Only the slot that is set can come to an overlap. -/
theorem settles_of_set {j : Nat} {status : Status}
    (hbefore : s.batch[i]? ≠ some ⟨leaf, .settled (.overlapping o)⟩) (hbatch : t.batch = s.batch)
    (hafter : (t.set j status).batch[i]? = some ⟨leaf, .settled (.overlapping o)⟩) :
    j = i ∧ status = .settled (.overlapping o) ∧ ∃ old, s.batch[i]? = some ⟨leaf, old⟩ := by
  rw [getElem?_set, hbatch, Option.map_eq_some_iff] at hafter
  obtain ⟨slot, hslot, hafter⟩ := hafter
  split at hafter
  · next hj =>
    cases hafter
    exact ⟨hj, rfl, slot.status, hslot⟩
  · exact absurd (hafter ▸ hslot) hbefore

/-- A batch that begins has no overlap, and neither has one that has ended. -/
theorem next_not_overlapping (s : BuildState) :
    s.next.batch[i]? ≠ some ⟨leaf, .settled (.overlapping o)⟩ := by
  unfold next
  dsimp only
  split
  · simp
  · split <;> simp

/-- Reading a leaf is no overlap, and leaves files and claims as they are. -/
theorem store_start (s : BuildState) (b : Site) (i : Nat) :
    (s.step b (.start i)).store = s.store ∧ (s.step b (.start i)).claims = s.claims := by
  simp only [step]
  split
  · unfold start
    split <;> exact ⟨rfl, rfl⟩
  · exact ⟨rfl, rfl⟩

/-- **A leaf comes to an overlap by the answer to its call**, of which nothing but claims is left. -/
theorem exists_answer_of_overlapping {m : Move}
    (hbefore : s.batch[i]? ≠ some ⟨leaf, .settled (.overlapping o)⟩)
    (hafter : (s.step b m).batch[i]? = some ⟨leaf, .settled (.overlapping o)⟩) :
    ∃ request answer, s.batch[i]? = some ⟨leaf, .inFlight request⟩ ∧ m = .finish i (.ok answer) ∧
      (s.step b m).store = s.store ∧
      s.claims.registerAll leaf.nodePath ((accept answer.files).1.map GeneratedFile.path) =
        ((s.step b m).claims, some o) := by
  cases m with
  | start j =>
    simp only [step] at hafter
    split at hafter
    · unfold start send at hafter
      split at hafter
      · obtain ⟨-, hstatus, -⟩ := settles_of_set hbefore rfl hafter
        cases hstatus
      · obtain ⟨-, hstatus, -⟩ := settles_of_set hbefore rfl hafter
        cases hstatus
      · obtain ⟨-, hstatus, -⟩ := settles_of_set hbefore rfl hafter
        cases hstatus
    · exact absurd hafter hbefore
  | finish j reply =>
    simp only [step] at hafter ⊢
    split at hafter
    · next other request hj =>
      cases reply with
      | error failure =>
        obtain ⟨-, hstatus, -⟩ := settles_of_set hbefore rfl hafter
        cases hstatus
      | ok answer =>
        unfold receive at hafter ⊢
        dsimp only at hafter ⊢
        generalize hd : deliver b s.store s.claims other.nodePath answer = delivered at hafter ⊢
        obtain ⟨store, claims, ending⟩ := delivered
        obtain ⟨rfl, hstatus, old, hold⟩ := settles_of_set hbefore rfl hafter
        rw [hj] at hold
        cases hold
        cases hstatus
        obtain ⟨hstore, hclaims⟩ := deliver_overlapping_iff.1 hd
        rw [hj]
        exact ⟨request, answer, rfl, rfl, hstore, hclaims⟩
    · exact absurd hafter hbefore
  | next =>
    simp only [step] at hafter
    split at hafter
    · exact absurd hafter s.next_not_overlapping
    · exact absurd hafter hbefore

end BuildState

/-- **What a leaf leaves that ends with an overlap.** No file is written. To the claims are added the leaf's
own on the paths before the first one that is taken, and all other paths that were free can still be
claimed. -/
theorem overlap_traces {m : Move}
    (hbefore : s.batch[i]? ≠ some ⟨leaf, .settled (.overlapping o)⟩)
    (hafter : (s.step b m).batch[i]? = some ⟨leaf, .settled (.overlapping o)⟩) :
    (∀ t : BuildState, (t.step b (.start i)).store = t.store ∧ (t.step b (.start i)).claims = t.claims) ∧
      (s.step b m).store = s.store ∧
      ∃ answer front back, m = .finish i (.ok answer) ∧
        (accept answer.files).1.map GeneratedFile.path = front ++ o.path :: back ∧
        front.Nodup ∧ (∀ path ∈ front, s.claims.claimant? path = none) ∧
        (s.step b m).claims.holders.entries =
          s.claims.holders.entries ++ front.map (fun path => (path, leaf.nodePath)) ∧
        (∃ first, (s.step b m).claims.claimant? o.path = some first ∧
          o = ⟨o.path, some first, some leaf.nodePath⟩) ∧
        ∀ path other, (∃ c, (s.step b m).claims.register path other = .ok c) ↔
          s.claims.claimant? path = none ∧ path ∉ front := by
  obtain ⟨-, answer, -, hm, hstore, hclaims⟩ := BuildState.exists_answer_of_overlapping hbefore hafter
  obtain ⟨front, back, hpaths, hfront, hend⟩ := Claims.registerAll_eq_some_iff.1 hclaims
  obtain ⟨hnodup, hfree⟩ := Claims.registerAll_eq_none hfront
  exact ⟨fun t => t.store_start b i, hstore, answer, front, back, hm, hpaths, hnodup,
    fun path hpath => (hfree path hpath).1, Claims.entries_registerAll hfront,
    Claims.register_eq_error_iff.1 hend, fun _ other => Claims.exists_register_registerAll_iff hfront other⟩

/-! ## A path that nobody writes -/

/-- Two leaves whose calls are in flight, where a third one has the path `p.txt`. -/
def contested : BuildState where
  store := .empty
  claims := ⟨Table.empty.put "p.txt" "a"⟩
  batch := [⟨⟨"b", "", ""⟩, .inFlight ⟨"b", "Draw a line.", {}⟩⟩,
    ⟨⟨"c", "", ""⟩, .inFlight ⟨"c", "Draw a box.", {}⟩⟩]
  later := []
  metrics := { run := "run", phase := "build" }

/-- One path that is free, and the one that is taken. -/
def contestedAnswer : Production := { files := [⟨"q.txt", "2"⟩, ⟨"p.txt", "3"⟩] }

theorem accept_contestedAnswer :
    (accept contestedAnswer.files).1.map GeneratedFile.path = ["q.txt", "p.txt"] := by decide +kernel

theorem registerAll_contested :
    ∃ c, contested.claims.registerAll "b" ["q.txt", "p.txt"] = (c, some ⟨"p.txt", some "a", some "b"⟩) ∧
      c.claimant? "q.txt" = some "b" := ⟨_, rfl, rfl⟩

theorem step_contested :
    (contested.step lonePolicy.site (.finish 0 (.ok contestedAnswer))).batch[0]? =
      some ⟨⟨"b", "", ""⟩, .settled (.overlapping ⟨"p.txt", some "a", some "b"⟩)⟩ ∧
    (contested.step lonePolicy.site (.finish 0 (.ok contestedAnswer))).claims.claimant? "q.txt" = some "b" := by
  obtain ⟨c, hc, hq⟩ := registerAll_contested
  have hd : deliver lonePolicy.site contested.store contested.claims "b" contestedAnswer =
      (contested.store, c, .overlapping ⟨"p.txt", some "a", some "b"⟩) :=
    deliver_overlapping_iff.2 ⟨rfl, by rw [accept_contestedAnswer, hc]⟩
  have hi : contested.batch[0]? = some ⟨⟨"b", "", ""⟩, .inFlight ⟨"b", "Draw a line.", {}⟩⟩ := rfl
  simp only [BuildState.step, hi, BuildState.receive, hd]
  exact ⟨rfl, hq⟩

theorem overlap_traces_contested :
    contested.batch[0]? ≠ some ⟨⟨"b", "", ""⟩, .settled (.overlapping ⟨"p.txt", some "a", some "b"⟩)⟩ ∧
      (contested.step lonePolicy.site (.finish 0 (.ok contestedAnswer))).batch[0]? =
        some ⟨⟨"b", "", ""⟩, .settled (.overlapping ⟨"p.txt", some "a", some "b"⟩)⟩ ∧
      (contested.step lonePolicy.site (.finish 0 (.ok contestedAnswer))).store = contested.store ∧
      (contested.step lonePolicy.site (.finish 0 (.ok contestedAnswer))).claims.holders.entries =
        [("p.txt", "a"), ("q.txt", "b")] ∧
      ∃ c, (contested.step lonePolicy.site (.finish 0 (.ok contestedAnswer))).claims.register "r.txt" "c" =
        .ok c := by
  have hbefore : contested.batch[0]? ≠
      some ⟨⟨"b", "", ""⟩, .settled (.overlapping ⟨"p.txt", some "a", some "b"⟩)⟩ := nofun
  obtain ⟨-, hstore, answer, front, back, hm, hpaths, -, -, hentries, -, hregister⟩ :=
    overlap_traces hbefore step_contested.1
  obtain rfl : contestedAnswer = answer := by simpa using hm
  have hfront : front = ["q.txt"] := by
    rw [accept_contestedAnswer] at hpaths
    match front, hpaths with
    | [_], hpaths => exact congrArg (fun x => [x]) (List.cons.inj hpaths).1.symm
    | _ :: _ :: _, hpaths => simp at hpaths
  rw [hfront] at hentries hregister
  exact ⟨hbefore, step_contested.1, hstore, hentries, (hregister "r.txt" "c").2 ⟨by decide, by decide⟩⟩

/-- The leaf that lost has written nothing, and still no other leaf gets the path that only it had. -/
theorem contested_stays_claimed :
    (contested.step lonePolicy.site (.finish 0 (.ok contestedAnswer))).batch[0]? =
        some ⟨⟨"b", "", ""⟩, .settled (.overlapping ⟨"p.txt", some "a", some "b"⟩)⟩ ∧
      contested.claims.claimant? "q.txt" = none ∧
      (contested.step lonePolicy.site (.finish 0 (.ok contestedAnswer))).claims ≠ contested.claims ∧
      ¬∃ c, (contested.step lonePolicy.site (.finish 0 (.ok contestedAnswer))).claims.register "q.txt" "c" =
        .ok c := by
  obtain ⟨hending, hheld⟩ := step_contested
  have hfree : contested.claims.claimant? "q.txt" = none := by decide
  refine ⟨hending, hfree, fun he => ?_, fun h => ?_⟩
  · rw [he, hfree] at hheld
    cases hheld
  · rw [Claims.exists_register_iff.1 h] at hheld
    cases hheld

end Build

end SpecTree
