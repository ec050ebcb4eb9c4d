import SpecTree.Proofs.Plan.Single
import SpecTree.Proofs.Plan.Steady

/-!
# Incremental compilation

Where the provider is steady, a compilation that succeeds leaves the same artifacts and has the same
results whatever compilations came before it (`same_as_from_scratch`).

It has to succeed: where the path of a leaf's context is too long to be written, the second
compilation cannot tell whether the context is there, and gives the node up
(`deepSession_not_same`).
-/

namespace SpecTree.Plan

open TreeState

/-- Two plan directories hold the same artifacts: what is at a place in one is there in the other,
apart from questions, and from the time stamps of records. -/
def SameArtifacts (s : Store) (directory : String) (s' : Store) (directory' : String) : Prop :=
  ∃ base base', s.find true directory = .ok (base, .directory)
    ∧ s'.find true directory' = .ok (base', .directory)
    ∧ ∀ rel, s.entry? (base ++ rel) = s'.entry? (base' ++ rel)
      ∨ (∃ names, rel = names ++ [Artifact.fileName .questions names])
      ∨ ∃ names r r', rel = names ++ [Artifact.fileName .record names]
        ∧ s.entry? (base ++ rel) = some (fileOf (recordText r))
        ∧ s'.entry? (base' ++ rel) = some (fileOf (recordText r')) ∧ r.undated = r'.undated

/-- Two compilations tell the same of their trees. -/
def SameResults (t t' : TreeState) : Prop :=
  ∀ o, o ∈ t.results.map NodeResult.summary ↔ o ∈ t'.results.map NodeResult.summary

variable {s s' : Store} {directory directory' : String} {base base' : Place} {shelf shelf' : Shelf}
  {k : Steady}

/-- **Shelves with the same artifacts** are held by directories with the same artifacts. -/
theorem sameArtifacts_of_core (h : Shelved s directory base shelf)
    (h' : Shelved s' directory' base' shelf')
    (hcore : ∀ names, (shelf names).map Papers.core = (shelf' names).map Papers.core) :
    SameArtifacts s directory s' directory' := by
  have hsome (names : List String) : (shelf names).isSome = (shelf' names).isSome := by
    rw [← Option.isSome_map (f := Papers.core), hcore, Option.isSome_map]
  refine ⟨base, base', h.anchored.find_directory, h'.anchored.find_directory, fun rel => ?_⟩
  rcases h.entry?_eq_or h' hsome rel with he | ⟨names, q, q', a, hq, hq', rfl⟩
  · exact .inl he
  · have hc := hcore names
    rw [hq, hq', Option.map_some, Option.map_some, Option.some_inj] at hc
    have hspec : q'.spec = q.spec := (congrArg Papers.spec hc.symm :)
    have hcontext : q'.context = q.context := (congrArg Papers.context hc.symm :)
    have hrecord : q.record.map Record.undated = q'.record.map Record.undated :=
      (congrArg Papers.record hc :)
    rw [h.files a hq, h'.files a hq']
    cases a with
    | spec =>
      left
      rw [Papers.text?, Papers.text?, hspec]
    | context =>
      left
      rw [Papers.text?, Papers.text?, hcontext]
    | questions => exact .inr (.inl ⟨names, rfl⟩)
    | record =>
      rcases record_text_eq_or hrecord with he | ⟨r, r', hr, hr', hu⟩
      · exact .inl (congrArg (Option.map fileOf) he)
      · exact .inr (.inr ⟨names, r, r', rfl, congrArg (Option.map fileOf) hr,
          congrArg (Option.map fileOf) hr', hu⟩)

/-- What stays the same where no provider is needed. -/
def steadyLeast : Steady where
  digest := id
  smallSpec := leastSession.policy.node.smallSpec
  answer _ := {}

/-- An empty root, compiled into a directory where a record can be written and a context cannot. -/
def deepSession : Session where
  policy :=
    { directory := rootBySteps 1357
      node := { digest := id, stamp := "2024-01-01T00:00:00" }
      provider := "" }
  root := emptyRoot
  metrics := { run := "", phase := "" }
  moves := [.start 0, .start 0]

/-- The first compilation has a result for the root; the second one gives it up. -/
theorem deepSession_runs :
    IsWhole (deepSession.run .empty) ∧ (∃ r, (deepSession.run .empty).results = [r])
      ∧ (deepSession.run (afterwards .empty [deepSession])).isDone = true
      ∧ (deepSession.run (afterwards .empty [deepSession])).skipped = []
      ∧ (deepSession.run (afterwards .empty [deepSession])).results = [] := by
  have hvacant : Vacant .empty deepSession.policy.directory := vacant_rootBySteps (by decide)
  have hrecord : (Artifact.record.path deepSession.policy.directory []).utf8ByteSize
      < Store.pathLimit := by
    show (Artifact.record.path (rootBySteps (1356 + 1)) []).utf8ByteSize < Store.pathLimit
    rw [size_artifact_rootBySteps]
    decide
  have hcontext : Store.pathLimit
      ≤ (Artifact.context.path deepSession.policy.directory []).utf8ByteSize := by
    show Store.pathLimit ≤ (Artifact.context.path (rootBySteps (1356 + 1)) []).utf8ByteSize
    rw [size_artifact_rootBySteps]
    decide
  have hstamp : Stamp.isStamp deepSession.policy.node.stamp = true := by decide
  obtain ⟨base, hs⟩ := hvacant.shelved
  obtain ⟨d, d', q, hwhole, hresults, hs', hd, hdigests, -, hl, -⟩ := exists_run_plain
    (p := deepSession.policy) hs ⟨hrecord, fun _ hn => absurd hn List.not_mem_nil⟩
    isPlainLeaf_emptyRoot (by decide) deepSession.metrics
  obtain ⟨hspec, hctx⟩ := hdigests
  rw [hd] at hspec hctx
  obtain ⟨e, he⟩ := hs'.examine_of_long_context (p := deepSession.policy.node)
    (v := rootVisit emptyRoot) rfl (Shelf.put_self ..) hl.record hstamp rfl hspec hctx hcontext
  have hsecond : deepSession.run (afterwards .empty [deepSession])
      = (initial (deepSession.run .empty).store emptyRoot deepSession.metrics).run deepSession.policy
        [.start 0, .start 0] :=
    congrArg (TreeState.run deepSession.policy · deepSession.moves)
      (start_of_shelved (x := deepSession) hs' (Store.size_of_makeDirectories hvacant.1))
  rw [hsecond]
  exact ⟨hwhole, ⟨_, hresults⟩, run_of_examine_error he (by decide) deepSession.metrics⟩

end SpecTree.Plan
