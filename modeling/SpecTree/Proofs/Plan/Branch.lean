import SpecTree.Proofs.Plan.Clearance
import SpecTree.Proofs.Plan.Pair
import SpecTree.Proofs.Plan.Unchanged

/-!
# A failure stays in its branch

Two compilations that use no record again, and whose replies agree outside a branch of the tree, have the
same results there and leave the same artifacts, but for time stamps (`failure_stays_in_branch`). In the
branch anything may be answered, and anything may fail.

1. A branch holds all that lies below its nodes (`InBranch.child`), so on the way to a node outside no node
   is in the branch.
2. Visits outside the branch are due alike and come to the same (`Terms.AgreeOutside.agreeAbout`).
3. Outside the branch, the shelves that the compilations leave hold the same (`Fated.sameOutside`).

The directory has to be one that can be cleared, as it can be after any compilations
(`Vacant.clearable_afterwards`). Where a link stays in it, what is written about one node may be found as what is
written about another (`failure_leaves_branch_by_links`).
-/

namespace SpecTree.Plan

open TreeState

variable {p : TreePolicy} {s : Store} {t t' : TreeState} {k k' : Terms} {old : Shelf} {u v w : Visit}
  {found : Option Papers} {r : NodeResult} {branch directory : String} {names : List String}

/-! ## Branches -/

/-- A node is the one with the path `branch`, or lies below it. -/
def InBranch (branch path : String) : Prop :=
  branch = rootName ∨ path = branch ∨ (branch ++ "/").toList <+: path.toList

instance (branch path : String) : Decidable (InBranch branch path) := inferInstanceAs (Decidable (_ ∨ _ ∨ _))

/-- The path of a child goes on from its parent's, unless this is the root. -/
theorem nodePath_prefix_child {n : String} (h0 : names ≠ []) (hn : ∀ m ∈ names ++ [n], IsNodeName m) :
    (nodePath (rootName :: names) ++ "/").toList <+: (nodePath (rootName :: (names ++ [n]))).toList := by
  rw [nodePath_of_ne_nil h0 fun m hm => hn m (List.mem_append_left _ hm), nodePath_of_ne_nil (by simp) hn,
    String.toList_append, String.toList_intercalate, String.toList_intercalate,
    show "/".toList = ['/'] from rfl, ← Path.joinPieces_eq_intercalate, ← Path.joinPieces_eq_intercalate,
    List.map_append, Text.joinPieces_append (by simpa using h0) (by simp)]
  exact ⟨n.toList, by simp [Text.joinPieces]⟩

/-- **All below a node of a branch is in the branch.** -/
theorem InBranch.child {n : String} (hn : ∀ m ∈ names ++ [n], IsNodeName m)
    (h : InBranch branch (nodePath (rootName :: names))) :
    InBranch branch (nodePath (rootName :: (names ++ [n]))) := by
  by_cases h0 : names = []
  · subst h0
    rcases h with h | h | h
    · exact .inl h
    · exact .inl h.symm
    · -- The root's path has no slash.
      have hs : '/' ∈ rootName.toList := h.subset (by simp)
      exact absurd hs (by decide)
  · have hp := nodePath_prefix_child h0 hn
    rcases h with h | h | h
    · exact .inl h
    · exact .inr (.inr (h ▸ hp))
    · refine .inr (.inr (h.trans (List.IsPrefix.trans ?_ hp)))
      rw [String.toList_append]
      exact List.prefix_append _ _

/-- On the way to a node outside a branch no node is in the branch. -/
theorem not_inBranch_of_prefix {pre : List String} (hn : ∀ n ∈ names, IsNodeName n)
    (h : ¬ InBranch branch (nodePath (rootName :: names))) (hp : pre <+: names) :
    ¬ InBranch branch (nodePath (rootName :: pre)) := by
  induction names using List.reverseRecOn with
  | nil => rwa [List.prefix_nil.1 hp]
  | append_singleton names n ih =>
    rcases List.prefix_concat_iff.1 hp with rfl | hp
    · exact h
    · exact ih (fun m hm => hn m (List.mem_append_left _ hm)) (fun hb => h (hb.child hn)) hp

/-! ## Terms that agree outside a branch -/

namespace Terms

/-- Two terms differ in the answers about one branch only. -/
structure AgreeOutside (branch : String) (k k' : Terms) : Prop where
  directory : k'.directory = k.directory
  node : k'.node = k.node
  answer : ∀ q : Request, ¬ InBranch branch q.nodePath → k'.answer q = k.answer q

namespace AgreeOutside

theorem symm (h : AgreeOutside branch k k') : AgreeOutside branch k' k :=
  ⟨h.directory.symm, h.node.symm, fun q hq => (h.answer q hq).symm⟩

variable (h : AgreeOutside branch k k') (hv : ¬ InBranch branch v.path)

include h hv

/-- A visit outside the branch comes to the same. -/
theorem fate (found : Option Papers) : k'.fate v found = k.fate v found := by
  have ha : k'.answer v.request = k.answer v.request := h.answer v.request hv
  unfold Terms.fate
  rw [h.directory, h.node, ha]

theorem result? (found : Option Papers) : k'.result? v found = k.result? v found := by
  unfold Terms.result?
  rw [h.fate hv, h.directory]

theorem papers? (stamp : String) (found : Option Papers) : k'.papers? stamp v found = k.papers? stamp v found := by
  unfold Terms.papers?
  rw [h.fate hv, h.directory]

omit hv in
/-- **A visit outside the branch is due alike.** What calls for it is outside too. -/
theorem due (hu : u.ancestry = [rootName]) (hdue : k.Due old u v found) (hv : ¬ InBranch branch v.path) :
    k'.Due old u v found := by
  have hroot : IsAncestry u.ancestry := hu ▸ isAncestry_root
  induction hdue with
  | root => exact .root
  | @child v w found r hdue hr hw ih =>
    obtain ⟨n, hw'⟩ := exists_name_of_child (hdue.isAncestry hroot) hr hw
    have hparent : ¬ InBranch branch v.path := by
      intro hb
      refine hv ?_
      obtain ⟨hwa, hwn⟩ := ancestry_eq_names ((Due.child hdue hr hw).isAncestry hroot)
      obtain ⟨hva, -⟩ := ancestry_eq_names (hdue.isAncestry hroot)
      have hnames : w.names = v.names ++ [n] := names_eq (by rw [hw', hva]; rfl)
      rw [Visit.path, hva] at hb
      rw [Visit.path, hwa, hnames]
      exact hb.child (hnames ▸ hwn)
    exact .child (ih hparent) ((h.result? hparent found).trans hr) hw

/-- **Terms agree about every visit outside the branch.** -/
theorem agreeAbout (hu : u.ancestry = [rootName]) : k.AgreeAbout k' old u v := fun found =>
  ⟨⟨fun hdue => h.due hu hdue hv, fun hdue => h.symm.due hu hdue hv⟩, (h.result? hv found).symm,
    fun stamp => (h.papers? hv stamp found).symm⟩

end AgreeOutside

end Terms

/-! ## Compilations that agree outside a branch -/

section

variable {shelf shelf' : Shelf} {base : Place} {p' : TreePolicy} (h : Fated k old base u p t.census shelf)
  (hs : t.census.Sound p) (hu : u.ancestry = [rootName]) (ht : IsFree t)
  (h' : Fated k' old base u p' t'.census shelf') (hs' : t'.census.Sound p') (ht' : IsFree t')
  (hagree : Terms.AgreeOutside branch k k')

include h hs hu ht h' hs' ht' hagree

omit ht in
theorem Fated.mem_results_of_agree (hr : r ∈ t.results) (hb : ¬ InBranch branch r.nodePath) : r ∈ t'.results := by
  obtain ⟨v, found, hv, hvr, -⟩ := h.results r hr
  have hpath : r.nodePath = v.path := by
    rw [(hs.named.results r hr).path, Visit.path, Terms.ancestry_of_result? hvr]
  rw [hpath] at hb
  exact (h'.mem_results_iff hs' hu ht').2 ⟨v, found, hagree.due hu hv hb, (hagree.result? hb found).trans hvr⟩

omit hs ht in
theorem Fated.mem_failures_of_agree {x : Visit × FileError} (hx : x ∈ t.failures) (hb : ¬ InBranch branch x.1.path) :
    x ∈ t'.failures := by
  obtain ⟨found, hv, hlost⟩ := h.failures x hx
  exact (h'.mem_failures_iff hs' hu ht').2 ⟨found, hagree.due hu hv hb, (hagree.fate hb found).trans hlost⟩

/-- The shelves hold the same of a node outside the branch, but for time stamps. -/
theorem Fated.undated_eq_outside (hn : ∀ n ∈ names, IsNodeName n)
    (hb : ¬ InBranch branch (nodePath (rootName :: names))) :
    (shelf names).map Papers.undated = (shelf' names).map Papers.undated := by
  refine h.undated_eq_of_agree hs hu ht h' hs' ht' fun pre hp v hv => hagree.agreeAbout ?_ hu
  rw [Visit.path, hv]
  exact not_inBranch_of_prefix hn hb hp

end

/-! ## Sessions -/

/-- A request about a node outside the branch is answered as `answer` says. -/
def AnswersOutside (branch : String) (answer : Request → Except Failure Expansion) (q : Request)
    (reply : Except Failure Expansion) : Prop :=
  ¬ InBranch branch q.nodePath → reply = answer q

theorem TreeState.follows_of_both {mayReply mayReply' mayReply'' : Request → Except Failure Expansion → Prop}
    (himp : ∀ q reply, mayReply q reply → mayReply' q reply → mayReply'' q reply) {moves : List Move}
    (hf : Follows p mayReply t moves) (hf' : Follows p mayReply' t moves) : Follows p mayReply'' t moves := by
  induction moves generalizing t with
  | nil => trivial
  | cons m moves ih =>
    refine ⟨?_, ih hf.2 hf'.2⟩
    cases m with
    | start i => trivial
    | grant i => trivial
    | finish i reply => exact fun d hd => himp _ _ (hf.1 d hd) (hf'.1 d hd)

/-- Some function gives all replies of a session, and outside the branch those that are known. -/
theorem Session.exists_answer {x : Session} {answer : Request → Except Failure Expansion}
    (h0 : x.policy.directory.contains '\x00' = false) (hf : x.Follows (AnswersOutside branch answer) s) :
    ∃ answer' : Request → Except Failure Expansion, (∀ q, ¬ InBranch branch q.nodePath → answer' q = answer q)
      ∧ x.Follows (fun q reply => reply = answer' q) s := by
  obtain ⟨own, hown⟩ := TreeState.exists_answer (p := x.policy) (t := x.start s) h0 (sound_initial _ _ _ _) x.moves
  refine ⟨fun q => if InBranch branch q.nodePath then own q else answer q, fun q hq => if_neg hq,
    follows_of_both (fun q reply h h' => ?_) hf hown⟩
  by_cases hq : InBranch branch q.nodePath
  · exact h'.trans (if_pos hq).symm
  · exact (h hq).trans (if_neg hq).symm

/-- Two stores hold the same artifacts of the nodes outside a branch, apart from the time stamps of records. -/
def SameOutside (branch : String) (s s' : Store) (directory : String) : Prop :=
  s.find true directory = s'.find true directory ∧
    ∀ base, s.find true directory = .ok (base, .directory) →
    ∀ names, (∀ n ∈ names, IsNodeName n) → ¬ InBranch branch (nodePath (rootName :: names)) → ∀ a : Artifact,
      s.entry? (base ++ (names ++ [a.fileName names])) = s'.entry? (base ++ (names ++ [a.fileName names])) ∨
        a = .record ∧ ∃ r r', s.entry? (base ++ (names ++ [a.fileName names])) = some (fileOf (recordText r))
          ∧ s'.entry? (base ++ (names ++ [a.fileName names])) = some (fileOf (recordText r'))
          ∧ r.undated = r'.undated

theorem SameOutside.refl (branch : String) (s : Store) (directory : String) : SameOutside branch s s directory :=
  ⟨rfl, fun _ _ _ _ _ _ => .inl rfl⟩

/-- Two compilations come to the same outside a branch: results, nodes that are given up, and artifacts. -/
structure AlikeOutside (branch directory : String) (c c' : Census) : Prop where
  results : (c.results.filter fun r => ¬ InBranch branch r.nodePath).Perm
    (c'.results.filter fun r => ¬ InBranch branch r.nodePath)
  failures : (c.failures.filter fun z => ¬ InBranch branch z.1.path).Perm
    (c'.failures.filter fun z => ¬ InBranch branch z.1.path)
  store : SameOutside branch c.store c'.store directory

theorem AlikeOutside.of_eq {c c' : Census} (hr : c.results = c'.results) (hf : c.failures = c'.failures)
    (hs : c.store = c'.store) : AlikeOutside branch directory c c' :=
  ⟨by rw [hr], by rw [hf], hs ▸ .refl ..⟩

/-- The reason to compile the root leaves its place in the tree as it is. -/
theorem filter_recast (dif : Difference) (results : List NodeResult) :
    (results.map (NodeResult.recast dif)).filter (fun r => ¬ InBranch branch r.nodePath)
      = (results.filter fun r => ¬ InBranch branch r.nodePath).map (NodeResult.recast dif) := by
  rw [List.filter_map]
  congr 1
  exact List.filter_congr fun r _ => by simp

theorem AlikeOutside.recast {c c' : Census} (h : AlikeOutside branch directory c c') (dif : Difference) :
    AlikeOutside branch directory (c.recast dif) (c'.recast dif) where
  results := by
    show ((c.results.map _).filter _).Perm ((c'.results.map _).filter _)
    rw [filter_recast, filter_recast]
    exact h.results.map _
  failures := h.failures
  store := h.store

/-! ## A root with one child -/

def oneChild : Expansion := { children := [{ name := "a" }] }

/-- No record is used again, and no node is small enough to be a leaf unasked. -/
def freshPolicy : TreePolicy := { pairPolicy with node := { pairPolicy.node with useCache := false } }

/-- A root without text, about which the provider answers with one child. About the child it replies as `reply`
says. -/
def branchSession (reply : Except Failure Expansion) : Session where
  policy := freshPolicy
  root := emptyRoot
  metrics := { run := "", phase := "" }
  moves := [.start 0, .grant 0, .finish 0 (.ok oneChild)] ++ [.start 0, .grant 0, .finish 0 reply]
    ++ [.start 0, .start 0, .start 0]

/-- The visit of the child. -/
def branchVisit : Visit where
  node := .statement (childNode { name := "a" } "a" "a")
  ancestry := [rootName, "a"]

theorem branchVisit_asked : branchVisit.isPlainLeaf freshPolicy.node.smallSpec = false := by
  cbv

/-- All that is said outside the branch of the child is said about the root. -/
def rootAnswer (_ : Request) : Except Failure Expansion := .ok oneChild

/-- **The root is asked about, and then its child.** Any reply that makes the child a leaf ends the compilation. -/
theorem run_branchSession {reply : Except Failure Expansion} {r' : NodeResult} {store store' : Store}
    (hroot : Replied freshPolicy.node "plan" (s.makeDirectories "plan").1 (rootVisit emptyRoot) (.ok oneChild) store r)
    (hchild : Replied freshPolicy.node "plan" store branchVisit reply store' r')
    (hleaf : (Outcome.ofReply reply).isLeaf = true) :
    ((branchSession reply).run s).store = store' ∧ IsFree ((branchSession reply).run s)
      ∧ (branchSession reply).Follows (AnswersOutside "a" rootAnswer) s := by
  have h0 : "plan".contains '\x00' = false := Store.noZero_iff.2 (by decide)
  have hancestry : IsAncestry branchVisit.ancestry := isAncestry_child isAncestry_root isNodeName_a
  obtain ⟨d, rfl, hd⟩ := hroot.exists_draft
  obtain ⟨d', rfl, hd'⟩ := hchild.exists_draft
  let x := branchSession reply
  obtain ⟨⟨_, _, _, _, hfirst⟩, hfollows⟩ := run_replied (t := x.start s) (p := x.policy) rfl rfl rfl rfl
    (show (0 : Int) < 100 by decide) (show (0 : Int) < 100 by decide) hroot
  -- The root's result calls for the child, which is the only task then.
  have hbelow : visitsBelow (Draft.result d (.ofReply (.ok oneChild))) = [branchVisit] := by
    rw [visitsBelow_result, hd]
    exact below_emptyRoot rfl
  have hparent : (Draft.result d (.ofReply (.ok oneChild))).ancestry = [rootName] := congrArg Visit.ancestry hd
  rw [record_of_visitsBelow hbelow, hparent] at hfirst
  obtain ⟨⟨_, _, _, _, hsecond⟩, hfollows'⟩ := run_replied (t := (x.start s).run x.policy _) (p := x.policy)
    (congrArg ready hfirst) (congrArg waiting hfirst) (congrArg inFlight hfirst) (congrArg exceeded hfirst)
    (by rw [hfirst]; exact (show (1 : Int) < 100 by decide)) (by rw [hfirst]; exact (show (1 : Int) < 100 by decide))
    (by rw [hfirst]; exact hchild)
  -- The child is a leaf: its end is the end of the root too.
  have hself : (Draft.result d' (.ofReply reply)).ancestry = [rootName, "a"] := congrArg Visit.ancestry hd'
  rw [record, visitsBelow_of_isLeaf hleaf, hself, hfirst] at hsecond
  have hrun : x.run s = ((((x.start s).run x.policy [.start 0, .grant 0, .finish 0 (.ok oneChild)]).run x.policy
      [.start 0, .grant 0, .finish 0 reply]).run x.policy [.start 0, .start 0, .start 0]) := by
    rw [← run_append, ← run_append]
    rfl
  rw [hfirst, hsecond, run_notice_child rfl rfl rfl] at hrun
  refine ⟨congrArg TreeState.store hrun, ⟨by rw [hrun]; rfl, congrArg TreeState.exceeded hrun⟩, ?_⟩
  exact follows_append.2 ⟨follows_append.2 ⟨hfollows _ fun _ => rfl,
    hfollows' _ fun hout => absurd (by decide) hout⟩, trivial, trivial, trivial, trivial⟩

theorem run_branchSession_empty (reply : Except Failure Expansion) (hleaf : (Outcome.ofReply reply).isLeaf = true) :
    IsFree ((branchSession reply).run .empty)
      ∧ (branchSession reply).Follows (AnswersOutside "a" rootAnswer) .empty := by
  obtain ⟨base, hs⟩ := vacant_plan.shelved
  obtain ⟨t, d, q, hroot, -, ht, -⟩ := exists_replied hs (v := rootVisit emptyRoot) (k := freshPolicy.node) rfl nofun
    (hasParents_nil _) rfl ⟨by decide, List.forall_mem_nil _⟩ (isPlainLeaf_zero _)
    (.ok oneChild)
  rw [Shelf.replace, Shelf.wipe_nil] at ht
  obtain ⟨t', d', q', hchild, -⟩ := exists_replied ht (v := branchVisit) (k := freshPolicy.node) rfl
    (List.forall_mem_singleton.2 isNodeName_a) (hasParents_singleton (Shelf.put_self ..))
    (Shelf.put_of_ne _ (List.cons_ne_nil _ _) q) ⟨by decide, by decide⟩ branchVisit_asked reply
  exact (run_branchSession hroot hchild hleaf).2

/-- The provider asks back about the child. -/
def childAsks : Except Failure Expansion := .ok { considerations := [{ note := "why" }] }

/-- The call about the child fails. -/
def childFails : Except Failure Expansion := .error ⟨.timeout, "late"⟩

/-! ## Links between nodes -/

/-- The child's directory is a link to another one, where a link in the place of its questions leads back to those
of the root. Besides these there are `files`, and nothing more. -/
def linkedWith (files : List (Place × String)) : Store :=
  ⟨[(["shared"], .directory),
    (["shared", "node.plan.aid.questions.json"], .link ["plan", "root.plan.aid.questions.json"]),
    (["plan"], .directory), (["plan", "a"], .link ["shared"])] ++ files.map fun f => (f.1, fileOf f.2)⟩

def rootFiles (spec rec : String) : List (Place × String) :=
  [(["plan", "root.plan.aid"], spec), (["plan", "root.plan.aid.meta.json"], rec)]

def childFiles (spec rec text : String) : List (Place × String) :=
  rootFiles spec rec ++ [(["shared", "node.plan.aid"], text)]

theorem writeDeep_linkedWith {files files' : List (Place × String)} {path text : String} (dir : String) (p : Place)
    (hd : Path.directory path = dir) (hm : (linkedWith files).makeDirectories dir = (linkedWith files, none))
    (hl : (linkedWith files).locate true path = .ok p) (he : Store.entry? (linkedWith files) p = none)
    (hs : (linkedWith files).set p (fileOf text) = linkedWith files') :
    (linkedWith files).writeDeep path (.text text) = (linkedWith files', none) :=
  (Store.writeDeep_of_locate hd hm hl he _).trans (congrArg (·, none) hs)

theorem makeDirectories_linked : (linkedWith []).makeDirectories "plan" = (linkedWith [], none) := by
  cbv

/-- The root is asked about, though the link in its directory is not removed. -/
theorem replied_linked_root : ∃ spec rec r, Replied freshPolicy.node "plan"
    ((linkedWith []).makeDirectories "plan").1 (rootVisit emptyRoot) (.ok oneChild)
    (linkedWith (rootFiles spec rec)) r := by
  rw [makeDirectories_linked]
  have hspec (spec : String) : (linkedWith []).writeDeep (planPath "plan" rootName) (.text spec)
      = (linkedWith [(["plan", "root.plan.aid"], spec)], none) :=
    writeDeep_linkedWith "plan" ["plan", "root.plan.aid"] (by decide +kernel) (by cbv) (by cbv) rfl rfl
  have hrecord (spec rec : String) : (linkedWith [(["plan", "root.plan.aid"], spec)]).writeDeep
      (metaPath "plan" rootName) (.text rec) = (linkedWith (rootFiles spec rec), none) :=
    writeDeep_linkedWith "plan" ["plan", "root.plan.aid.meta.json"] (by decide +kernel) (by cbv) (by cbv) rfl rfl
  exact ⟨_, _, exists_replied_of_writes (v := rootVisit emptyRoot) (k := freshPolicy.node) (.ok oneChild) rootName rfl
    (isPlainLeaf_zero _) (by cbv) (by cbv) (hspec _) rfl rfl (hrecord _ _)⟩

section

variable (spec rec text context questions : String)

theorem writeSpec_linked_child : (linkedWith (rootFiles spec rec)).writeDeep (planPath "plan" "a") (.text text)
    = (linkedWith (childFiles spec rec text), none) :=
  writeDeep_linkedWith "plan/a" ["shared", "node.plan.aid"] (by decide +kernel) (by cbv) (by cbv) rfl rfl

theorem writeContext_linked_child :
    (linkedWith (childFiles spec rec text)).writeDeep (contextPath "plan" "a") (.text context)
      = (linkedWith (childFiles spec rec text ++ [(["shared", "node.plan.aid.context.json"], context)]), none) :=
  writeDeep_linkedWith "plan/a" ["shared", "node.plan.aid.context.json"] (by decide +kernel) (by cbv) (by cbv) rfl rfl

/-- The child's questions take the place of the root's. -/
theorem writeQuestions_linked_child :
    let files := childFiles spec rec text ++ [(["shared", "node.plan.aid.context.json"], context)]
    (linkedWith files).writeDeep (questionsPath "plan" "a") (.text questions)
        = (linkedWith (files ++ [(["plan", "root.plan.aid.questions.json"], questions)]), none)
      ∧ ∀ rec' : String, (linkedWith (files ++ [(["plan", "root.plan.aid.questions.json"], questions)])).writeDeep
        (metaPath "plan" "a") (.text rec')
          = (linkedWith (files ++ [(["plan", "root.plan.aid.questions.json"], questions),
            (["shared", "node.plan.aid.meta.json"], rec')]), none) := by
  refine ⟨?_, fun rec' => ?_⟩
  · exact writeDeep_linkedWith "plan/a" ["plan", "root.plan.aid.questions.json"] (by decide +kernel) (by cbv) (by cbv)
      rfl rfl
  · exact writeDeep_linkedWith "plan/a" ["shared", "node.plan.aid.meta.json"] (by decide +kernel) (by cbv) (by cbv)
      rfl rfl

/-- The questions about the child are found as those of the root. -/
theorem replied_linked_childAsks : ∃ files r, Replied freshPolicy.node "plan" (linkedWith (rootFiles spec rec))
    branchVisit childAsks (linkedWith files) r
      ∧ Store.entry? (linkedWith files) ["plan", "root.plan.aid.questions.json"] ≠ none := by
  obtain ⟨r, hr⟩ := exists_replied_of_writes (s := linkedWith (rootFiles spec rec)) (v := branchVisit)
    (k := freshPolicy.node) childAsks "a" (by decide) branchVisit_asked (by cbv) (by cbv)
    (writeSpec_linked_child spec rec _) (writeContext_linked_child spec rec _ _)
    (writeQuestions_linked_child spec rec _ _ _).1 ((writeQuestions_linked_child spec rec _ _ _).2 _)
  exact ⟨_, r, hr, Option.some_ne_none _⟩

/-- If the call about the child fails, the root has no questions. -/
theorem replied_linked_childFails : ∃ files r, Replied freshPolicy.node "plan" (linkedWith (rootFiles spec rec))
    branchVisit childFails (linkedWith files) r
      ∧ Store.entry? (linkedWith files) ["plan", "root.plan.aid.questions.json"] = none := by
  obtain ⟨r, hr⟩ := exists_replied_of_writes (s := linkedWith (rootFiles spec rec)) (v := branchVisit)
    (k := freshPolicy.node) childFails "a" (by decide) branchVisit_asked (by cbv) (by cbv)
    (writeSpec_linked_child spec rec _) (writeContext_linked_child spec rec _ _) rfl rfl
  exact ⟨_, r, hr, rfl⟩

end

/-! ## Outside the branch -/

section

variable {shelf shelf' : Shelf} {base : Place} {p' : TreePolicy} (h : Fated k old base u p t.census shelf)
  (hs : t.census.Sound p) (hu : u.ancestry = [rootName]) (ht : IsFree t)
  (h' : Fated k' old base u p' t'.census shelf') (hs' : t'.census.Sound p') (ht' : IsFree t')
  (hagree : Terms.AgreeOutside branch k k')

include h hs hu ht h' hs' ht' hagree

theorem Fated.perm_results_outside : (t.results.filter fun r => ¬ InBranch branch r.nodePath).Perm
    (t'.results.filter fun r => ¬ InBranch branch r.nodePath) := by
  refine (List.perm_ext_iff_of_nodup ((Fated.nodup_results hs ht).filter _)
    ((Fated.nodup_results hs' ht').filter _)).2 fun r => ?_
  simp only [List.mem_filter, decide_eq_true_eq]
  exact ⟨fun ⟨hr, hb⟩ => ⟨h.mem_results_of_agree hs hu h' hs' ht' hagree hr hb, hb⟩,
    fun ⟨hr, hb⟩ => ⟨h'.mem_results_of_agree hs' hu h hs ht hagree.symm hr hb, hb⟩⟩

theorem Fated.perm_failures_outside : (t.failures.filter fun z => ¬ InBranch branch z.1.path).Perm
    (t'.failures.filter fun z => ¬ InBranch branch z.1.path) := by
  refine (List.perm_ext_iff_of_nodup ((Fated.nodup_failures hs ht).filter _)
    ((Fated.nodup_failures hs' ht').filter _)).2 fun z => ?_
  simp only [List.mem_filter, decide_eq_true_eq]
  exact ⟨fun ⟨hz, hb⟩ => ⟨h.mem_failures_of_agree hu h' hs' ht' hagree hz hb, hb⟩,
    fun ⟨hz, hb⟩ => ⟨h'.mem_failures_of_agree hu h hs ht hagree.symm hz hb, hb⟩⟩

theorem Fated.sameOutside (hp : p'.directory = p.directory) :
    SameOutside branch t.store t'.store p.directory := by
  have hh : Shelved t.store p.directory base shelf := h.shelved
  have hh' : Shelved t'.store p.directory base shelf' := hp ▸ h'.shelved
  refine ⟨hh.anchored.find_directory.trans hh'.anchored.find_directory.symm, fun b hb names hn hout a => ?_⟩
  obtain ⟨rfl, -⟩ := Prod.mk.inj (Except.ok.inj (hh.anchored.find_directory.symm.trans hb))
  have hsame := h.undated_eq_outside hs hu ht h' hs' ht' hagree hn hout
  cases hq : shelf names with
  | none =>
    have hq' : shelf' names = none := by simpa [hq] using hsame.symm
    exact .inl ((hh.free_file hq a).trans (hh'.free_file hq' a).symm)
  | some q =>
    rw [hq, Option.map_some, eq_comm] at hsame
    obtain ⟨q', hq', hu'⟩ := Option.map_eq_some_iff.1 hsame
    exact hh.artifact_eq_or hh' hq hq' hu'.symm a

end

/-- **In a directory with nothing in it,** compilations whose replies agree outside a branch come to the same
there. -/
theorem alikeOutside_of_reaches {p' : TreePolicy} {base : Place} {root : Spec.Document} {metrics metrics' : Metrics}
    (hs : Shelved s p.directory base Shelf.empty) (hp : p'.directory = p.directory) (hk : k.Governs p)
    (hk' : k'.Governs p') (hagree : Terms.AgreeOutside branch k k')
    (hrun : Relation.ReflTransGen (Census.Step p k.Replies) (initial s root metrics).census t.census)
    (hrun' : Relation.ReflTransGen (Census.Step p' k'.Replies) (initial s root metrics').census t'.census)
    (ht : IsFree t) (ht' : IsFree t') : AlikeOutside branch p.directory t.census t'.census := by
  have h0 := hs.anchored.noZero
  have hu : (rootVisit root).ancestry = [rootName] := rfl
  obtain ⟨shelf, h⟩ := (fated_initial hs root metrics).run hk (sound_initial _ _ _ _) hrun
  obtain ⟨shelf', h'⟩ := (fated_initial (hp ▸ hs) root metrics').run hk' (sound_initial _ _ _ _) hrun'
  have hsound : t.census.Sound p := (sound_initial _ _ _ _).run hrun
  have hsound' : t'.census.Sound p' := (sound_initial _ _ _ _).run hrun'
  exact ⟨h.perm_results_outside hsound hu ht h' hsound' ht' hagree,
    h.perm_failures_outside hsound hu ht h' hsound' ht' hagree,
    h.sameOutside hsound hu ht h' hsound' ht' hagree hp⟩

/-- **A failure stays in its branch.** Let a plan directory be one that can be cleared. Two compilations of a root
that start from it with the same policy for nodes, that do not use records again, that pass no ceiling, and whose
replies agree about the nodes outside a branch have the same results outside, give up the same nodes there, and
leave the same artifacts of the nodes there but for time stamps. About the nodes of the branch anything may be
answered, and any call may fail; calls may be in flight at once in any number, and end in any order. -/
theorem failure_stays_in_branch (h : Clearable s directory) {x y : Session} (hroot : y.root = x.root)
    (hx : x.policy.directory = directory) (hy : y.policy.directory = directory)
    (hnode : y.policy.node = { x.policy.node with stamp := y.policy.node.stamp })
    (hcache : x.policy.node.useCache = false) (branch : String) (answer : Request → Except Failure Expansion)
    (hxf : x.Follows (AnswersOutside branch answer) s) (hyf : y.Follows (AnswersOutside branch answer) s)
    (hxt : IsFree (x.run s)) (hyt : IsFree (y.run s)) :
    AlikeOutside branch directory (x.run s).census (y.run s).census := by
  subst hx
  obtain ⟨hmade, cleared, base, hclear, ht⟩ := h
  have ht : Shelved cleared x.policy.directory base Shelf.empty := .empty ⟨_, ht.1, ht.2, .refl _⟩ ht.2
  have h0 := Store.noZero_of_makeDirectories hmade
  obtain ⟨ax, hax, hxf⟩ := Session.exists_answer h0 hxf
  obtain ⟨ay, hay, hyf⟩ := Session.exists_answer (hy ▸ h0) hyf
  let k : Terms := ⟨x.policy.directory, x.policy.node, ax⟩
  let k' : Terms := ⟨x.policy.directory, x.policy.node, ay⟩
  have hagree : Terms.AgreeOutside branch k k' := ⟨rfl, rfl, fun q hq => (hay q hq).trans (hax q hq).symm⟩
  -- Both examine the same root, in the same store.
  have hexamine (s : Store) : examine y.policy.node s y.policy.directory (rootVisit y.root)
      = examine x.policy.node s x.policy.directory (rootVisit x.root) := by
    rw [hy, hnode, hroot]
    rfl
  have hyclear := Session.exists_cleared (x := y) (by rwa [hy]) (by rwa [hnode]) (by rwa [hy]) (by rwa [hy]) hyf hyt
  rw [hexamine, hy, hroot] at hyclear
  rcases Session.exists_cleared hmade hcache hclear ht hxf hxt with
    ⟨e, he, hres, hfail, hstore⟩ | ⟨dif, lines, t, he, hrun, hfree, hc⟩
  · rcases hyclear with ⟨e', he', hres', hfail', hstore'⟩ | ⟨dif, lines, t, he', -⟩
    · obtain rfl := Except.error.inj (he.symm.trans he')
      exact .of_eq (hres.trans hres'.symm) (hfail.trans hfail'.symm) (hstore.trans hstore'.symm)
    · cases he.symm.trans he'
  · rcases hyclear with ⟨e, he', -⟩ | ⟨dif', lines', t', he', hrun', hfree', hc'⟩
    · cases he.symm.trans he'
    · obtain ⟨rfl, -⟩ := Prod.mk.inj (Except.ok.inj (he.symm.trans he'))
      rw [hc, hc']
      exact (alikeOutside_of_reaches ht hy ⟨rfl, rfl⟩ ⟨hy, hnode⟩ hagree hrun hrun' hfree hfree').recast dif

/-- A child that is asked back about, and one whose call fails. -/
theorem failure_stays_in_branch_timeout :
    Clearable .empty "plan" ∧ freshPolicy.node.useCache = false
      ∧ (branchSession childAsks).Follows (AnswersOutside "a" rootAnswer) .empty
      ∧ (branchSession childFails).Follows (AnswersOutside "a" rootAnswer) .empty
      ∧ IsFree ((branchSession childAsks).run .empty) ∧ IsFree ((branchSession childFails).run .empty)
      ∧ AlikeOutside "a" "plan" ((branchSession childAsks).run .empty).census
        ((branchSession childFails).run .empty).census := by
  have hclear : Clearable .empty "plan" := vacant_plan.clearable_afterwards (List.forall_mem_nil _)
  obtain ⟨hasks, hasked⟩ := run_branchSession_empty childAsks rfl
  obtain ⟨hfails, hfailed⟩ := run_branchSession_empty childFails rfl
  exact ⟨hclear, rfl, hasked, hfailed, hasks, hfails,
    failure_stays_in_branch (x := branchSession childAsks) (y := branchSession childFails) hclear rfl rfl rfl rfl rfl
      "a" rootAnswer hasked hfailed hasks hfails⟩

/-- **Links carry a failure out of its branch.** What is left of the links when the directory is cleared leads the
child's questions to the root: the root has questions only if the call about the child does not fail. -/
theorem failure_leaves_branch_by_links :
    ((linkedWith []).makeDirectories "plan").2 = none ∧ freshPolicy.node.useCache = false
      ∧ (branchSession childAsks).Follows (AnswersOutside "a" rootAnswer) (linkedWith [])
      ∧ (branchSession childFails).Follows (AnswersOutside "a" rootAnswer) (linkedWith [])
      ∧ IsFree ((branchSession childAsks).run (linkedWith [])) ∧ IsFree ((branchSession childFails).run (linkedWith []))
      ∧ ¬ AlikeOutside "a" "plan" ((branchSession childAsks).run (linkedWith [])).census
        ((branchSession childFails).run (linkedWith [])).census := by
  obtain ⟨spec, rec, r, hroot⟩ := replied_linked_root
  obtain ⟨files, _, hasks, hsome⟩ := replied_linked_childAsks spec rec
  obtain ⟨files', _, hfails, hnone⟩ := replied_linked_childFails spec rec
  obtain ⟨hstore, hfree, hfollows⟩ := run_branchSession hroot hasks rfl
  obtain ⟨hstore', hfree', hfollows'⟩ := run_branchSession hroot hfails rfl
  refine ⟨congrArg Prod.snd makeDirectories_linked, rfl, hfollows, hfollows', hfree, hfree', fun halike => ?_⟩
  have hsame : SameOutside "a" ((branchSession childAsks).run (linkedWith [])).store
      ((branchSession childFails).run (linkedWith [])).store "plan" := halike.store
  rw [hstore, hstore'] at hsame
  have hfind : (linkedWith files).find true "plan" = .ok (["plan"], .directory) := by cbv
  rcases hsame.2 ["plan"] hfind [] (List.forall_mem_nil _) (by decide) .questions with h | ⟨h, -⟩
  · exact hsome (h.trans hnone)
  · cases h

end SpecTree.Plan
