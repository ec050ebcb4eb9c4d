import SpecTree.Proofs.Plan.Aftermath
import SpecTree.Proofs.Plan.Pair

/-!
# The footprint of a node

A node that is compiled leaves its own artifacts and changes nothing else, whatever was there before
(`compileNode_leaves`): neither old artifacts nor nodes below it stay, and nodes beside it are left alone.

That is so for the directories on the way only as far as they are there, and it takes a way without links, from a
plan directory whose path leads to its place (`footprint_elsewhere`).
-/

namespace SpecTree.Plan

open SpecTree.Path Store

variable {s t made : Store} {directory : String} {base : Place} {names : List String} {v : Visit} {dif : Difference}
  {o : Outcome} {p : NodePolicy}

/-- **What compiling a node leaves.** Let the plan directory lead to a place, or be yet to be made there with nothing
in it, and let no link stand on the way from it to the node. Where the comparison of the node with its record does not
fail, the compilation comes to an end. A node that is passed over or used again changes nothing. Any other one, if
nothing is told of files, has in its place the artifacts of its outcome and nothing else: its spec, its context just
if it is a leaf, its questions just if there are any, and its record just if the provider did not fail. Everything
outside of its place is as it was, but that the plan directory and the directories on the way from it have been made
where they were missing. -/
theorem compileNode_leaves (h : s.Opens directory base made) (hs : s.WellFormed) (hv : v.ancestry = rootName :: names)
    (hn : ∀ n ∈ names, IsNodeName n) (hl : made.Straight base names) {lines : List Log.Line}
    (hx : examine p s directory v = .ok (dif, lines)) (mayAsk : Bool)
    (provider : Request → Except Failure Expansion) :
    ∃ t r, compileNode p s directory v mayAsk provider = .ok (t, r) ∧
      (r.skipped = true ∨ r.cacheHit = true → t = s) ∧
      (r.skipped = false → r.cacheHit = false → Quiet r.errors →
        let o := v.outcome p.smallSpec provider
        r.isLeaf = o.isLeaf ∧ r.children = o.expansion.children ∧
          Houses t directory base names (v.papers p o) ∧
          ∀ x, ¬ base ++ names <+: x → t.entry? x = s.entry? x ∨
            s.entry? x = none ∧ t.entry? x = some .directory ∧
              (x <+: base ++ names ∨ made.entry? x = some .directory)) := by
  rcases compileNode_cases h.anchored.noZero ⟨names, hv, hn⟩ hx mayAsk provider with
    ⟨record, -, hc⟩ | ⟨-, -, hc⟩ | ⟨t, d, -, hd, hc, hcarry⟩
  · exact ⟨s, _, hc, fun _ => rfl, fun _ hhit => absurd (show true = false from hhit) (by decide)⟩
  · exact ⟨s, _, hc, fun _ => rfl, fun hskip => absurd (show true = false from hskip) (by decide)⟩
  · refine ⟨t, _, hc, fun hor => ?_, fun _ _ hquiet => ?_⟩
    · rcases hor with hor | hor <;> exact absurd (show false = true from hor) (by decide)
    obtain ⟨hhouses, hsame⟩ := carryOut_leaves h hs hv hn hl hx hcarry hquiet
    refine ⟨rfl, rfl, hhouses, fun x hx => ?_⟩
    rw [hsame x hx]
    rcases h.adds x with hm | ⟨hfree, hm⟩
    · rw [hm]
      cases s.entry? x with
      | some e => exact .inl Option.some_or
      | none =>
        rw [Option.none_or]
        split
        · next hway => exact .inr ⟨rfl, rfl, .inl hway.2⟩
        · exact .inl rfl
    · rw [hm, Option.some_or]
      exact .inr ⟨hfree, rfl, .inr rfl⟩

/-! ## Nodes to be compiled -/

theorem examine_of_none (hrec : s.isFile (metaPath directory v.path) = .ok false) :
    examine p s directory v = .ok ((v.draft p).difference, []) := by
  rw [examine, difference, readRecord, readJson, hrec]
  rfl

/-- A node whose record cannot be used is compiled, if it may be. -/
theorem compileNode_of_stale {lines : List Log.Line} (hx : examine p s directory v = .ok (dif, lines))
    (hstale : dif.isStale = true) {mayAsk : Bool} (hask : v.isPlainLeaf p.smallSpec = true ∨ mayAsk = true)
    (provider : Request → Except Failure Expansion) :
    compileNode p s directory v mayAsk provider = carryOut p s directory v dif (v.outcome p.smallSpec provider) := by
  have hj : judge p v dif = if v.isPlainLeaf p.smallSpec then .keepLeaf else .ask := by
    rw [judge, Difference.reusable?, if_pos hstale, ite_self]
  rw [compileNode_eq hx, hj, Visit.outcome]
  by_cases hplain : v.isPlainLeaf p.smallSpec = true
  · rw [if_pos hplain, if_pos hplain]
  · rw [if_neg hplain, if_neg hplain, hask.resolve_left hplain]
    rfl

/-- The stores that the writes leave lead from the first one to the last. -/
theorem carryOut_of_writes (dif : Difference) {s' t₁ t₂ t₃ : Store} {failure : Option FileError}
    (hi : invalidate s directory v.path = (s', failure))
    (hw : writeSpec s' directory v.path v.spec = (t, none))
    (hc : if o.isLeaf then writeContext t directory v.path v.context = (t₁, none) else t = t₁)
    (hq : let q := Draft.questionnaire { visit := v, difference := dif } o
      if q.questions.isEmpty && q.considerations.isEmpty then t₁ = t₂
      else writeQuestions t₁ directory v.path q = (t₂, none))
    (hr : if o.failure.isSome then t₂ = t₃
      else writeRecord t₂ directory v.path (Draft.record { visit := v, difference := dif } p.stamp o) = (t₃, none)) :
    carryOut p s directory v dif o
      = .ok (t₃, Draft.result
          { visit := v, difference := dif, errors := v.complaints failure ++ o.errors v.path } o) := by
  let d : Draft := { visit := v, difference := dif, errors := v.complaints failure }
  have hprepare : prepare s directory v dif = .ok (t, d) := by
    rw [prepare, hi]
    dsimp only
    rw [hw]
    rfl
  have hfinish := Draft.finish_of_writes (d := d) p.stamp hc hq hr
  rw [carryOut, hprepare]
  show (d.finish p.stamp t directory _).bind _ = _
  rw [hfinish]
  rfl

/-! ## A node above others -/

/-- A node without text. -/
def blankVisit (names : List String) : Visit where
  node := .document emptyRoot
  ancestry := rootName :: names

/-- The provider asks back. -/
def asksBack (_ : Request) : Except Failure Expansion := .ok { considerations := [{ note := "why" }] }

/-- The provider fails. -/
def breaksDown (_ : Request) : Except Failure Expansion := .error ⟨.timeout, "late"⟩

theorem outcome_blankVisit (names : List String) (provider : Request → Except Failure Expansion) :
    (blankVisit names).outcome 0 provider = .ofReply (provider (blankVisit names).request) := by
  have hplain : (blankVisit names).isPlainLeaf 0 = false := isPlainLeaf_zero _
  rw [Visit.outcome, if_neg (Bool.eq_false_iff.1 hplain)]

theorem invalidate_of_removeTree {node : String} (path : String) (hnode : node ≠ rootName)
    (hp : assemble [directory, node] = path) (hd : s.isDirectory path = .ok true) (hr : s.removeTree path = .ok t) :
    invalidate s directory node = (t, none) := by
  simp only [invalidate, if_neg hnode, hp, hd, hr]

/-- A plan directory, and nothing else but the entries. -/
def planWith (entries : List (Place × Entry)) : Store := ⟨(["plan"], .directory) :: entries⟩

theorem anchored_planWith (entries : List (Place × Entry)) : (planWith entries).Anchored "plan" ["plan"] := by
  refine ⟨planWith [], by cbv, fun rel hr => ?_, fun q e he => ?_⟩
  · obtain ⟨n, more, rfl⟩ := List.exists_cons_of_ne_nil hr
    rfl
  · rcases q with - | ⟨n, more⟩
    · exact he
    · obtain ⟨hplace, rfl⟩ := Prod.mk.inj (List.mem_singleton.1 (mem_of_lookup he))
      rw [hplace]
      rfl

/-- A file is added to the entries, under a path that is spelled out. -/
theorem writeDeep_planWith (entries : List (Place × Entry)) (path text : String) (entries' : List (Place × Entry))
    (spelled dir : String) (place : Place) (hp : path = spelled)
    (hd : Path.directory spelled = dir)
    (hm : (planWith entries).makeDirectories dir = (planWith entries', none))
    (hl : (planWith entries').locate true spelled = .ok place)
    (he : Store.entry? (planWith entries') place = none)
    (hs : (planWith entries').set place (fileOf text) = planWith (entries' ++ [(place, fileOf text)])) :
    (planWith entries).writeDeep path (.text text) = (planWith (entries' ++ [(place, fileOf text)]), none) :=
  hp ▸ (Store.writeDeep_of_locate hd hm hl he _).trans (congrArg (·, none) hs)

/-- A node with a spec, a node below it that has a link to the second node, and that one. -/
def grownEntries : List (Place × Entry) :=
  [(["plan", "a"], .directory), (["plan", "a", "node.plan.aid"], fileOf "old;"),
    (["plan", "a", "b"], .directory), (["plan", "a", "b", "link"], .link ["plan", "c"]),
    (["plan", "c"], .directory), (["plan", "c", "node.plan.aid"], fileOf "c;")]

/-- The second node alone. -/
def clearedEntries : List (Place × Entry) :=
  [(["plan", "c"], .directory), (["plan", "c", "node.plan.aid"], fileOf "c;")]

/-- The second node stays, and the first one has new files. -/
def renewedEntries (files : List (String × String)) : List (Place × Entry) :=
  clearedEntries ++ (["plan", "a"], .directory) :: files.map fun f => (["plan", "a", f.1], fileOf f.2)

theorem wellFormed_grown : (planWith grownEntries).WellFormed := wellFormed_of_entries (by decide) (by decide)

/-- The node that has been removed gets a spec and a context. -/
theorem writes_cleared (spec context : String) :
    (planWith clearedEntries).writeDeep (planPath "plan" "a") (.text spec)
        = (planWith (renewedEntries [("node.plan.aid", spec)]), none)
      ∧ (planWith (renewedEntries [("node.plan.aid", spec)])).writeDeep (contextPath "plan" "a") (.text context)
        = (planWith (renewedEntries [("node.plan.aid", spec), ("node.plan.aid.context.json", context)]), none) :=
  ⟨writeDeep_planWith _ _ _ (renewedEntries []) "plan/a/node.plan.aid" "plan/a" ["plan", "a", "node.plan.aid"]
      (by cbv) (by simp [Path.directory]) (by cbv) (by cbv) rfl rfl,
    writeDeep_planWith _ _ _ (renewedEntries [("node.plan.aid", spec)])
      "plan/a/node.plan.aid.context.json" "plan/a" ["plan", "a", "node.plan.aid.context.json"]
      (by cbv) (by simp [Path.directory]) (by cbv) (by cbv) rfl rfl⟩

/-- The node above another one is compiled, with nothing told of files. -/
theorem exists_compileNode_grown : ∃ dif t r,
    examine pairPolicy.node (planWith grownEntries) "plan" (blankVisit ["a"]) = .ok (dif, [])
      ∧ compileNode pairPolicy.node (planWith grownEntries) "plan" (blankVisit ["a"]) true asksBack = .ok (t, r)
      ∧ r.skipped = false ∧ r.cacheHit = false ∧ r.errors = [] := by
  have hx := examine_of_none (p := pairPolicy.node) (v := blankVisit ["a"])
    (show (planWith grownEntries).isFile (metaPath "plan" "a") = .ok false by cbv)
  have hi : invalidate (planWith grownEntries) "plan" "a" = (planWith clearedEntries, none) :=
    invalidate_of_removeTree "plan/a" (by decide) (by cbv) (by cbv) (by cbv)
  have hquestions (spec context questions : String) :=
    let entries := renewedEntries [("node.plan.aid", spec), ("node.plan.aid.context.json", context)]
    writeDeep_planWith entries (questionsPath "plan" "a") questions entries
      "plan/a/node.plan.aid.questions.json" "plan/a" ["plan", "a", "node.plan.aid.questions.json"]
      (by cbv) (by simp [Path.directory]) (by cbv) (by cbv) rfl rfl
  have hrecord (spec context questions rec : String) :=
    let entries := renewedEntries [("node.plan.aid", spec), ("node.plan.aid.context.json", context),
      ("node.plan.aid.questions.json", questions)]
    writeDeep_planWith entries (metaPath "plan" "a") rec entries
      "plan/a/node.plan.aid.meta.json" "plan/a" ["plan", "a", "node.plan.aid.meta.json"]
      (by cbv) (by simp [Path.directory]) (by cbv) (by cbv) rfl rfl
  have hcompile := carryOut_of_writes (v := blankVisit ["a"]) (p := pairPolicy.node)
    ((blankVisit ["a"]).draft pairPolicy.node).difference (o := (blankVisit ["a"]).outcome 0 asksBack)
    hi (writes_cleared _ "").1
    (by rw [outcome_blankVisit]; exact (writes_cleared _ _).2)
    (by rw [outcome_blankVisit]; exact hquestions _ _ _)
    (by rw [outcome_blankVisit]; exact hrecord _ _ _ _)
  refine ⟨_, _, _, hx, (compileNode_of_stale hx rfl (.inr rfl) asksBack).trans hcompile, rfl, rfl, ?_⟩
  rw [outcome_blankVisit]
  rfl

theorem compileNode_leaves_grown : ∃ t r,
    compileNode pairPolicy.node (planWith grownEntries) "plan" (blankVisit ["a"]) true asksBack = .ok (t, r)
      ∧ Houses t "plan" ["plan"] ["a"]
        ((blankVisit ["a"]).papers pairPolicy.node ((blankVisit ["a"]).outcome 0 asksBack))
      ∧ t.entry? ["plan", "a", "b", "link"] = none
      ∧ t.entry? ["plan", "c", "node.plan.aid"] = some (fileOf "c;") := by
  obtain ⟨_, t, r, hx, hc, hskip, hhit, herrors⟩ := exists_compileNode_grown
  have hstraight : (planWith grownEntries).Straight ["plan"] ["a"] := (straight_nil rfl).concat fun _ => nofun
  obtain ⟨t', r', hc', -, hleaves⟩ := compileNode_leaves (.inl ⟨anchored_planWith _, rfl⟩) wellFormed_grown rfl
    (List.forall_mem_singleton.2 isNodeName_a) hstraight hx true asksBack
  obtain ⟨rfl, rfl⟩ := Prod.mk.inj (Except.ok.inj (hc.symm.trans hc'))
  obtain ⟨-, -, hhouses, hframe⟩ := hleaves hskip hhit (herrors ▸ nofun)
  refine ⟨t, r, hc, hhouses, hhouses.only ["b", "link"] (by simp) (fun a => by simp), ?_⟩
  rcases hframe ["plan", "c", "node.plan.aid"] (by decide) with h | ⟨h, -⟩
  · exact h
  · cases h

/-! ## What lies elsewhere -/

/-- What a node leaves about which the provider fails: its spec and its context. -/
theorem exists_compileNode_breaksDown (names : List String) {lines : List Log.Line} {s' t t₁ : Store}
    {failure : Option FileError}
    (hx : examine pairPolicy.node s directory (blankVisit names) = .ok (dif, lines)) (hstale : dif.isStale = true)
    (hi : invalidate s directory (blankVisit names).path = (s', failure))
    (hspec : writeSpec s' directory (blankVisit names).path (blankVisit names).spec = (t, none))
    (hcontext : writeContext t directory (blankVisit names).path {} = (t₁, none)) :
    ∃ r, compileNode pairPolicy.node s directory (blankVisit names) true breaksDown = .ok (t₁, r)
      ∧ (r.skipped = false ∧ r.cacheHit = false ∧ (failure = none → Quiet r.errors)) ∧ r.providerCalled = true := by
  have ho : (blankVisit names).outcome pairPolicy.node.smallSpec breaksDown = .ofReply (.error ⟨.timeout, "late"⟩) :=
    outcome_blankVisit names breaksDown
  have hcompile := carryOut_of_writes (p := pairPolicy.node) dif
    (o := (blankVisit names).outcome pairPolicy.node.smallSpec breaksDown) hi hspec
    (by rw [ho]; exact hcontext) (by rw [ho]; rfl) (by rw [ho]; rfl)
  refine ⟨_, (compileNode_of_stale hx hstale (.inr rfl) breaksDown).trans hcompile, ⟨rfl, rfl, ?_⟩, by rw [ho]; rfl⟩
  rintro rfl
  rw [ho]
  refine List.forall_mem_singleton.2 ?_
  simp [IsFileFailure]

/-- The directory of the node above is made. -/
theorem exists_compileNode_bare : ∃ t r,
    compileNode pairPolicy.node (planWith []) "plan" (blankVisit ["a", "b"]) true breaksDown = .ok (t, r)
      ∧ (r.skipped = false ∧ r.cacheHit = false ∧ Quiet r.errors)
      ∧ t.entry? ["plan", "a"] = some .directory := by
  let way : List (Place × Entry) := [(["plan", "a"], .directory), (["plan", "a", "b"], .directory)]
  have hi : invalidate (planWith []) "plan" "a/b" = (planWith [], none) := by cbv
  have hspec (spec : String) := writeDeep_planWith [] (planPath "plan" "a/b") spec
    way "plan/a/b/node.plan.aid" "plan/a/b" ["plan", "a", "b", "node.plan.aid"]
    (by cbv) (by simp [Path.directory]) (by cbv) (by cbv) rfl rfl
  have hcontext (spec context : String) :=
    let entries := way ++ [(["plan", "a", "b", "node.plan.aid"], fileOf spec)]
    writeDeep_planWith entries (contextPath "plan" "a/b") context entries
      "plan/a/b/node.plan.aid.context.json" "plan/a/b" ["plan", "a", "b", "node.plan.aid.context.json"]
      (by cbv) (by simp [Path.directory]) (by cbv) (by cbv) rfl rfl
  obtain ⟨r, hc, ⟨hskip, hhit, hquiet⟩, -⟩ := exists_compileNode_breaksDown ["a", "b"]
    (examine_of_none (by cbv)) rfl hi (hspec _) (hcontext _ _)
  exact ⟨_, r, hc, ⟨hskip, hhit, hquiet rfl⟩, rfl⟩

/-- A link in the place of the node above leads to another node. -/
def aliasedEntries : List (Place × Entry) :=
  [(["plan", "a"], .link ["plan", "c"]), (["plan", "c"], .directory), (["plan", "c", "b"], .directory),
    (["plan", "c", "b", "d"], .directory), (["plan", "c", "b", "d", "node.plan.aid"], fileOf "old;")]

/-- What is below the other node is removed. -/
theorem exists_compileNode_aliased : ∃ t r,
    compileNode pairPolicy.node (planWith aliasedEntries) "plan" (blankVisit ["a", "b"]) true breaksDown = .ok (t, r)
      ∧ (r.skipped = false ∧ r.cacheHit = false ∧ Quiet r.errors)
      ∧ t.entry? ["plan", "c", "b", "d", "node.plan.aid"] = none := by
  let left : List (Place × Entry) := [(["plan", "a"], .link ["plan", "c"]), (["plan", "c"], .directory)]
  let way : List (Place × Entry) := left ++ [(["plan", "c", "b"], .directory)]
  have hi : invalidate (planWith aliasedEntries) "plan" "a/b" = (planWith left, none) :=
    invalidate_of_removeTree "plan/a/b" (by decide) (by cbv) (by cbv) (by cbv)
  have hspec (spec : String) := writeDeep_planWith left (planPath "plan" "a/b") spec
    way "plan/a/b/node.plan.aid" "plan/a/b" ["plan", "c", "b", "node.plan.aid"]
    (by cbv) (by simp [Path.directory]) (by cbv) (by cbv) rfl rfl
  have hcontext (spec context : String) :=
    let entries := way ++ [(["plan", "c", "b", "node.plan.aid"], fileOf spec)]
    writeDeep_planWith entries (contextPath "plan" "a/b") context entries
      "plan/a/b/node.plan.aid.context.json" "plan/a/b" ["plan", "c", "b", "node.plan.aid.context.json"]
      (by cbv) (by simp [Path.directory]) (by cbv) (by cbv) rfl rfl
  obtain ⟨r, hc, ⟨hskip, hhit, hquiet⟩, -⟩ := exists_compileNode_breaksDown ["a", "b"]
    (examine_of_none (by cbv)) rfl hi (hspec _) (hcontext _ _)
  exact ⟨_, r, hc, ⟨hskip, hhit, hquiet rfl⟩, rfl⟩

/-- The plan directory is found only when a directory has been made on the way to it. -/
theorem exists_compileNode_detour : ∃ t r,
    compileNode pairPolicy.node (planWith grownEntries) "m/../plan" (blankVisit []) true breaksDown = .ok (t, r)
      ∧ (r.skipped = false ∧ r.cacheHit = false ∧ Quiet r.errors)
      ∧ t.find true "m/../plan" = .ok (["plan"], .directory)
      ∧ t.entry? ["plan", "a", "node.plan.aid"] = some (fileOf "old;") := by
  let way : List (Place × Entry) := grownEntries ++ [(["m"], .directory)]
  have hi : invalidate (planWith grownEntries) "m/../plan" rootName = (planWith grownEntries, none) := by cbv
  have hspec (spec : String) := writeDeep_planWith grownEntries (planPath "m/../plan" rootName) spec
    way "m/../plan/root.plan.aid" "m/../plan" ["plan", "root.plan.aid"]
    (by cbv) (by simp [Path.directory]) (by cbv) (by cbv) rfl rfl
  have hcontext (spec context : String) :=
    let entries := way ++ [(["plan", "root.plan.aid"], fileOf spec)]
    writeDeep_planWith entries (contextPath "m/../plan" rootName) context entries
      "m/../plan/root.plan.aid.context.json" "m/../plan" ["plan", "root.plan.aid.context.json"]
      (by cbv) (by simp [Path.directory]) (by cbv) (by cbv) rfl rfl
  obtain ⟨r, hc, ⟨hskip, hhit, hquiet⟩, -⟩ := exists_compileNode_breaksDown []
    (examine_of_none (by cbv)) rfl hi (hspec _) (hcontext _ _)
  exact ⟨_, r, hc, ⟨hskip, hhit, hquiet rfl⟩, by cbv, rfl⟩

/-- **Elsewhere something changes** where directories are missing on the way, or a link stands there. And what was
there below the node stays if it is found only once directories have been made on the way to the plan directory. -/
theorem footprint_elsewhere :
    (∃ t r, compileNode pairPolicy.node (planWith []) "plan" (blankVisit ["a", "b"]) true breaksDown = .ok (t, r)
        ∧ (r.skipped = false ∧ r.cacheHit = false ∧ Quiet r.errors)
        ∧ Store.entry? (planWith []) ["plan", "a"] = none ∧ t.entry? ["plan", "a"] = some .directory)
      ∧ (∃ t r, compileNode pairPolicy.node (planWith aliasedEntries) "plan" (blankVisit ["a", "b"]) true breaksDown
          = .ok (t, r)
        ∧ (r.skipped = false ∧ r.cacheHit = false ∧ Quiet r.errors)
        ∧ Store.entry? (planWith aliasedEntries) ["plan", "c", "b", "d", "node.plan.aid"] = some (fileOf "old;")
        ∧ t.entry? ["plan", "c", "b", "d", "node.plan.aid"] = none)
      ∧ ∃ t r, compileNode pairPolicy.node (planWith grownEntries) "m/../plan" (blankVisit []) true breaksDown
          = .ok (t, r)
        ∧ (r.skipped = false ∧ r.cacheHit = false ∧ Quiet r.errors)
        ∧ t.find true "m/../plan" = .ok (["plan"], .directory)
        ∧ t.entry? ["plan", "a", "node.plan.aid"] = some (fileOf "old;") := by
  obtain ⟨t, r, hc, hr, ht⟩ := exists_compileNode_bare
  obtain ⟨t', r', hc', hr', ht'⟩ := exists_compileNode_aliased
  exact ⟨⟨t, r, hc, hr, rfl, ht⟩, ⟨t', r', hc', hr', rfl, ht'⟩, exists_compileNode_detour⟩

end SpecTree.Plan
