import Mathlib
import SpecTree.Build.Report
import SpecTree.Proofs.Build.Leaves

/-!
# What a build reports and what there is

However the calls of a build overlap, its report lists the files that are then below the output directory,
each once (`report_matches`). Every move keeps the ledger of the results so far (`accounted_step`), so a
whole run does (`accounted_run`).

A build that is run to its end makes moves, until nothing is left to do (`exists_run_complete`). So the
report of a whole build lists what there is, too (`runBuild_matches`).
-/

namespace SpecTree.Build

open SpecTree.Path Store OutputPath

variable {b : Site} {s : BuildState} {i : Nat} {slot : Slot}

/-! ## Moves keep the ledger -/

/-- What the batches before this one and the settled leaves of this one have delivered. -/
def BuildState.deliveries (s : BuildState) : List Delivery :=
  (s.results ++ s.batch.filterMap Slot.result?).flatMap LeafResult.deliveries

/-- The ledger is kept, and the leaves to come ask outside the output root. -/
structure Accounted (b : Site) (s : BuildState) : Prop where
  ledger : Ledger b.output s.store s.claims s.deliveries
  batch : ∀ slot ∈ s.batch, AsksOutside b slot.leaf.nodePath
  later : ∀ row ∈ s.later, ∀ l ∈ row, AsksOutside b l.nodePath

/-- No file of a reply has a zero character in its path. -/
def Move.NoZero : Move → Prop
  | .finish _ (.ok answer) => ∀ f ∈ answer.files, f.path.contains '\x00' = false
  | _ => True

/-- What is taken from the leaves of a batch changes with a leaf as what is taken from this leaf does. -/
theorem filterMap_modify_perm {α : Type} {batch : List Slot} (hi : batch[i]? = some slot)
    (g : Slot → Option α) (f : Slot → Slot) :
    ((batch.modify i f).filterMap g ++ (g slot).toList).Perm
      (batch.filterMap g ++ (g (f slot)).toList) := by
  induction batch generalizing i with
  | nil => simp at hi
  | cons a batch ih =>
    cases i with
    | zero =>
      obtain rfl : a = slot := by simpa using hi
      have hcons (x : Slot) : (x :: batch).filterMap g = (g x).toList ++ batch.filterMap g := by
        rw [List.filterMap_cons]
        cases g x <;> rfl
      rw [List.modify_zero_cons, hcons, hcons, List.append_assoc, List.append_assoc]
      exact (List.perm_append_comm.append_left _).trans
        (List.perm_append_comm_assoc _ _ _ |>.trans (List.perm_append_comm.append_left _))
    | succ i =>
      have ih := ih (by simpa using hi)
      rw [List.modify_succ_cons, List.filterMap_cons, List.filterMap_cons]
      split
      · exact ih
      · exact ih.cons _

/-- What holds of all leaves of a batch still does when one of them has changed so that it does. -/
theorem forall_mem_modify {batch : List Slot} {P : Slot → Prop} {f : Slot → Slot}
    (hi : batch[i]? = some slot) (hf : P (f slot)) (h : ∀ x ∈ batch, P x) :
    ∀ x ∈ batch.modify i f, P x := by
  intro x hx
  obtain ⟨j, hj⟩ := List.mem_iff_getElem?.1 hx
  rw [List.getElem?_modify] at hj
  obtain ⟨y, hy, rfl⟩ := Option.map_eq_some_iff.1 hj
  split
  · next hij =>
    subst hij
    exact Option.some.inj (hi.symm.trans hy) ▸ hf
  · exact h y (List.mem_of_getElem? hy)

/-- A leaf without a result goes on, or comes to a result whose files are delivered. -/
theorem accounted_set {store : Store} {claims : Claims} {metrics : Metrics} {status : Status}
    (h : Accounted b s) (hi : s.batch[i]? = some slot) (hs : slot.result? = none)
    (hledger : Ledger b.output store claims (s.deliveries
      ++ ({ slot with status } : Slot).result?.toList.flatMap LeafResult.deliveries)) :
    Accounted b ({ s with store, claims, metrics }.set i status) where
  ledger := by
    refine hledger.perm (List.Perm.symm ?_)
    have hp := filterMap_modify_perm hi Slot.result? fun slot => { slot with status }
    rw [hs, Option.toList_none, List.append_nil] at hp
    have hp := (hp.append_left s.results).flatMap_right LeafResult.deliveries
    rw [← List.append_assoc] at hp
    exact hp.trans (.of_eq List.flatMap_append)
  batch := forall_mem_modify hi (h.batch slot (List.mem_of_getElem? hi)) h.batch
  later := h.later

theorem accounted_start (h : Accounted b s) {leaf : Leaf} (hi : s.batch[i]? = some ⟨leaf, .waiting⟩) :
    Accounted b (s.start b i leaf.nodePath) := by
  have hledger : Ledger b.output s.store s.claims (s.deliveries ++ []) :=
    (List.append_nil _).symm ▸ h.ledger
  unfold BuildState.start
  split
  · exact ⟨(accounted_set h hi rfl hledger).ledger, (accounted_set h hi rfl hledger).batch, h.later⟩
  · exact accounted_set h hi rfl hledger
  · exact accounted_set h hi rfl hledger

theorem accounted_receive (h0 : b.output.contains '\x00' = false) (h : Accounted b s) {leaf : Leaf}
    {request : Request} (hi : s.batch[i]? = some ⟨leaf, .inFlight request⟩)
    {reply : Except Failure Production} (hr : (Move.finish i reply).NoZero) :
    Accounted b (s.receive b i leaf.nodePath reply) := by
  unfold BuildState.receive
  cases reply with
  | error failure =>
    have hledger : Ledger b.output s.store s.claims (s.deliveries ++ []) :=
      (List.append_nil _).symm ▸ h.ledger
    exact accounted_set h hi rfl hledger
  | ok answer =>
    dsimp only
    generalize hd : deliver b s.store s.claims leaf.nodePath answer = delivered
    obtain ⟨store, claims, ending⟩ := delivered
    have hasks := h.batch _ (List.mem_of_getElem? hi)
    have hledger := ledger_deliver h0 hasks hr h.ledger hd
    refine accounted_set h hi rfl ?_
    simpa [Slot.result?, Slot.ending?] using hledger

/-- Leaves that are left out deliver nothing. -/
theorem deliveries_skipped (leaves : List Leaf) :
    (leaves.map fun l => ({ nodePath := l.nodePath, skipped := true } : LeafResult)).flatMap
      LeafResult.deliveries = [] := by
  rw [List.flatMap_eq_nil_iff, List.forall_mem_map]
  exact fun l _ => rfl

theorem filterMap_result?_fresh (leaves : List Leaf) :
    (leaves.map fun l => ({ leaf := l } : Slot)).filterMap Slot.result? = [] := by
  rw [List.filterMap_eq_nil_iff, List.forall_mem_map]
  exact fun l _ => rfl

theorem accounted_next (h : Accounted b s) : Accounted b s.next := by
  have hnone {α : Type} {P : α → Prop} : ∀ x ∈ [], P x := fun x hx => absurd hx List.not_mem_nil
  unfold BuildState.next
  dsimp only
  split
  · refine ⟨?_, hnone, hnone⟩
    rw [BuildState.deliveries, List.filterMap_nil, List.append_nil, List.flatMap_append,
      deliveries_skipped, List.append_nil]
    exact h.ledger
  · split
    · refine ⟨?_, hnone, h.later⟩
      rw [BuildState.deliveries, List.filterMap_nil, List.append_nil]
      exact h.ledger
    · next row later hlater =>
      obtain ⟨hrow, hlater⟩ := List.forall_mem_cons.1 (hlater ▸ h.later)
      refine ⟨?_, List.forall_mem_map.2 hrow, hlater⟩
      rw [BuildState.deliveries, filterMap_result?_fresh, List.append_nil]
      exact h.ledger

theorem accounted_step (h0 : b.output.contains '\x00' = false) (h : Accounted b s) {m : Move}
    (hm : m.NoZero) : Accounted b (s.step b m) := by
  cases m with
  | start i =>
    simp only [BuildState.step]
    split
    · next hi => exact accounted_start h hi
    · exact h
  | finish i reply =>
    simp only [BuildState.step]
    split
    · next hi => exact accounted_receive h0 h hi hm
    · exact h
  | next =>
    simp only [BuildState.step]
    split
    · exact accounted_next h
    · exact h

theorem accounted_run (h0 : b.output.contains '\x00' = false) (h : Accounted b s) {moves : List Move}
    (hm : ∀ m ∈ moves, m.NoZero) : Accounted b (s.run b moves) := by
  induction moves generalizing s with
  | nil => exact h
  | cons m moves ih =>
    obtain ⟨hm, hmoves⟩ := List.forall_mem_cons.1 hm
    exact ih (accounted_step h0 h hm) hmoves

/-! ## Before the first batch -/

theorem mem_of_mem_rows {α : Type} {width : Nat} {xs row : List α} {x : α} (hr : row ∈ rows width xs)
    (hx : x ∈ row) : x ∈ xs := by
  fun_induction rows width xs with
  | case1 => cases hr
  | case2 y rest ih =>
    rcases List.mem_cons.1 hr with rfl | hr
    · exact (List.mem_cons.1 hx).elim (fun h => h ▸ List.mem_cons_self)
        fun h => List.mem_cons_of_mem _ (List.mem_of_mem_take h)
    · exact List.mem_cons_of_mem _ (List.mem_of_mem_drop (ih hr))

/-- The output directory is made, after the one that was there is removed or not. -/
theorem prepareOutput_cases {p : BuildPolicy} {s t : Store} (h : prepareOutput p s = (t, none)) :
    ∃ u, u.makeDirectories p.site.output = (t, none) ∧
      (u = s ∨ ∃ place, s.entry? place = some .directory ∧ u = s.prune place) := by
  unfold prepareOutput at h
  dsimp only at h
  split at h
  · next u hcleared =>
    refine ⟨u, h, ?_⟩
    split at hcleared
    · obtain ⟨present, -, hcleared⟩ := bind_eq_ok hcleared
      split at hcleared
      · obtain ⟨place, hf, rfl⟩ := removeTree_eq_ok hcleared
        exact .inr ⟨place, (find_eq_ok.1 hf).2, rfl⟩
      · cases hcleared
        exact .inl rfl
    · cases hcleared
      exact .inl rfl
  · cases h

/-- Preparing the output directory brings no files. -/
theorem plain_prepareOutput {p : BuildPolicy} {s t : Store} (hs : s.Plain)
    (h : prepareOutput p s = (t, none)) :
    t.Plain ∧ p.site.output.contains '\x00' = false ∧
      ∀ place content, t.entry? place = some (.file content) → s.entry? place = some (.file content) := by
  obtain ⟨u, hm, hu⟩ := prepareOutput_cases h
  obtain ⟨hplain, hold⟩ : u.Plain ∧ ∀ place e, u.entry? place = some e → s.entry? place = some e := by
    rcases hu with rfl | ⟨place, -, rfl⟩
    · exact ⟨hs, fun _ _ => id⟩
    · exact ⟨plain_prune hs _, fun _ _ => entry?_of_prune⟩
  have hsame := sameFiles_makeDirectories hplain p.site.output
  rw [hm] at hsame
  exact ⟨hsame.plain, noZero_of_makeDirectories (congrArg Prod.snd hm),
    fun place content he => hold place _ ((hsame.file place content).1 he)⟩

/-- Of the files of a directory all are left, or none. -/
theorem prepareOutput_sibling {p : BuildPolicy} {s t : Store} (hs : s.Plain)
    (h : prepareOutput p s = (t, none)) {front : Place} {name last : String} {c c' : Content}
    (hleft : t.entry? (front ++ [name]) = some (.file c))
    (hfile : s.entry? (front ++ [last]) = some (.file c')) :
    t.entry? (front ++ [last]) = some (.file c') := by
  obtain ⟨u, hm, hu⟩ := prepareOutput_cases h
  rcases hu with rfl | ⟨place, hd, rfl⟩
  · have hsame := sameFiles_makeDirectories hs p.site.output
    rw [hm] at hsame
    exact (hsame.file _ _).2 hfile
  · have hsame := sameFiles_makeDirectories (plain_prune hs place) p.site.output
    rw [hm] at hsame
    rw [hsame.file, entry?_prune_of_ne_nil _ _ (by simp)] at hleft ⊢
    split at hleft
    · cases hleft
    next hout =>
    rw [if_neg, hfile]
    rw [List.prefix_concat_iff]
    rintro (rfl | hp)
    · rw [hfile] at hd
      cases hd
    · exact hout (hp.trans (List.prefix_append _ _))

/-! ## The report -/

/-- A report lists the files below the output directory, each once. Their paths lie inside the directory
and are claimed for the node of the one result that lists them. -/
structure BuildReport.Matches (r : BuildReport) (output : String) (s : Store) (c : Claims) : Prop where
  disk (rel : Place) (content : Content) : rel ≠ [] →
    (s.entry? (placeOf output ++ rel) = some (.file content) ↔
      ∃ f ∈ r.files, rel = parts f.path ∧ content = .text f.content)
  nodup : (r.files.map GeneratedFile.path).Nodup
  inside : ∀ f ∈ r.files, IsInside f.path
  claimed : ∀ l ∈ r.results, ∀ f ∈ l.files, c.claimant? f.path = some l.nodePath
  single (l m : LeafResult) (f g : GeneratedFile) : l ∈ r.results → m ∈ r.results → f ∈ l.files →
    g ∈ m.files → f.path = g.path → l = m

theorem map_file_deliveries (rs : List LeafResult) :
    (rs.flatMap LeafResult.deliveries).map Delivery.file = rs.flatMap LeafResult.files := by
  rw [List.map_flatMap]
  congr 1
  funext r
  rw [LeafResult.deliveries, List.map_map]
  exact List.map_id _

/-- Where paths differ throughout, no two results share one. -/
theorem eq_of_nodup {rs : List LeafResult} {l m : LeafResult} {f g : GeneratedFile}
    (h : ((rs.flatMap LeafResult.files).map GeneratedFile.path).Nodup) (hl : l ∈ rs) (hm : m ∈ rs)
    (hf : f ∈ l.files) (hg : g ∈ m.files) (he : f.path = g.path) : l = m := by
  rw [List.map_flatMap, List.nodup_flatMap] at h
  by_contra hne
  have hsymm : Std.Symm (Function.onFun List.Disjoint fun r : LeafResult =>
      r.files.map GeneratedFile.path) := ⟨fun _ _ hd => List.disjoint_symm hd⟩
  have hdisjoint := h.2.forall hl hm hne
  exact hdisjoint (List.mem_map_of_mem hf) (he ▸ List.mem_map_of_mem hg)

theorem matches_of_accounted (h : Accounted b s) (hd : s.isDone = true) (total : Nat) :
    (s.report total).Matches b.output s.store s.claims := by
  have hbatch : s.batch = [] := by
    rw [BuildState.isDone, Bool.and_eq_true, List.isEmpty_iff] at hd
    exact hd.1
  have hledger := h.ledger
  rw [BuildState.deliveries, hbatch, List.filterMap_nil, List.append_nil] at hledger
  have hfiles := map_file_deliveries s.results
  have hnodup : ((s.results.flatMap LeafResult.files).map GeneratedFile.path).Nodup := by
    rw [← hfiles, List.map_map]
    exact hledger.nodup
  refine ⟨fun rel content hr => ?_, hnodup, fun f hf => ?_, fun l hl f hf => ?_,
    fun l m f g => eq_of_nodup hnodup⟩
  · rw [hledger.disk rel content hr, BuildReport.files, BuildState.report, ← hfiles]
    simp
  · rw [BuildReport.files, BuildState.report, ← hfiles] at hf
    obtain ⟨d, hd, rfl⟩ := List.mem_map.1 hf
    exact hledger.inside d hd
  · exact hledger.claimed ⟨l.nodePath, f⟩ (List.mem_flatMap.2 ⟨l, hl, List.mem_map_of_mem hf⟩)

variable {p : BuildPolicy} {store made : Store} {leaves : List Leaf}

theorem accounted_initial (hs : store.Plain)
    (he : ∀ rel content, rel ≠ [] → store.entry? (placeOf p.site.output ++ rel) ≠ some (.file content))
    (hm : prepareOutput p store = (made, none)) (hl : discover made p.site.plan = .ok leaves)
    (metrics : Metrics) :
    Accounted p.site (.initial made (batches p.parallelism leaves) metrics) := by
  obtain ⟨hplain, -, hfiles⟩ := plain_prepareOutput hs hm
  have hempty (rel : Place) (content : Content) (hr : rel ≠ []) :=
    mt (hfiles (placeOf p.site.output ++ rel) content) (he rel content hr)
  have hasks := asksOutside_of_discover hplain hl hempty
  refine ⟨⟨hplain, fun rel content hr => ?_, List.nodup_nil, ?_, ?_⟩, ?_, fun row hrow l hl => ?_⟩
  · exact ⟨fun h => absurd h (hempty rel content hr), fun ⟨d, hd, _⟩ => absurd hd List.not_mem_nil⟩
  · exact fun d hd => absurd hd List.not_mem_nil
  · exact fun d hd => absurd hd List.not_mem_nil
  · exact fun slot hslot => absurd hslot List.not_mem_nil
  · exact hasks l (mem_of_mem_rows hrow hl)

/-- **A build reports what there is**, in whatever order its moves are made, if no path that a provider
answers with has a zero character. -/
theorem report_matches (hs : store.Plain)
    (he : ∀ rel content, rel ≠ [] → store.entry? (placeOf p.site.output ++ rel) ≠ some (.file content))
    (hm : prepareOutput p store = (made, none)) (hl : discover made p.site.plan = .ok leaves)
    {moves : List Move} (hz : ∀ m ∈ moves, m.NoZero) (metrics : Metrics)
    (hd : ((BuildState.initial made (batches p.parallelism leaves) metrics).run p.site moves).isDone
      = true) :
    let s := (BuildState.initial made (batches p.parallelism leaves) metrics).run p.site moves
    (s.report leaves.length).Matches p.site.output s.store s.claims := by
  obtain ⟨-, h0, -⟩ := plain_prepareOutput hs hm
  exact matches_of_accounted (accounted_run h0 (accounted_initial hs he hm hl metrics) hz) hd _

/-- A build of one leaf comes to what is delivered for it. -/
theorem run_single {store t : Store} {leaf : Leaf} {request : Request} {answer : Production}
    {c : Claims} {ending : LeafEnding} (metrics : Metrics)
    (hr : requestFor store b.plan leaf.nodePath = .ok (some request))
    (hd : deliver b store {} leaf.nodePath answer = (t, c, ending)) :
    let s := (BuildState.initial store [[leaf]] metrics).run b
      [.next, .start 0, .finish 0 (.ok answer), .next]
    s.isDone = true ∧ s.store = t ∧ s.results = [ending.result leaf.nodePath]
      ∧ s.requests = [request] := by
  have hstart (s : BuildState) (hb : s.batch = [⟨leaf, .waiting⟩]) (hs : s.store = store) :
      s.step b (.start 0) = s.send 0 request := by
    simp [BuildState.step, BuildState.start, hb, hs, hr]
  have hfinish (s : BuildState) (hb : s.batch = [⟨leaf, .inFlight request⟩]) (hs : s.store = store)
      (hc : s.claims = {}) : ∃ metrics, s.step b (.finish 0 (.ok answer))
        = { s with store := t, claims := c, metrics, batch := [⟨leaf, .settled ending⟩] } := by
    simp only [BuildState.step, hb, List.getElem?_cons_zero, BuildState.receive, hs, hc, hd,
      BuildState.set, List.modify_zero_cons]
    exact ⟨_, rfl⟩
  have hnext (s : BuildState) (hb : s.batch = [⟨leaf, .settled ending⟩]) (hl : s.later = []) :
      ∃ leftOut, s.step b .next
        = { s with results := s.results ++ [ending.result leaf.nodePath], batch := [], leftOut } := by
    have hpossible : (s.isSettled && !s.isDone) = true := by
      simp [BuildState.isSettled, BuildState.isDone, hb, Slot.ending?]
    simp only [BuildState.step, hpossible, if_true, BuildState.next, hb, hl]
    split <;> simp [Slot.result?, Slot.ending?]
  let begun : BuildState :=
    { BuildState.initial store [] metrics with batch := [⟨leaf, .waiting⟩], batches := 1 }
  have hbegun : (BuildState.initial store [[leaf]] metrics).step b .next = begun := rfl
  obtain ⟨counted, hsettled⟩ := hfinish (begun.send 0 request) rfl rfl rfl
  obtain ⟨leftOut, hlast⟩ := hnext { begun.send 0 request with
    store := t, claims := c, metrics := counted, batch := [⟨leaf, .settled ending⟩] } rfl rfl
  simp only [BuildState.run, List.foldl_cons, List.foldl_nil]
  rw [hbegun, hstart begun rfl rfl, hsettled, hlast]
  exact ⟨rfl, rfl, rfl, rfl⟩

/-- A plan whose root is its one leaf, beside an empty output directory. -/
def lonePlan : Store :=
  ⟨[(["plan"], .directory), (["plan", "root.plan.aid"], .file (.text "x")),
    (["plan", "root.plan.aid.context.json"], .file (.text "\x7b\x7d")), (["out"], .directory)]⟩

def lonePolicy : BuildPolicy := { site := { plan := "/plan", output := "/out", addHeaders := false } }

def loneLeaf : Leaf := ⟨"root", "/plan/root.plan.aid", "/plan/root.plan.aid.context.json"⟩

/-- The build of the one leaf before its first move. -/
def loneBuild : BuildState :=
  .initial lonePlan (batches lonePolicy.parallelism [loneLeaf]) { run := "run", phase := "build" }

/-- The moves that build the one leaf. -/
def loneMoves (answer : Production) : List Move := [.next, .start 0, .finish 0 (.ok answer), .next]

theorem run_lone {answer : Production} {t : Store} {c : Claims} {ending : LeafEnding}
    (hd : deliver lonePolicy.site lonePlan {} "root" answer = (t, c, ending)) :
    let s := loneBuild.run lonePolicy.site (loneMoves answer)
    s.isDone = true ∧ s.store = t ∧ s.results = [ending.result "root"]
      ∧ s.requests = [⟨"root", "x", {}⟩] := by
  have hrequest : requestFor lonePlan "/plan" "root" = .ok (some ⟨"root", "x", {}⟩) := by cbv
  rw [loneBuild, show batches lonePolicy.parallelism [loneLeaf] = [[loneLeaf]] by cbv]
  exact run_single _ hrequest hd

theorem report_matches_lone :
    let s := loneBuild.run lonePolicy.site (loneMoves { files := [⟨"./x.txt", "1"⟩] })
    (s.report 1).Matches "/out" s.store s.claims := by
  have hempty (rel : Place) (content : Content) (hr : rel ≠ []) :
      lonePlan.entry? (placeOf "/out" ++ rel) ≠ some (.file content) := by
    rw [show placeOf "/out" = ["out"] by decide, entry?_of_ne_nil _ (by simp)]
    intro he
    have hm := mem_of_lookup he
    simp [lonePlan] at hm
  have hzero : ∀ m ∈ loneMoves { files := [⟨"./x.txt", "1"⟩] }, m.NoZero := by
    simp [loneMoves, Move.NoZero]
  have hleaves : discover lonePlan "/plan" = .ok [loneLeaf] := by cbv
  exact report_matches (p := lonePolicy) (plain_of_entries (by decide)) hempty (by cbv) hleaves hzero _
    (run_lone rfl).1

/-- An answer with two files, of which the system refuses the second in its own way. -/
def zeroAnswer : Production := { files := [⟨"x.txt", "1"⟩, ⟨"y\x00z", "2"⟩] }

/-- The first file was written when the second one was refused. -/
theorem writeFiles_zeroAnswer :
    writeFiles "/out" { store := lonePlan } zeroAnswer.files
      = ({ store := lonePlan.set ["out", "x.txt"] (.file (.text "1")), files := [⟨"x.txt", "1"⟩] },
        some .zeroCharacter) := by
  have hfirst : lonePlan.writeDeep "/out/x.txt" (.text "1")
      = (lonePlan.set ["out", "x.txt"] (.file (.text "1")), none) := by
    rw [writeDeep, show Path.directory "/out/x.txt" = "/out" by decide +kernel,
      show lonePlan.makeDirectories "/out" = (lonePlan, none) by cbv]
    dsimp only
    rw [show lonePlan.write "/out/x.txt" (.text "1")
      = .ok (lonePlan.set ["out", "x.txt"] (.file (.text "1"))) by cbv]
  have hsecond (s : Store) (hs : s.makeDirectories "/out" = (s, none)) :
      s.writeDeep "/out/y\x00z" (.text "2") = (s, some .zeroCharacter) := by
    rw [writeDeep, show Path.directory "/out/y\x00z" = "/out" by decide +kernel, hs]
    dsimp only
    rw [show s.write "/out/y\x00z" (.text "2") = .error .zeroCharacter by cbv]
  rw [zeroAnswer, writeFiles_cons, show assemble ["/out", "x.txt"] = "/out/x.txt" by decide +kernel,
    hfirst]
  dsimp only
  rw [writeFiles_cons, show assemble ["/out", "y\x00z"] = "/out/y\x00z" by decide +kernel,
    hsecond _ (by cbv)]
  rfl

theorem deliver_zeroAnswer :
    ∃ c, deliver lonePolicy.site lonePlan {} "root" zeroAnswer
      = (lonePlan.set ["out", "x.txt"] (.file (.text "1")), c, .broken .zeroCharacter) := by
  have haccept : accept zeroAnswer.files = (zeroAnswer.files, []) := by decide +kernel
  have hclaims : (({} : Claims).registerAll "root" (zeroAnswer.files.map GeneratedFile.path)).2 = none := by
    decide
  refine ⟨(({} : Claims).registerAll "root" (zeroAnswer.files.map GeneratedFile.path)).1, ?_⟩
  unfold deliver
  rw [haccept]
  dsimp only
  rw [show ({} : Claims).registerAll "root" (zeroAnswer.files.map GeneratedFile.path) = (_, none) from
    Prod.ext rfl hclaims]
  dsimp only
  rw [show zeroAnswer.files.map (lonePolicy.site.finalFile "root") = zeroAnswer.files from rfl,
    show lonePolicy.site.output = "/out" from rfl, writeFiles_zeroAnswer]

/-- **A zero character in a path leaves a file that no result lists.** -/
theorem zeroCharacter_not_matched :
    let s := loneBuild.run lonePolicy.site (loneMoves zeroAnswer)
    s.isDone = true ∧ ¬ (s.report 1).Matches "/out" s.store s.claims := by
  obtain ⟨c, hd⟩ := deliver_zeroAnswer
  obtain ⟨hdone, hstore, hresults, -⟩ := run_lone hd
  refine ⟨hdone, fun h => ?_⟩
  have hfile : (loneBuild.run lonePolicy.site (loneMoves zeroAnswer)).store.entry?
      (placeOf "/out" ++ ["x.txt"]) = some (.file (.text "1")) := by
    rw [hstore, show placeOf "/out" = ["out"] by decide]
    rfl
  obtain ⟨f, hf, -⟩ := (h.disk ["x.txt"] (.text "1") (by simp)).1 hfile
  rw [BuildReport.files, BuildState.report, hresults] at hf
  cases hf

end SpecTree.Build

namespace SpecTree.Build

open SpecTree.Path Store OutputPath

/-! ## Builds run to their end -/

variable {s : BuildState} {i : Nat} {pace : Plan.Pace} {provider : Request → Except Failure Production}

theorem reply_of_move? {reply : Except Failure Production}
    (h : s.move? pace provider = some (.finish i reply)) : ∃ r, reply = provider r := by
  have hstart : s.start? ≠ some (.finish i reply) := by
    intro h
    obtain ⟨_, -, h⟩ := Option.map_eq_some_iff.1 h
    cases h
  have hnext : s.next? ≠ some (.finish i reply) := by
    intro h
    cases (Option.ite_none_right_eq_some.1 h).2
  have hfinish (h : s.finish? provider = some (.finish i reply)) : ∃ r, reply = provider r := by
    simp only [BuildState.finish?, Option.bind_eq_bind, Option.bind_eq_some_iff] at h
    obtain ⟨j, -, slot, -, h⟩ := h
    split at h
    · next r _ =>
      cases h
      exact ⟨r, rfl⟩
    · cases h
  cases pace <;> simp only [BuildState.move?, Option.or_eq_some_iff] at h
  · exact h.elim hfinish fun h => h.2.elim (absurd · hstart) fun h => absurd h.2 hnext
  · exact h.elim (absurd · hstart) fun h => h.2.elim hfinish fun h => absurd h.2 hnext

/-- Nothing is left to do only at the end. -/
theorem isDone_of_move? (h : s.move? pace provider = none) : s.isDone = true := by
  obtain ⟨hstart, hfinish, hnext⟩ :
      s.start? = none ∧ s.finish? provider = none ∧ s.next? = none := by
    cases pace <;> simp only [BuildState.move?, Option.or_eq_none_iff] at h
    · exact ⟨h.2.1, h.1, h.2.2⟩
    · exact ⟨h.1, h.2.1, h.2.2⟩
  have hwaiting : ∀ slot ∈ s.batch, slot.isWaiting = false := by
    simpa [BuildState.start?] using hstart
  have hflight : ∀ slot ∈ s.batch, slot.isInFlight = false := by
    rw [← List.findIdx?_eq_none_iff]
    cases hi : s.batch.findIdx? Slot.isInFlight with
    | none => rfl
    | some i =>
      obtain ⟨hlt, hslot, -⟩ := List.findIdx?_eq_some_iff_getElem.1 hi
      have hget := List.getElem?_eq_getElem hlt
      generalize s.batch[i] = slot at hslot hget
      obtain ⟨leaf, status⟩ := slot
      cases status <;> simp [Slot.isInFlight] at hslot
      simp [BuildState.finish?, hi, hget] at hfinish
  have hsettled : s.isSettled = true := by
    rw [BuildState.isSettled, List.all_eq_true]
    rintro ⟨leaf, status⟩ hslot
    cases status with
    | waiting => cases hwaiting _ hslot
    | inFlight request => cases hflight _ hslot
    | settled ending => rfl
  simpa [BuildState.next?, hsettled] using hnext

/-- A build that is run to its end makes moves, with replies from its provider. -/
theorem exists_run_complete (b : Site) (pace : Plan.Pace)
    (provider : Request → Except Failure Production) (s : BuildState) :
    ∃ moves, s.complete b pace provider = s.run b moves ∧ (s.run b moves).isDone = true ∧
      ∀ i reply, .finish i reply ∈ moves → ∃ r, reply = provider r := by
  fun_induction BuildState.complete b pace provider s with
  | case1 s h => exact ⟨[], rfl, isDone_of_move? h, fun i reply hm => absurd hm List.not_mem_nil⟩
  | case2 s m h ih =>
    obtain ⟨moves, hrun, hdone, hreplies⟩ := ih
    refine ⟨m :: moves, hrun, hdone, fun i reply hm => ?_⟩
    rcases List.mem_cons.1 hm with rfl | hm
    · exact reply_of_move? h
    · exact hreplies i reply hm

/-- **A build that comes to a report reports what there is**, if no path that its provider answers with
has a zero character. -/
theorem runBuild_matches {p : BuildPolicy} {store : Store} {metrics : Metrics} {r : BuildReport}
    (hs : store.Plain)
    (he : ∀ rel content, rel ≠ [] → store.entry? (placeOf p.site.output ++ rel) ≠ some (.file content))
    (hz : ∀ request answer, provider request = .ok answer →
      ∀ f ∈ answer.files, f.path.contains '\x00' = false)
    (hr : runBuild p store metrics pace provider = (s, .ok r)) :
    r.Matches p.site.output s.store s.claims := by
  unfold runBuild at hr
  split at hr
  · cases hr
  next made hm =>
  have haccounted {leaves : List Leaf} (hl : discover made p.site.plan = .ok leaves) :=
    accounted_initial hs he hm hl metrics
  split at hr
  · cases hr
  · next hl =>
    cases hr
    have h := matches_of_accounted (haccounted hl) (by rw [batches, rows]; rfl) 0
    rw [batches, rows] at h
    exact ⟨h.disk, h.nodup, h.inside, h.claimed, h.single⟩
  · next leaves _ hl =>
    cases hr
    obtain ⟨moves, hrun, hdone, hreplies⟩ := exists_run_complete p.site pace provider
      (.initial made (batches p.parallelism leaves) metrics)
    rw [hrun]
    refine matches_of_accounted (accounted_run (plain_prepareOutput hs hm).2.1 (haccounted hl) ?_) hdone _
    intro m hmoves
    cases m with
    | finish i reply =>
      obtain ⟨request, rfl⟩ := hreplies i reply hmoves
      cases hp : provider request with
      | error failure => trivial
      | ok answer => exact hz request answer hp
    | start i => trivial
    | next => trivial

end SpecTree.Build
