import SpecTree.Project.Compile
import SpecTree.Proofs.Include.Visits
import SpecTree.Proofs.Store.Below

/-!
# Diagnostics of a project

`compile_diagnostics`: an error in the root spec or in a file that one comes to through includes keeps the
tree from being compiled, and each error is told in one line; without one the tree is compiled, and what it
tells are its own failures. The errors are counted by files (`Include.problemsOf`), whatever the session
that resolves the includes remembers.

A path with a character NUL is no path. Asking for it ends the run without a word about it
(`unusablePath_not_told`).
-/

namespace SpecTree.Project

open Include (IsUsable Readable Edge files visits problemsOf resolveFile)
open Plan (TreeState TreeReport compileTree)
open Relation (ReflTransGen)
open Spec (Diagnostic)

variable {e : Surroundings} {s : Store} {main : String} {settings : Settings}
  {provider : Request → Except Failure Expansion}

/-! ## Texts of a store -/

theorem mem_of_mem_unifyLineEnds {c : Char} {cs : List Char} (h : c ∈ Text.unifyLineEnds cs) :
    c ∈ cs ∨ c = '\n' := by
  induction cs using Text.unifyLineEnds.induct with
  | case1 => exact .inl h
  | case2 cs ih =>
    rcases List.mem_cons.1 h with rfl | h
    · exact .inr rfl
    · exact (ih h).imp_left fun h => List.mem_cons_of_mem _ (List.mem_cons_of_mem _ h)
  | case3 cs hcs ih =>
    rw [Text.unifyLineEnds] at h
    · rcases List.mem_cons.1 h with rfl | h
      · exact .inr rfl
      · exact (ih h).imp_left (List.mem_cons_of_mem _)
    · exact hcs
  | case4 c' cs hcs hc ih =>
    rw [Text.unifyLineEnds] at h
    · rcases List.mem_cons.1 h with rfl | h
      · exact .inl List.mem_cons_self
      · exact (ih h).imp_left (List.mem_cons_of_mem _)
    all_goals assumption

/-- A text that is read from a store is the text of a file, but for its line ends. -/
theorem exists_of_readText {path text : String} (h : s.readText path = .ok text) :
    ∃ place written, (place, Entry.file (.text written)) ∈ s.entries ∧
      text = String.ofList (Text.unifyLineEnds written.toList) := by
  obtain ⟨⟨place, entry⟩, hfind, h⟩ := Store.bind_eq_ok h
  obtain ⟨-, hentry⟩ := Store.find_eq_ok.1 hfind
  cases entry with
  | directory | link => cases h
  | file content =>
    cases content with
    | bytes => cases h
    | text written =>
      have hplace : place ≠ [] := by
        rintro rfl
        cases hentry
      rw [Store.entry?_of_ne_nil s hplace] at hentry
      exact ⟨place, written, Store.mem_of_lookup hentry, (Except.ok.inj h).symm⟩

/-- No file of the store has a character NUL in its text. -/
def TextsUsable (s : Store) : Prop :=
  ∀ place text, (place, Entry.file (.text text)) ∈ s.entries → IsUsable text

theorem TextsUsable.readable (h : TextsUsable s) {extension : String} (hx : IsUsable extension) :
    Readable s.reader extension where
  extension := hx
  text path content hr hc := by
    have hread : s.readText path = .ok content := by
      cases ht : s.readText path with
      | error error => simp [Store.reader, ht, Except.toOption] at hr
      | ok text => simpa [Store.reader, ht, Except.toOption] using hr
    obtain ⟨place, written, hmem, rfl⟩ := exists_of_readText hread
    rw [String.toList_ofList] at hc
    exact (mem_of_mem_unifyLineEnds hc).elim (h place written hmem) (by decide)

/-! ## Runs -/

/-- The errors in the root spec and in the files that one comes to from it. -/
def errorsOf (s : Store) (main : String) (settings : Settings) : List Diagnostic :=
  (problemsOf s.reader settings.specExtension (Path.normalize main)).filter Diagnostic.isError

/-- What the root spec resolves to. -/
def resolved (s : Store) (main : String) (settings : Settings) : Include.Resolved :=
  (resolveFile s.reader main { extension := settings.specExtension }).1

/-- The run of the tree of the root spec into the plan directory. -/
def treeRun (e : Surroundings) (s : Store) (main : String) (settings : Settings)
    (provider : Request → Except Failure Expansion) (plan : String) :
    TreeState × Except FileError TreeReport :=
  compileTree (treePolicy e settings plan) s (resolved s main settings).document
    (freshMetrics e "compile") e.pace provider

theorem errors_perm (s : Store) (main : String) (settings : Settings) :
    ((resolved s main settings).problems.filter Diagnostic.isError).Perm (errorsOf s main settings) :=
  (Include.resolveFile_problems s.reader settings.specExtension main).filter Diagnostic.isError

theorem directories_of_usable (hm : IsUsable main) : directories s main settings =
    .ok (Path.assemble [Path.directory (s.canonical main), settings.planDirectory],
      Path.assemble [Path.directory (s.canonical main), settings.outputDirectory]) := by
  have hzero : main.contains '\x00' = false := by
    rw [Bool.eq_false_iff]
    exact fun h => hm (by simpa using h)
  simp [directories, directory, hzero, Except.map]

theorem compile_of_errors (e : Surroundings) (provider : Request → Except Failure Expansion)
    (hu : (resolved s main settings).hasUnusablePath = false)
    (he : (resolved s main settings).problems.filter Diagnostic.isError ≠ []) :
    (compile e s main (some settings) provider).requests = [] ∧
      (compile e s main (some settings) provider).store = s ∧
      (compile e s main (some settings) provider).result = .ok
        { errors := ((resolved s main settings).problems.filter Diagnostic.isError).map
            Diagnostic.format } := by
  unfold resolved at hu he
  simp only [compile, Project.settings, compileWith, hu, Bool.false_eq_true, if_false,
    List.partition_eq_filter_filter]
  rw [if_pos (by simpa using he)]
  exact ⟨rfl, rfl, rfl⟩

theorem compile_of_none (e : Surroundings) (provider : Request → Except Failure Expansion)
    (hu : (resolved s main settings).hasUnusablePath = false)
    (he : (resolved s main settings).problems.filter Diagnostic.isError = []) {plan output : String}
    (hd : directories s main settings = .ok (plan, output)) :
    (compile e s main (some settings) provider).requests =
        (treeRun e s main settings provider plan).1.requests ∧
      (compile e s main (some settings) provider).store = (treeRun e s main settings provider plan).1.store ∧
      (compile e s main (some settings) provider).result =
        (treeRun e s main settings provider plan).2.mapError .file := by
  unfold resolved at hu he
  simp only [compile, Project.settings, compileWith, hu, Bool.false_eq_true, if_false,
    List.partition_eq_filter_filter, he, hd]
  exact ⟨rfl, rfl, rfl⟩

/-- A path that cannot be asked for ends the run. -/
theorem compile_of_unusable (hu : (resolved s main settings).hasUnusablePath = true) :
    (compile e s main (some settings) provider).result = .error (.file .zeroCharacter) := by
  unfold resolved at hu
  simp only [compile, Project.settings, compileWith, hu, if_true]

/-- **No diagnostic is lost, and an error stops the run.** Compile a root spec under given settings, where
no text of a file, no name of the root and no extension of spec files holds a NUL.

The files that count are those that one comes to from the root in the graph of includes, each of them once,
on the first way to it. If there is an error in their texts, or an include of theirs fails, or the root
cannot be read, then no call is made, no file is changed, and the errors of the result are these errors, one
line each. If there is none, the resolved tree is compiled, and the result is what comes of that. -/
theorem compile_diagnostics (e : Surroundings) (s : Store) (main : String) (settings : Settings)
    (provider : Request → Except Failure Expansion) (hs : TextsUsable s)
    (hx : IsUsable settings.specExtension) (hm : IsUsable main) :
    (files (visits s.reader settings.specExtension (Path.normalize main))).Nodup ∧
    (∀ path, path ∈ files (visits s.reader settings.specExtension (Path.normalize main)) ↔
      (s.reader.read? (Path.normalize main)).isSome = true ∧
        ReflTransGen (Edge s.reader settings.specExtension (Path.normalize main))
          (Path.normalize main) path) ∧
    (errorsOf s main settings ≠ [] →
      (compile e s main (some settings) provider).requests = [] ∧
      (compile e s main (some settings) provider).store = s ∧
      ∃ report, (compile e s main (some settings) provider).result = .ok report ∧ report.nodes = [] ∧
        report.errors.Perm ((errorsOf s main settings).map Diagnostic.format)) ∧
    (errorsOf s main settings = [] →
      ∃ plan output, directories s main settings = .ok (plan, output) ∧
        (compile e s main (some settings) provider).requests =
          (treeRun e s main settings provider plan).1.requests ∧
        (compile e s main (some settings) provider).store =
          (treeRun e s main settings provider plan).1.store ∧
        (compile e s main (some settings) provider).result =
          (treeRun e s main settings provider plan).2.mapError .file) := by
  have hu : (resolved s main settings).hasUnusablePath = false :=
    Include.resolveFile_usable (hs.readable hx) hm
  have hperm := errors_perm s main settings
  refine ⟨Include.nodup_files_fresh _ _, fun path => Include.mem_visits_iff, fun he => ?_, fun he => ?_⟩
  · have he' : (resolved s main settings).problems.filter Diagnostic.isError ≠ [] := fun h =>
      he (List.nil_perm.1 (h ▸ hperm))
    obtain ⟨hrequests, hstore, hresult⟩ := compile_of_errors e provider hu he'
    exact ⟨hrequests, hstore, _, hresult, rfl, hperm.map _⟩
  · have he' : (resolved s main settings).problems.filter Diagnostic.isError = [] :=
      List.perm_nil.1 (he ▸ hperm)
    exact ⟨_, _, directories_of_usable hm, compile_of_none e provider hu he' (directories_of_usable hm)⟩

/-! ## A root spec that includes itself -/

/-- A root spec with one include. -/
def selfStore : Store := ⟨[(["a.aid"], .file (.text "include a;"))]⟩

def selfSpan : Spec.Span := ⟨"/a.aid", ⟨1, 1, 0⟩, ⟨1, 11, 10⟩⟩

theorem parseSource_selfStore :
    (Spec.parseSource "/a.aid" "include a;").document.children = [.inclusion "a" selfSpan] ∧
      (Spec.parseSource "/a.aid" "include a;").problems = [] := by
  have hr : Spec.readStatement "/a.aid" (Spec.tokenize "include a;").tokens =
      ⟨some (.inclusion "a" selfSpan), [⟨.eof, "", ⟨1, 11, 10⟩⟩], []⟩ := by cbv
  exact Spec.parseSource_one (show Spec.tokenize "include a;" = ⟨_, []⟩ by cbv) (by cbv) (by cbv)
    (by cbv; decide) hr

theorem read_selfStore : selfStore.reader.read? "/a.aid" = some "include a;" := by
  cbv

theorem textsUsable_selfStore : TextsUsable selfStore := by
  intro place text h
  cases List.mem_singleton.1 h
  unfold IsUsable
  decide

/-- If no file is come to by the include, all that can be wrong is the include itself. -/
theorem problemsOf_selfStore (extension : String)
    (h : Include.ways selfStore.reader extension ["/a.aid"] (Include.target extension "/" "a") = []) :
    problemsOf selfStore.reader extension "/a.aid" =
      Include.failure selfStore.reader extension "/" ["/a.aid"] ("a", selfSpan) := by
  have hdirectory : Path.directory "/a.aid" = "/" := by decide +kernel
  have hincludes : Include.includes (Spec.parseSource "/a.aid" "include a;").document.children =
      [("a", selfSpan)] := by
    rw [parseSource_selfStore.1]
    simp [Include.includes]
  have hvisits : visits selfStore.reader extension "/a.aid" = [⟨"/a.aid", []⟩] := by
    rw [visits, Include.fresh_ways List.not_mem_nil List.not_mem_nil read_selfStore, hincludes, hdirectory,
      Include.waysBy, List.flatMap_singleton, h]
    simp [Include.fresh]
  rw [problemsOf, read_selfStore, hvisits, List.flatMap_singleton,
    Include.Way.problems_of_read read_selfStore, parseSource_selfStore.2, hincludes, hdirectory,
    List.flatMap_singleton]
  rfl

def leastSurroundings : Surroundings :=
  { run := "1", provider := "none", pace := .prompt, digest := id, stamp := "", began := ⟨0⟩, ended := ⟨0⟩ }

/-- It expands every node into nothing. -/
def leastProvider : Request → Except Failure Expansion := fun _ => .ok {}

theorem normalize_selfStore : Path.normalize "/a.aid" = "/a.aid" := by decide +kernel

theorem isRemote_selfStore : Include.isRemote "a" = false := by cbv

theorem errorsOf_selfStore : errorsOf selfStore "/a.aid" {} = [⟨.circularImport "/a.aid", selfSpan⟩] := by
  have htarget : Include.target ".aid" "/" "a" = "/a.aid" := by decide +kernel
  have hproblems := problemsOf_selfStore ".aid"
    (by rw [htarget]; exact Include.ways_of_mem List.mem_cons_self)
  rw [errorsOf, normalize_selfStore, hproblems, Include.failure, htarget, if_neg (by simp [isRemote_selfStore]),
    if_pos List.mem_cons_self]
  rfl

/-- The include that leads back is told, once. -/
theorem compile_diagnostics_selfStore :
    TextsUsable selfStore ∧ IsUsable ({} : Settings).specExtension ∧ IsUsable "/a.aid" ∧
      (compile leastSurroundings selfStore "/a.aid" (some {}) leastProvider).requests = [] ∧
      ∃ report, (compile leastSurroundings selfStore "/a.aid" (some {}) leastProvider).result = .ok report ∧
        report.errors = ["/a.aid:1:1: error: Circular import detected: /a.aid"] := by
  have hx : IsUsable ({} : Settings).specExtension := by
    unfold IsUsable
    decide
  have hm : IsUsable "/a.aid" := by
    unfold IsUsable
    decide
  obtain ⟨hrequests, -, report, hresult, -, herrors⟩ := (compile_diagnostics leastSurroundings selfStore "/a.aid"
    {} leastProvider textsUsable_selfStore hx hm).2.2.1 (by rw [errorsOf_selfStore]; simp)
  refine ⟨textsUsable_selfStore, hx, hm, hrequests, report, hresult, ?_⟩
  rw [errorsOf_selfStore] at herrors
  rw [List.perm_singleton.1 herrors]
  decide +kernel

theorem errorsOf_selfStore_zero : errorsOf selfStore "/a.aid" { specExtension := "\x00" } =
    [⟨.unreadableImport "/a\x00", selfSpan⟩] := by
  have htarget : Include.target "\x00" "/" "a" = "/a\x00" := by decide +kernel
  have hread : selfStore.reader.read? "/a\x00" = none := by cbv
  have hproblems := problemsOf_selfStore "\x00"
    (by rw [htarget]; exact Include.ways_of_unreadable hread)
  rw [errorsOf, normalize_selfStore, hproblems, Include.failure, htarget, if_neg (by simp [isRemote_selfStore]),
    if_neg (by decide), if_pos (by simp [hread])]
  rfl

/-- The include cannot be read and is not told, for its path holds a NUL that is the extension of spec
files. -/
theorem unusablePath_not_told :
    errorsOf selfStore "/a.aid" { specExtension := "\x00" } = [⟨.unreadableImport "/a\x00", selfSpan⟩] ∧
      (compile leastSurroundings selfStore "/a.aid" (some { specExtension := "\x00" }) leastProvider).result =
        .error (.file .zeroCharacter) := by
  have herrors := errorsOf_selfStore_zero
  have hzero : "/a\x00".contains '\x00' = true := by simp
  refine ⟨herrors, compile_of_unusable
    (List.any_eq_true.2 ⟨⟨.unreadableImport "/a\x00", selfSpan⟩, ?_, hzero⟩)⟩
  refine List.mem_of_mem_filter ((errors_perm selfStore "/a.aid" { specExtension := "\x00" }).mem_iff.2 ?_)
  rw [herrors]
  exact List.mem_singleton_self _

end SpecTree.Project
