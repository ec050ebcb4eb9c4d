import Mathlib.Data.List.Nodup
import SpecTree.Proofs.Include.Usable
import SpecTree.Proofs.Path.Spelling

/-!
# Every file is read once

`opened` lists the files that a resolution opens, in order. It asks for no others: with any reader that agrees
on them it goes the same way (`Resolves.congr`).

1. A file that is opened is counted, and it is taken in or fails (`Resolves.accounts`). While the session is
   inside of a file, that file is not taken in.
2. What is opened has an absolute path (`Resolves.isAbsolute_of_mem`).
3. `resolveFile_reads`: the reads of a resolution are the first file, one for each file that is taken in, and
   one for each failure. An include that is remote, leads back or was taken in before adds none.
-/

namespace SpecTree.Include

open Spec

variable {r : Reader} {base written : String} {span : Span} {s : Session}

/-! ## The files that are opened -/

/-- For this include the session has to open a file. -/
def Session.Asks (s : Session) (base written : String) : Prop :=
  isRemote written = false ∧ target s.extension base written ∉ s.resolving ∧
    s.cached? (target s.extension base written) = none

instance (s : Session) (base written : String) : Decidable (s.Asks base written) :=
  have : Decidable (s.cached? (target s.extension base written) = none) :=
    decidable_of_iff _ Option.isNone_iff_eq_none
  inferInstanceAs (Decidable (_ ∧ _ ∧ _))

/-- The files that are opened while the statements are resolved, in order. -/
def opened (r : Reader) (base : String) (statements : List Statement) (s : Session) : List String :=
  match statements with
  | [] => []
  | .inclusion written span :: rest =>
    let path := target s.extension base written
    let here :=
      if ha : s.Asks base written then
        path :: match hr : r.read? path with
          | none => []
          | some content =>
            if path.endsWith s.extension then
              have hroom : r.room (path :: s.resolving) < r.room s.resolving :=
                Reader.room_cons_lt hr ha.2.1
              opened r (Path.directory path) (parseSource path content).document.children
                (s.goInside path content)
            else []
      else []
    let after := resolveAll r base [.inclusion written span] s
    have hroom : r.room after.1.2.resolving = r.room s.resolving := by rw [after.2]
    here ++ opened r base rest after.1.2
  | .module _ children _ :: rest =>
    let after := resolveAll r base children s
    have hroom : r.room after.1.2.resolving = r.room s.resolving := by rw [after.2]
    opened r base children s ++ opened r base rest after.1.2
  | _ :: rest => opened r base rest s
termination_by (r.room s.resolving, sizeOf statements)
decreasing_by
  · exact Prod.Lex.left _ _ hroom
  · rw [hroom]
    exact Prod.Lex.right _ (by simp only [List.cons.sizeOf_spec]; omega)
  · exact Prod.Lex.right _
      (by simp only [List.cons.sizeOf_spec, Statement.module.sizeOf_spec]; omega)
  · rw [hroom]
    exact Prod.Lex.right _ (by simp only [List.cons.sizeOf_spec]; omega)
  · exact Prod.Lex.right _ (by simp only [List.cons.sizeOf_spec]; omega)

theorem resolveAll_eq {statements out : List Statement} {after : Session}
    (h : Resolves r base statements s out after) : (resolveAll r base statements s).1 = (out, after) := by
  obtain ⟨hout, hafter⟩ := h.unique (resolves r base statements s)
  exact Prod.ext hout hafter

theorem opened_answer {rest out : List Statement} {mid : Session}
    (here : Answers r base written span s out mid) :
    opened r base (.inclusion written span :: rest) s =
      (if s.Asks base written then [target s.extension base written] else []) ++ opened r base rest mid := by
  have hrun : (resolveAll r base [.inclusion written span] s).1 = (out ++ [], mid) :=
    resolveAll_eq (.answer here (.nil base mid))
  rw [opened]
  dsimp only
  rw [hrun]
  congr 1
  split
  · congr 1
    next ha =>
    split
    · rfl
    · next content hr =>
      rw [if_neg]
      simp [here.not_spec ha.1 ha.2.1 ha.2.2 hr]
  · rfl

theorem opened_spec {rest children : List Statement} {mid : Session} {content : String}
    (ha : s.Asks base written) (hr : r.read? (target s.extension base written) = some content)
    (he : (target s.extension base written).endsWith s.extension = true)
    (inside : Resolves r (Path.directory (target s.extension base written))
      (parseSource (target s.extension base written) content).document.children
      (s.goInside (target s.extension base written) content) children mid) :
    opened r base (.inclusion written span :: rest) s =
      target s.extension base written ::
        (opened r (Path.directory (target s.extension base written))
          (parseSource (target s.extension base written) content).document.children
          (s.goInside (target s.extension base written) content) ++
        opened r base rest (mid.comeOut (target s.extension base written) written content children)) := by
  have hrun := resolveAll_eq (.spec span ha.1 ha.2.1 ha.2.2 hr he inside (.nil base _))
  rw [opened]
  dsimp only
  rw [hrun, dif_pos ha, List.cons_append]
  congr 2
  split
  · next hn => cases hr.symm.trans hn
  · next found hf =>
    cases hr.symm.trans hf
    rw [if_pos he]

theorem opened_module {header : Header} {children inner rest : List Statement} {mid : Session}
    (inside : Resolves r base children s inner mid) :
    opened r base (.module header children span :: rest) s =
      opened r base children s ++ opened r base rest mid := by
  rw [opened, resolveAll_eq inside]

theorem opened_other {one : Statement} {rest : List Statement}
    (hi : ∀ written span, one ≠ .inclusion written span)
    (hm : ∀ header children span, one ≠ .module header children span) :
    opened r base (one :: rest) s = opened r base rest s := by
  cases one with
  | inclusion written span => exact absurd rfl (hi written span)
  | module header children span => exact absurd rfl (hm header children span)
  | _ => rw [opened] <;> simp

/-! ## Accounts -/

/-- The files that could not be read, in the order of the problems. -/
def unread (ds : List Diagnostic) : List String :=
  ds.filterMap fun d =>
    match d.problem with
    | .unreadableImport path => some path
    | _ => none

@[simp] theorem unread_nil : unread [] = [] := rfl

@[simp] theorem unread_append (ds ds' : List Diagnostic) : unread (ds ++ ds') = unread ds ++ unread ds' :=
  List.filterMap_append

/-- What is wrong with one text names no file. -/
theorem unread_eq_nil_of_isLocal {ds : List Diagnostic} (h : ∀ d ∈ ds, d.problem.isLocal = true) :
    unread ds = [] := by
  refine List.filterMap_eq_nil_iff.2 fun d hd => ?_
  have hlocal := h d hd
  split
  · next hp =>
    rw [hp] at hlocal
    cases hlocal
  · rfl

theorem unread_parseSource (file content : String) : unread (parseSource file content).problems = [] :=
  unread_eq_nil_of_isLocal fun _ => parseSource_problems_isLocal

/-- The session went from `s` to `after` by opening the files `paths`, in this order. -/
structure Accounts (r : Reader) (s after : Session) (paths : List String) : Prop where
  reads : after.reads = s.reads + paths.length
  taken : after.imports.names.Perm (s.imports.names ++ paths.filter fun p => (r.read? p).isSome)
  failed : unread after.problems = unread s.problems ++ paths.filter fun p => (r.read? p).isNone
  /-- A file is not taken in before the session is out of it. -/
  inside : ∀ p ∈ s.resolving, s.cached? p = none → after.cached? p = none

namespace Accounts

variable {mid after : Session} {paths paths' : List String}

theorem refl (r : Reader) (s : Session) : Accounts r s s [] where
  reads := rfl
  taken := by simp
  failed := by simp
  inside _ _ hc := hc

theorem trans (h : Accounts r s mid paths) (k : Accounts r mid after paths')
    (hresolving : mid.resolving = s.resolving) : Accounts r s after (paths ++ paths') where
  reads := by rw [k.reads, h.reads, List.length_append, Nat.add_assoc]
  taken := by
    rw [List.filter_append, ← List.append_assoc]
    exact k.taken.trans (h.taken.append_right _)
  failed := by rw [k.failed, h.failed, List.filter_append, List.append_assoc]
  inside p hp hc := k.inside p (hresolving ▸ hp) (h.inside p hp hc)

/-- Problems that name no file change nothing. -/
theorem report {ds : List Diagnostic} (h : unread ds = []) : Accounts r s (s.report ds) [] where
  reads := rfl
  taken := by simp [Session.report]
  failed := by simp [Session.report, h]
  inside _ _ hc := hc

theorem unreadable {path : String} (hr : r.read? path = none) :
    Accounts r s (s.countRead.report [⟨.unreadableImport path, span⟩]) [path] where
  reads := rfl
  taken := by simp [Session.report, Session.countRead, hr]
  failed := by simp [Session.report, Session.countRead, hr, unread]
  inside _ _ hc := hc

end Accounts

/-- A file that is taken in for the first time. -/
theorem names_store {path : String} (hc : s.cached? path = none) (i : Import) :
    (s.store path i).imports.names = s.imports.names ++ [path] := by
  have hnew : path ∉ s.imports.names := by
    rw [Table.mem_names_iff, show s.imports.get? path = none from hc]
    simp
  rw [Session.store, Table.names_put, if_neg hnew]

theorem Accounts.text {path content : String} {i : Import} (hn : path ∉ s.resolving)
    (hc : s.cached? path = none) (hr : r.read? path = some content) :
    Accounts r s (s.countRead.store path i) [path] where
  reads := rfl
  taken := by
    rw [names_store (s := s.countRead) hc]
    simp [Session.countRead, hr]
  failed := by simp [Session.store, Session.countRead, hr]
  inside p hp hp' := by
    rw [Session.cached?, Session.store, Table.get?_put, if_neg (ne_of_mem_of_not_mem hp hn)]
    exact hp'

/-- A spec file counts before the files that are opened inside of it, and is taken in after them. -/
theorem Accounts.spec {mid : Session} {path content : String} {paths : List String}
    {children : List Statement} (hn : path ∉ s.resolving) (hc : s.cached? path = none)
    (hr : r.read? path = some content) (h : Accounts r (s.goInside path content) mid paths) :
    Accounts r s (mid.comeOut path written content children) (path :: paths) where
  reads := by
    calc mid.reads = s.reads + 1 + paths.length := h.reads
      _ = s.reads + (path :: paths).length := by rw [List.length_cons]; omega
  taken := by
    have hmid : mid.cached? path = none := h.inside path List.mem_cons_self hc
    have hnames : (mid.comeOut path written content children).imports.names =
      mid.imports.names ++ [path] := names_store hmid _
    rw [hnames, List.filter_cons_of_pos (by simp [hr])]
    refine (h.taken.append_right [path]).trans ?_
    rw [List.append_assoc]
    exact (List.perm_append_singleton path _).append_left s.imports.names
  failed := by
    refine h.failed.trans ?_
    simp [Session.goInside, Session.report, Session.countRead, unread_parseSource, hr]
  inside p hp hp' := by
    rw [Session.cached?_comeOut, if_neg (ne_of_mem_of_not_mem hp hn)]
    exact h.inside p (List.mem_cons_of_mem _ hp) hp'

theorem Answers.accounts {out : List Statement} {after : Session}
    (h : Answers r base written span s out after) :
    Accounts r s after (if s.Asks base written then [target s.extension base written] else []) := by
  cases h with
  | remote hw =>
    rw [if_neg fun ha : s.Asks base written => by simp [ha.1] at hw]
    exact .report rfl
  | circular hw hn =>
    rw [if_neg fun ha : s.Asks base written => ha.2.1 hn]
    exact .report rfl
  | cached hw hn hc =>
    rw [if_neg fun ha : s.Asks base written => by simp [ha.2.2] at hc]
    exact .refl r s
  | unreadable hw hn hc hr =>
    rw [if_pos ⟨hw, hn, hc⟩]
    exact .unreadable hr
  | text hw hn hc hr he =>
    rw [if_pos ⟨hw, hn, hc⟩]
    exact .text hn hc hr

/-- **Every opened file is accounted for**: the session counts it, and it is taken in or fails. -/
theorem Resolves.accounts {statements out : List Statement} {after : Session}
    (h : Resolves r base statements s out after) : Accounts r s after (opened r base statements s) := by
  induction h with
  | nil base s =>
    rw [opened]
    exact .refl r s
  | answer here there ih =>
    rw [opened_answer here]
    exact here.accounts.trans ih here.resolving_eq
  | spec span hw hn hc hr he inside there ihi iht =>
    rw [opened_spec ⟨hw, hn, hc⟩ hr he inside, ← List.cons_append]
    exact (ihi.spec hn hc hr).trans iht (Session.comeOut_resolving inside.resolving_eq _ _ _)
  | module inside there ihi iht =>
    rw [opened_module inside]
    exact ihi.trans iht inside.resolving_eq
  | other hi hm there ih =>
    rw [opened_other hi hm]
    exact ih

/-- An include that is remote, leads back, or was taken in before opens no file. -/
theorem reads_of_not_asks (r : Reader) (span : Span) (h : ¬ s.Asks base written) :
    (resolveAll r base [.inclusion written span] s).1.2.reads = s.reads := by
  have hopened : opened r base [.inclusion written span] s = [] := by
    rw [opened]
    simp [h, opened]
  simpa [hopened] using (resolves r base [.inclusion written span] s).accounts.reads

/-! ## Nothing else is asked for -/

section

variable {r' : Reader}

/-- The readers agree on the files `paths`. -/
def AgreesOn (r r' : Reader) (paths : List String) : Prop := ∀ p ∈ paths, r'.read? p = r.read? p

theorem agreesOn_append {paths paths' : List String} :
    AgreesOn r r' (paths ++ paths') ↔ AgreesOn r r' paths ∧ AgreesOn r r' paths' := List.forall_mem_append

theorem Answers.congr {out : List Statement} {after : Session} (h : Answers r base written span s out after)
    (hr : AgreesOn r r' (if s.Asks base written then [target s.extension base written] else [])) :
    Answers r' base written span s out after := by
  cases h with
  | remote hw => exact .remote hw
  | circular hw hn => exact .circular hw hn
  | cached hw hn hc => exact .cached hw hn hc
  | unreadable hw hn hc hread =>
    rw [if_pos ⟨hw, hn, hc⟩] at hr
    exact .unreadable hw hn hc ((hr _ List.mem_cons_self).trans hread)
  | text hw hn hc hread he =>
    rw [if_pos ⟨hw, hn, hc⟩] at hr
    exact .text hw hn hc ((hr _ List.mem_cons_self).trans hread) he

/-- **A resolution asks for the files that it opens, and for no others.** -/
theorem Resolves.congr {statements out : List Statement} {after : Session}
    (h : Resolves r base statements s out after) (hr : AgreesOn r r' (opened r base statements s)) :
    Resolves r' base statements s out after := by
  induction h with
  | nil base s => exact .nil base s
  | answer here there ih =>
    rw [opened_answer here, agreesOn_append] at hr
    exact .answer (here.congr hr.1) (ih hr.2)
  | spec span hw hn hc hread he inside there ihi iht =>
    rw [opened_spec ⟨hw, hn, hc⟩ hread he inside] at hr
    obtain ⟨hpath, hr⟩ := List.forall_mem_cons.1 hr
    obtain ⟨hinside, hthere⟩ := agreesOn_append.1 hr
    exact .spec span hw hn hc (hpath.trans hread) he (ihi hinside) (iht hthere)
  | module inside there ihi iht =>
    rw [opened_module inside, agreesOn_append] at hr
    exact .module (ihi hr.1) (iht hr.2)
  | other hi hm there ih =>
    rw [opened_other hi hm] at hr
    exact .other hi hm (ih hr)

end

/-! ## What is opened has an absolute path -/

theorem isAbsolute_target (extension : String) (hb : Path.IsAbsolute base) (written : String) :
    Path.IsAbsolute (target extension base written) := (hb.join _).normalize

theorem Resolves.isAbsolute_of_mem {statements out : List Statement} {after : Session}
    (h : Resolves r base statements s out after) (hb : Path.IsAbsolute base) :
    ∀ p ∈ opened r base statements s, Path.IsAbsolute p := by
  induction h with
  | nil base s =>
    rw [opened]
    exact List.forall_mem_nil _
  | @answer base written span rest out later s mid after here there ih =>
    rw [opened_answer here]
    refine List.forall_mem_append.2 ⟨fun p hp => ?_, ih hb⟩
    split at hp
    · exact List.mem_singleton.1 hp ▸ isAbsolute_target _ hb written
    · cases hp
  | @spec base written content span rest children later s mid after hw hn hc hr he inside there
      ihi iht =>
    have hpath : Path.IsAbsolute (target s.extension base written) := isAbsolute_target _ hb written
    rw [opened_spec ⟨hw, hn, hc⟩ hr he inside]
    exact List.forall_mem_cons.2 ⟨hpath, List.forall_mem_append.2 ⟨ihi hpath.directory, iht hb⟩⟩
  | module inside there ihi iht =>
    rw [opened_module inside]
    exact List.forall_mem_append.2 ⟨ihi hb, iht hb⟩
  | other hi hm there ih =>
    rw [opened_other hi hm]
    exact ih hb

/-! ## Files -/

/-- The files that are opened to resolve the file `root`, in order. -/
def openedBy (r : Reader) (extension root : String) : List String :=
  root :: match r.read? root with
    | none => []
    | some content => opened r (Path.directory root) (parseSource root content).document.children
        (({ extension } : Session).begin root)

section

variable {r' : Reader} {extension file : String}

/-- The first file is counted and stays open; what is opened after it is accounted for. -/
theorem resolveFile_accounts (r : Reader) (extension file : String) :
    ∃ paths, openedBy r extension (Path.normalize file) = Path.normalize file :: paths ∧
      Accounts r (({ extension } : Session).begin (Path.normalize file))
        (resolveFile r file { extension }).2 paths := by
  unfold openedBy
  refine ⟨_, rfl, ?_⟩
  cases hread : r.read? (Path.normalize file) with
  | none =>
    rw [resolveFile_unreadable _ hread]
    exact ⟨rfl, .refl _, rfl, fun _ _ hc => hc⟩
  | some content =>
    have run := resolves r (Path.directory (Path.normalize file))
      (parseSource (Path.normalize file) content).document.children
      (({ extension } : Session).begin (Path.normalize file))
    rw [resolveFile_of_resolves hread run]
    exact ⟨run.accounts.reads, run.accounts.taken, run.accounts.failed, run.accounts.inside⟩

/-- The problems of the first file itself name no other file. -/
theorem unread_resolveFile (r : Reader) (extension file : String) :
    unread (resolveFile r file { extension }).1.problems =
      unread (resolveFile r file { extension }).2.problems := by
  cases hread : r.read? (Path.normalize file) with
  | none =>
    rw [resolveFile_unreadable _ hread]
    rfl
  | some content =>
    rw [resolveFile_of_resolves hread (resolves r _ _ _)]
    simp [Resolved.of, unread_parseSource, Session.leave]

theorem resolveFile_congr
    (hr : AgreesOn r r' (openedBy r extension (Path.normalize file))) :
    resolveFile r' file { extension } = resolveFile r file { extension } := by
  have hroot : r'.read? (Path.normalize file) = r.read? (Path.normalize file) := hr _ List.mem_cons_self
  cases hread : r.read? (Path.normalize file) with
  | none => rw [resolveFile_unreadable _ hread, resolveFile_unreadable _ (hroot.trans hread)]
  | some content =>
    have run := resolves r (Path.directory (Path.normalize file))
      (parseSource (Path.normalize file) content).document.children
      (({ extension } : Session).begin (Path.normalize file))
    rw [openedBy, hread] at hr
    rw [resolveFile_of_resolves hread run,
      resolveFile_of_resolves (hroot.trans hread) (run.congr (List.forall_mem_cons.1 hr).2)]

theorem isAbsolute_of_mem_openedBy (hf : Path.IsAbsolute file) :
    ∀ p ∈ openedBy r extension (Path.normalize file), Path.IsAbsolute p := by
  refine List.forall_mem_cons.2 ⟨hf.normalize, ?_⟩
  split
  · exact List.forall_mem_nil _
  · exact (resolves r _ _ _).isAbsolute_of_mem hf.normalize.directory

/-- **Every file is read once, and every read is accounted for.** -/
theorem resolveFile_reads (r : Reader) (extension : String) {file : String} (hf : Path.IsAbsolute file) :
    let root := Path.normalize file
    let result := resolveFile r file { extension }
    result.2.reads =
        1 + result.2.imports.names.length + (unread result.1.problems).length ∧
      result.2.reads = (openedBy r extension root).length ∧
      (∀ path ∈ result.2.imports.names, Path.IsAbsolute path ∧ path ≠ root ∧
        (r.read? path).isSome = true ∧ (openedBy r extension root).count path = 1) ∧
      (∀ r' : Reader, AgreesOn r r' (openedBy r extension root) →
        resolveFile r' file { extension } = result) ∧
      ∀ (base written : String) (span : Span) (s : Session),
        (isRemote written = true ∨ target s.extension base written ∈ s.resolving ∨
          (s.cached? (target s.extension base written)).isSome = true) →
        (resolveAll r base [.inclusion written span] s).1.2.reads = s.reads := by
  intro root result
  obtain ⟨paths, hopened, h⟩ := resolveFile_accounts r extension file
  have hreads : result.2.reads = 1 + paths.length := h.reads
  have hnames : result.2.imports.names.Perm (paths.filter fun p => (r.read? p).isSome) := h.taken
  have hfailed : unread result.1.problems = paths.filter fun p => (r.read? p).isNone :=
    (unread_resolveFile r extension file).trans h.failed
  refine ⟨?_, ?_, fun path hpath => ?_, fun r' hr => resolveFile_congr hr, ?_⟩
  · have hsplit := List.length_eq_length_filter_add (l := paths) fun p => (r.read? p).isSome
    simp only [Option.not_isSome] at hsplit
    rw [hreads, hsplit, hnames.length_eq, hfailed, Nat.add_assoc]
  · rw [hreads, hopened, List.length_cons, Nat.add_comm]
  · obtain ⟨hmem, hsome⟩ := List.mem_filter.1 (hnames.subset hpath)
    have hne : path ≠ root := by
      rintro rfl
      have hcached := (Table.mem_names_iff _ _).1 hpath
      rw [show result.2.imports.get? root = none from h.inside _ List.mem_cons_self rfl] at hcached
      cases hcached
    refine ⟨isAbsolute_of_mem_openedBy hf path (hopened ▸ List.mem_cons_of_mem _ hmem), hne, hsome, ?_⟩
    calc (openedBy r extension root).count path = paths.count path := by
          rw [hopened, List.count_cons_of_ne hne.symm]
      _ = (paths.filter fun p => (r.read? p).isSome).count path := by
          rw [List.count_filter (p := fun p => (r.read? p).isSome) hsome]
      _ = result.2.imports.names.count path := (hnames.count_eq path).symm
      _ = 1 := List.count_eq_one_of_mem result.2.imports.distinct hpath
  · intro base written span s hs
    refine reads_of_not_asks r span fun ha => ?_
    rcases hs with hw | hn | hc
    · exact absurd (ha.1.symm.trans hw) (by simp)
    · exact ha.2.1 hn
    · rw [ha.2.2] at hc
      cases hc

/-- An include that is written twice, and one that is missing. -/
theorem resolveFile_reads_repeated :
    let r := Reader.ofList [("/main.aid", "include a;include a;include b;"), ("/a.aid", "include main;")]
    let result := resolveFile r "/main.aid" { extension := ".aid" }
    Path.IsAbsolute "/main.aid" ∧
      result.2.reads = 1 + result.2.imports.names.length + (unread result.1.problems).length ∧
      result.2.reads = (openedBy r ".aid" (Path.normalize "/main.aid")).length :=
  have h := resolveFile_reads (.ofList [("/main.aid", "include a;include a;include b;"),
    ("/a.aid", "include main;")]) ".aid" (by decide : Path.IsAbsolute "/main.aid")
  ⟨by decide, h.1, h.2.1⟩

end

end SpecTree.Include
