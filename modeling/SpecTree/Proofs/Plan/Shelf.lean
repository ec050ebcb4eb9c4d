import Mathlib.Logic.Function.Basic
import SpecTree.Plan.Artifacts
import SpecTree.Proofs.Plan.Names
import SpecTree.Proofs.Store.Write

/-!
# What a plan directory holds

A shelf has the artifacts of each node, by the names from the root down to it. `Shelved` says that a
store holds below a directory the artifacts of a shelf and nothing else.

1. Each artifact has a file name of its own, which no node has (`not_isNodeName_fileName`), and a
   path that is spelled from the names (`artifactPath_eq_spell`).
2. One more node (`Shelved.add`), another artifact of a node (`Shelved.put`), and a node gone with
   all below it (`Shelved.wipe`) change the store at the places that belong to them.
-/

namespace SpecTree.Plan

open SpecTree.Path Store

/-! ## Artifacts -/

/-- The artifacts of one node. -/
structure Papers where
  spec : String
  context : Option Context := none
  questions : Option Questionnaire := none
  record : Option Record := none

inductive Artifact where
  | spec
  | context
  | questions
  | record
  deriving DecidableEq

namespace Artifact

def suffix : Artifact → String
  | .spec => ""
  | .context => contextSuffix
  | .questions => questionsSuffix
  | .record => metaSuffix

/-- The name of a node's plan file. -/
def planFile (names : List String) : String := if names = [] then rootFile else nodeFile

def fileName (a : Artifact) (names : List String) : String := planFile names ++ a.suffix

def path (a : Artifact) (directory : String) (names : List String) : String :=
  planPath directory (nodePath (rootName :: names)) ++ a.suffix

end Artifact

/-- The text of an artifact, if there is one. -/
def Papers.text? (q : Papers) : Artifact → Option String
  | .spec => some q.spec
  | .context => q.context.map contextText
  | .questions => q.questions.map questionsText
  | .record => q.record.map recordText

variable {names : List String}

theorem Artifact.fileName_cases (a : Artifact) (names : List String) :
    a.fileName names = rootFile ++ a.suffix ∨ a.fileName names = nodeFile ++ a.suffix := by
  unfold fileName planFile
  split
  · exact .inl rfl
  · exact .inr rfl

theorem Artifact.isFileName (a : Artifact) (names : List String) : IsFileName (a.fileName names) := by
  rcases a.fileName_cases names with h | h <;> rw [h] <;> cases a <;>
    exact ⟨⟨by decide, by decide, by decide⟩, ⟨by decide, by decide⟩, by decide⟩

theorem not_isNodeName_fileName (a : Artifact) (names : List String) :
    ¬ IsNodeName (a.fileName names) := by
  intro h
  have hd : '.' ∈ (a.fileName names).toList := by
    rcases a.fileName_cases names with h | h <;> rw [h] <;> cases a <;> decide
  exact absurd (h.isNameChar '.' hd) (by decide)

/-- Different artifacts have different file names, also those of different nodes. -/
theorem Artifact.fileName_injective {a b : Artifact} {names' : List String}
    (h : a.fileName names = b.fileName names') : a = b := by
  rcases a.fileName_cases names with ha | ha <;> rcases b.fileName_cases names' with hb | hb <;>
    rw [ha, hb] at h <;> cases a <;> cases b <;> first | rfl | exact absurd h (by decide)

/-! ## Paths of artifacts -/

theorem isComponent_of_isNodeName {n : String} (h : IsNodeName n) : IsComponent n where
  ne_nil := h.ne_nil
  slash_not_mem := slash_not_mem h
  ne_here := fun e => by
    have hd : '.' ∈ n.toList := by rw [e]; decide
    exact absurd (h.isNameChar '.' hd) (by decide)

theorem isFileName_of_isNodeName {n : String} (h : IsNodeName n) (hs : n.utf8ByteSize ≤ nameLimit) :
    IsFileName n where
  toIsComponent := isComponent_of_isNodeName h
  plain := ⟨hs, fun e => by
    have hd : '.' ∈ n.toList := by rw [e]; decide
    exact absurd (h.isNameChar '.' hd) (by decide)⟩
  zero_not_mem := fun hz => absurd (h.isNameChar _ hz) (by decide)

theorem parts_intercalate (h : ∀ n ∈ names, IsComponent n) :
    parts (String.intercalate "/" names) = names := by
  have hc : (String.intercalate "/" names).toList = Text.joinPieces '/' (names.map String.toList) := by
    rw [String.toList_intercalate, joinPieces_eq_intercalate]
    rfl
  rw [parts, hc, components_joinPieces, List.map_map]
  · exact (List.map_congr_left fun n _ => String.ofList_toList).trans (List.map_id _)
  · intro p hp
    obtain ⟨n, hn, rfl⟩ := List.mem_map.1 hp
    exact ⟨(h n hn).ne_nil, (h n hn).slash_not_mem, (h n hn).ne_here⟩

theorem not_isAbsolute_intercalate (hn : names ≠ []) (h : ∀ n ∈ names, IsComponent n) :
    isAbsoluteChars (String.intercalate "/" names).toList = false := by
  obtain ⟨n, ns, rfl⟩ := List.exists_cons_of_ne_nil hn
  have hf := h n List.mem_cons_self
  obtain ⟨c, cs, hc⟩ := List.exists_cons_of_ne_nil hf.ne_nil
  have hne : '/' ≠ c := fun e => hf.slash_not_mem (by rw [hc, ← e]; exact List.mem_cons_self)
  rw [String.toList_intercalate, isAbsoluteChars]
  cases ns <;> simp [hc, hne, List.isPrefixOf]

theorem planPath_eq_spell (directory : String) (h : ∀ n ∈ names, IsNodeName n) :
    planPath directory (nodePath (rootName :: names))
      = spell directory (names ++ [Artifact.planFile names]) := by
  have hfile (file : String) (hf : file = rootFile ∨ file = nodeFile) : IsComponent file := by
    rcases hf with rfl | rfl <;> exact ⟨by decide, by decide, by decide⟩
  by_cases h0 : names = []
  · subst h0
    rw [nodePath_root, planPath, if_pos rfl]
    exact assemble_component directory (hfile rootFile (.inl rfl))
  · have hn := hfile nodeFile (.inr rfl)
    have hc : ∀ n ∈ names, IsComponent n := fun n hm => isComponent_of_isNodeName (h n hm)
    rw [nodePath_of_ne_nil h0 h, planPath, if_neg (intercalate_ne_rootName h0 h), Artifact.planFile,
      if_neg h0]
    refine assemble_eq_spell (by simp) (fun n hm => ?_) (fun p hp => ?_) ?_
    · rcases List.mem_append.1 hm with hm | hm
      · exact hc n hm
      · rw [List.mem_singleton.1 hm]
        exact hn
    · rcases List.mem_cons.1 hp with rfl | hp
      · exact not_isAbsolute_intercalate h0 hc
      · rw [List.mem_singleton.1 hp]
        exact not_isAbsolute_component hn
    · simp [parts_component hn, parts_intercalate hc]

/-- **The path of an artifact is spelled from the names of its node.** -/
theorem artifactPath_eq_spell (a : Artifact) (directory : String) (h : ∀ n ∈ names, IsNodeName n) :
    a.path directory names = spell directory (names ++ [a.fileName names]) := by
  rw [Artifact.path, planPath_eq_spell directory h, spell_append, Artifact.fileName]

theorem zero_not_mem_names (hn : ∀ n ∈ names, IsNodeName n) :
    ∀ n ∈ names, '\x00' ∉ n.toList :=
  fun n hm hz => absurd ((hn n hm).isNameChar _ hz) (by decide)

/-- No artifact but a node's own plan has a shorter path than its record. -/
theorem Artifact.size_spec_le (directory : String) (names : List String) :
    (Artifact.spec.path directory names).utf8ByteSize
      ≤ (Artifact.record.path directory names).utf8ByteSize := by
  rw [Artifact.path, Artifact.path, String.utf8ByteSize_append, String.utf8ByteSize_append]
  exact Nat.add_le_add_left (Nat.zero_le _) _

theorem Artifact.noZero_path (a : Artifact) {directory : String}
    (h0 : directory.contains '\x00' = false) (hn : ∀ n ∈ names, IsNodeName n) :
    (a.path directory names).contains '\x00' = false := by
  rw [artifactPath_eq_spell a directory hn]
  exact noZero_spell h0 (List.forall_mem_append.2
    ⟨zero_not_mem_names hn, List.forall_mem_singleton.2 (a.isFileName names).zero_not_mem⟩)

theorem Artifact.spells_path (a : Artifact) {directory : String}
    (h0 : directory.contains '\x00' = false) (hn : ∀ n ∈ names, IsNodeName n)
    (hs : (a.path directory names).utf8ByteSize < pathLimit) :
    Spells (a.path directory names) directory (names ++ [a.fileName names]) where
  parts := by
    rw [artifactPath_eq_spell a directory hn]
    exact parts_spell directory (List.forall_mem_append.2 ⟨fun n hm => isComponent_of_isNodeName (hn n hm),
      List.forall_mem_singleton.2 (a.isFileName names).toIsComponent⟩)
  noZero := a.noZero_path h0 hn
  size := hs

/-! ## Shelves -/

/-- The artifacts of the nodes that are there, by the names from the root down to them. -/
abbrev Shelf := List String → Option Papers

namespace Shelf

def empty : Shelf := fun _ => none

/-- Without a node and all below it. -/
def wipe (shelf : Shelf) (names : List String) : Shelf :=
  fun ns => if names <+: ns then none else shelf ns

/-- With the artifacts of one node. -/
def put (shelf : Shelf) (names : List String) (q : Papers) : Shelf :=
  Function.update shelf names (some q)

@[simp] theorem empty_apply (names : List String) : empty names = none := rfl

theorem put_apply (shelf : Shelf) (names ns : List String) (q : Papers) :
    shelf.put names q ns = if ns = names then some q else shelf ns :=
  Function.update_apply shelf names (some q) ns

@[simp] theorem put_self (shelf : Shelf) (names : List String) (q : Papers) :
    shelf.put names q names = some q := by
  rw [put_apply, if_pos rfl]

theorem put_of_ne (shelf : Shelf) {ns : List String} (h : ns ≠ names) (q : Papers) :
    shelf.put names q ns = shelf ns := by
  rw [put_apply, if_neg h]

/-- What is there afterwards is the node itself, or was there before. -/
theorem put_cases {shelf : Shelf} {ns : List String} {q p : Papers}
    (h : shelf.put names q ns = some p) : ns = names ∧ p = q ∨ ns ≠ names ∧ shelf ns = some p := by
  rw [put_apply] at h
  split at h
  · next he => exact .inl ⟨he, (Option.some.inj h).symm⟩
  · next he => exact .inr ⟨he, h⟩

/-- What was there before is there afterwards. -/
theorem exists_put {shelf : Shelf} {ns : List String} {p : Papers} (h : shelf ns = some p) (q : Papers) :
    ∃ r, shelf.put names q ns = some r := by
  rw [put_apply]
  split
  · exact ⟨q, rfl⟩
  · exact ⟨p, h⟩

theorem put_eq_self {shelf : Shelf} {q : Papers} (h : shelf names = some q) :
    shelf.put names q = shelf := by
  unfold put
  rw [← h, Function.update_eq_self]

@[simp] theorem put_put (shelf : Shelf) (names : List String) (q p : Papers) :
    (shelf.put names q).put names p = shelf.put names p := by
  unfold put
  rw [Function.update_idem]

theorem wipe_nil (shelf : Shelf) : shelf.wipe [] = empty := by
  funext ns
  rw [wipe, if_pos List.nil_prefix, empty_apply]

theorem wipe_of_prefix (shelf : Shelf) {ns : List String} (h : names <+: ns) :
    shelf.wipe names ns = none := if_pos h

theorem wipe_of_not_prefix (shelf : Shelf) {ns : List String} (h : ¬ names <+: ns) :
    shelf.wipe names ns = shelf ns := if_neg h

/-- With the artifacts of one node, and nothing below it. -/
def replace (shelf : Shelf) (names : List String) (q : Papers) : Shelf :=
  (shelf.wipe names).put names q

@[simp] theorem replace_self (shelf : Shelf) (names : List String) (q : Papers) :
    shelf.replace names q names = some q := put_self ..

theorem replace_of_not_prefix (shelf : Shelf) {ns : List String} (h : ¬ names <+: ns) (q : Papers) :
    shelf.replace names q ns = shelf ns := by
  have hne : ns ≠ names := by
    rintro rfl
    exact h (List.prefix_refl _)
  rw [replace, put_of_ne _ hne, shelf.wipe_of_not_prefix h]

/-- What is there afterwards is the node itself, or stands where it stood. -/
theorem replace_cases {shelf : Shelf} {ns : List String} {q p : Papers}
    (h : shelf.replace names q ns = some p) :
    ns = names ∧ p = q ∨ ¬ names <+: ns ∧ shelf ns = some p := by
  rcases put_cases h with h | ⟨-, h⟩
  · exact .inl h
  · by_cases hp : names <+: ns
    · rw [shelf.wipe_of_prefix hp] at h
      cases h
    · exact .inr ⟨hp, shelf.wipe_of_not_prefix hp ▸ h⟩

end Shelf

/-- A node's record has a path that is short enough, and its names are. -/
structure Fits (directory : String) (names : List String) : Prop where
  size : (Artifact.record.path directory names).utf8ByteSize < pathLimit
  names : ∀ n ∈ names, n.utf8ByteSize ≤ nameLimit

def fileOf (text : String) : Entry := .file (.text text)

/-- **The store holds below the directory the artifacts on the shelf, and nothing else.** -/
structure Shelved (s : Store) (directory : String) (base : Place) (shelf : Shelf) : Prop where
  anchored : s.Anchored directory base
  distinct : s.DistinctBelow base
  named : ∀ {names q}, shelf names = some q → ∀ n ∈ names, IsNodeName n
  fits : ∀ {names q}, shelf names = some q → Fits directory names
  closed : ∀ {names n q}, shelf (names ++ [n]) = some q → ∃ p, shelf names = some p
  directories : ∀ {names q}, shelf names = some q → s.entry? (base ++ names) = some .directory
  files : ∀ {names q} (a : Artifact), shelf names = some q →
    s.entry? (base ++ (names ++ [a.fileName names])) = (q.text? a).map fileOf
  short : ∀ {names q} {a : Artifact} {text}, shelf names = some q → q.text? a = some text →
    (a.path directory names).utf8ByteSize < pathLimit
  only : ∀ {rel e}, rel ≠ [] → s.entry? (base ++ rel) = some e →
    (∃ q, shelf rel = some q) ∨
      ∃ names q a, shelf names = some q ∧ rel = names ++ [Artifact.fileName a names]

namespace Shelved

variable {s t : Store} {directory : String} {base : Place} {shelf : Shelf} {q : Papers}

theorem prefix_mem (h : Shelved s directory base shelf) {pre : List String}
    (hq : shelf names = some q) (hp : pre <+: names) : ∃ p, shelf pre = some p := by
  induction names using List.reverseRecOn generalizing q with
  | nil =>
    rw [List.prefix_nil.1 hp]
    exact ⟨q, hq⟩
  | append_singleton names n ih =>
    rcases List.prefix_concat_iff.1 hp with rfl | hp
    · exact ⟨q, hq⟩
    · obtain ⟨p, hp'⟩ := h.closed hq
      exact ih hp' hp

/-- A node's directory is reached through those of the nodes above it. -/
theorem leads (h : Shelved s directory base shelf) (hq : shelf names = some q) :
    s.Leads base names := by
  intro pre hp _
  obtain ⟨p, hp'⟩ := h.prefix_mem hq hp
  exact h.directories hp'

theorem fileNames (h : Shelved s directory base shelf) (hq : shelf names = some q) :
    ∀ n ∈ names, IsFileName n := fun n hn =>
  isFileName_of_isNodeName (h.named hq n hn) ((h.fits hq).names n hn)

/-- The place of a node that is not there is free. -/
theorem free (h : Shelved s directory base shelf) (hn : ∀ n ∈ names, IsNodeName n)
    (h0 : names ≠ []) (hq : shelf names = none) : s.entry? (base ++ names) = none := by
  refine Option.eq_none_iff_forall_ne_some.2 fun e he => ?_
  rcases h.only h0 he with ⟨q, hs⟩ | ⟨ns, q, a, hs, rfl⟩
  · rw [hq] at hs
    cases hs
  · exact not_isNodeName_fileName a ns (hn _ (by simp))

/-- So are those of its artifacts. -/
theorem free_file (h : Shelved s directory base shelf) (hq : shelf names = none) (a : Artifact) :
    s.entry? (base ++ (names ++ [a.fileName names])) = none := by
  refine Option.eq_none_iff_forall_ne_some.2 fun e he => ?_
  rcases h.only (by simp) he with ⟨q, hs⟩ | ⟨ns, q, b, hs, heq⟩
  · exact not_isNodeName_fileName a names (h.named hs _ (by simp))
  · rw [(List.append_inj' heq rfl).1, hs] at hq
    cases hq

/-- New artifacts of one node change the store at the node's own places only. -/
theorem update (h : Shelved s directory base shelf) {p : Papers}
    (hn : ∀ n ∈ names, IsNodeName n) (hfits : Fits directory names)
    (hup : ∀ ns n, names = ns ++ [n] → ∃ r, shelf ns = some r)
    (ha : t.Anchored directory base) (hd : t.DistinctBelow base)
    (hdir : t.entry? (base ++ names) = some .directory)
    (hfile : ∀ a, t.entry? (base ++ (names ++ [Artifact.fileName a names]))
      = (p.text? a).map fileOf)
    (helse : ∀ pl, pl ≠ base ++ names → (∀ a, pl ≠ base ++ (names ++ [Artifact.fileName a names])) →
      t.entry? pl = s.entry? pl)
    (hs : ∀ a text, p.text? a = some text → (a.path directory names).utf8ByteSize < pathLimit) :
    Shelved t directory base (shelf.put names p) := by
  constructor
  case anchored => exact ha
  case distinct => exact hd
  case named =>
    intro ns r hr
    rcases Shelf.put_cases hr with ⟨rfl, -⟩ | ⟨-, hr⟩
    · exact hn
    · exact h.named hr
  case fits =>
    intro ns r hr
    rcases Shelf.put_cases hr with ⟨rfl, -⟩ | ⟨-, hr⟩
    · exact hfits
    · exact h.fits hr
  case closed =>
    intro ns n r hr
    rcases Shelf.put_cases hr with ⟨he, -⟩ | ⟨-, hr⟩
    · obtain ⟨r', hr'⟩ := hup ns n he.symm
      exact Shelf.exists_put hr' p
    · obtain ⟨r', hr'⟩ := h.closed hr
      exact Shelf.exists_put hr' p
  case directories =>
    intro ns r hr
    rcases Shelf.put_cases hr with ⟨rfl, -⟩ | ⟨hne, hr⟩
    · exact hdir
    · rw [helse, h.directories hr]
      · exact fun he => hne (List.append_cancel_left he)
      · intro a he
        rw [List.append_cancel_left he] at hr
        exact not_isNodeName_fileName a names (h.named hr _ (by simp))
  case files =>
    intro ns r a hr
    rcases Shelf.put_cases hr with ⟨rfl, rfl⟩ | ⟨hne, hr⟩
    · exact hfile a
    · rw [helse, h.files a hr]
      · intro he
        rw [← List.append_cancel_left he] at hn
        exact not_isNodeName_fileName a ns (hn _ (by simp))
      · exact fun b he => hne (List.append_inj' (List.append_cancel_left he) rfl).1
  case short =>
    intro ns r a text hr ht
    rcases Shelf.put_cases hr with ⟨rfl, rfl⟩ | ⟨-, hr⟩
    · exact hs a text ht
    · exact h.short hr ht
  case only =>
    intro rel e hr he
    by_cases h1 : rel = names
    · exact .inl ⟨p, by rw [h1, Shelf.put_self]⟩
    · by_cases h2 : ∃ a, rel = names ++ [Artifact.fileName a names]
      · obtain ⟨a, ha⟩ := h2
        exact .inr ⟨names, p, a, Shelf.put_self .., ha⟩
      · rw [helse _ (fun e => h1 (List.append_cancel_left e))
          fun a e => h2 ⟨a, List.append_cancel_left e⟩] at he
        rcases h.only hr he with ⟨r, hs⟩ | ⟨ns, r, a, hs, rfl⟩
        · exact .inl (Shelf.exists_put hs p)
        · obtain ⟨r', hr'⟩ := Shelf.exists_put hs p
          exact .inr ⟨ns, r', a, hr', rfl⟩

/-- **Another artifact of a node.** -/
theorem put (h : Shelved s directory base shelf) (hq : shelf names = some q) {a : Artifact}
    {p : Papers} {text : String} (ha : p.text? a = some text)
    (hne : ∀ b, b ≠ a → p.text? b = q.text? b)
    (hs : (a.path directory names).utf8ByteSize < pathLimit) :
    Shelved (s.set (base ++ (names ++ [a.fileName names])) (fileOf text)) directory base
      (shelf.put names p) := by
  have hset := entry?_set s (p := base ++ (names ++ [a.fileName names])) (by simp) (fileOf text)
  refine h.update (h.named hq) (h.fits hq) (fun ns n he => h.closed (n := n) (he ▸ hq))
    (h.anchored.set (by simp) _) (distinctBelow_set h.distinct _ _) ?_ (fun b => ?_)
    (fun pl _ hp => ?_) fun b text' hb => ?_
  · rw [hset, if_neg, h.directories hq]
    simp
  · by_cases hb : b = a
    · rw [hset, hb, if_pos rfl, ha]
      rfl
    · rw [hset, if_neg, h.files b hq, hne b hb]
      intro he
      exact hb (Artifact.fileName_injective
        (List.singleton_inj.1 (List.append_cancel_left (List.append_cancel_left he))))
  · rw [hset, if_neg (hp a)]
  · by_cases hba : b = a
    · rwa [hba]
    · exact h.short hq (hne b hba ▸ hb)

/-- **One more node**, with its spec alone. -/
theorem add (h : Shelved s directory base shelf) (hq : shelf names = none)
    (hn : ∀ n ∈ names, IsNodeName n) (hfits : Fits directory names)
    (hup : ∀ ns n, names = ns ++ [n] → ∃ r, shelf ns = some r) {spec : String}
    (ha : t.Anchored directory base) (hd : t.DistinctBelow base)
    (hent : ∀ pl, t.entry? pl
      = if pl = base ++ (names ++ [Artifact.spec.fileName names]) then some (fileOf spec)
        else if pl = base ++ names then some .directory else s.entry? pl)
    (hs : (Artifact.spec.path directory names).utf8ByteSize < pathLimit) :
    Shelved t directory base (shelf.put names { spec }) := by
  refine h.update hn hfits hup ha hd ?_ (fun a => ?_) (fun pl h1 h2 => ?_) fun a text hr => ?_
  · rw [hent, if_neg (by simp), if_pos rfl]
  · rw [hent]
    cases a with
    | spec => exact if_pos rfl
    | context | questions | record =>
      rw [if_neg, if_neg (by simp), h.free_file hq]
      · rfl
      · intro he
        exact absurd (Artifact.fileName_injective
          (List.singleton_inj.1 (List.append_cancel_left (List.append_cancel_left he)))) (by decide)
  · rw [hent, if_neg (h2 _), if_neg h1]
  · cases a with
    | spec => exact hs
    | context | questions | record => cases hr

/-- **A node gone with all below it.** -/
theorem wipe (h : Shelved s directory base shelf) (hn : ∀ n ∈ names, IsNodeName n)
    (h0 : names ≠ []) (ha : t.Anchored directory base) (hd : t.DistinctBelow base)
    (hent : ∀ pl, t.entry? pl = if base ++ names <+: pl then none else s.entry? pl) :
    Shelved t directory base (shelf.wipe names) := by
  have hmem {ns : List String} {r : Papers} (hr : shelf.wipe names ns = some r) :
      ¬ names <+: ns ∧ shelf ns = some r := by
    by_cases hp : names <+: ns
    · rw [shelf.wipe_of_prefix hp] at hr
      cases hr
    · exact ⟨hp, (shelf.wipe_of_not_prefix hp) ▸ hr⟩
  constructor
  case anchored => exact ha
  case distinct => exact hd
  case named => exact fun hr => h.named (hmem hr).2
  case fits => exact fun hr => h.fits (hmem hr).2
  case closed =>
    intro ns n r hr
    obtain ⟨hp, hr⟩ := hmem hr
    obtain ⟨r', hr'⟩ := h.closed hr
    exact ⟨r', by rw [shelf.wipe_of_not_prefix fun hp' => hp (hp'.trans (List.prefix_append _ _)), hr']⟩
  case directories =>
    intro ns r hr
    obtain ⟨hp, hr⟩ := hmem hr
    rw [hent, if_neg, h.directories hr]
    rwa [List.prefix_append_right_inj]
  case files =>
    intro ns r a hr
    obtain ⟨hp, hr⟩ := hmem hr
    rw [hent, if_neg, h.files a hr]
    rw [List.prefix_append_right_inj, List.prefix_concat_iff]
    rintro (rfl | hp')
    · exact not_isNodeName_fileName a ns (hn _ (by simp))
    · exact hp hp'
  case short => exact fun hr => h.short (hmem hr).2
  case only =>
    intro rel e hr he
    rw [hent] at he
    split at he
    · cases he
    · next hp =>
      rw [List.prefix_append_right_inj] at hp
      rcases h.only hr he with ⟨r, hs⟩ | ⟨ns, r, a, hs, rfl⟩
      · exact .inl ⟨r, by rw [shelf.wipe_of_not_prefix hp, hs]⟩
      · refine .inr ⟨ns, r, a, ?_, rfl⟩
        rw [shelf.wipe_of_not_prefix fun hp' => hp (hp'.trans (List.prefix_append _ _)), hs]

/-- A directory with nothing in it. -/
theorem empty (ha : s.Anchored directory base) (hn : ∀ rel, rel ≠ [] → s.entry? (base ++ rel) = none) :
    Shelved s directory base Shelf.empty where
  anchored := ha
  distinct := by
    unfold DistinctBelow
    rw [inside_eq_nil hn]
    exact List.nodup_nil
  named := nofun
  fits := nofun
  closed := nofun
  directories := nofun
  files := nofun
  short := nofun
  only := by
    intro rel e hr he
    rw [hn rel hr] at he
    cases he

/-- A node's directory, or the plan directory itself. -/
theorem directory_of (h : Shelved s directory base shelf) {rel : Place}
    (hd : rel = [] ∨ ∃ q, shelf rel = some q) : s.entry? (base ++ rel) = some .directory := by
  rcases hd with rfl | ⟨q, hq⟩
  · rw [List.append_nil]
    exact h.anchored.entry?_base
  · exact h.directories hq

/-- **Shelves with the same nodes** differ in artifacts only. -/
theorem entry?_eq_or {directory' : String} {base' : Place} {shelf' : Shelf}
    (h : Shelved s directory base shelf) (h' : Shelved t directory' base' shelf')
    (hsome : ∀ names, (shelf names).isSome = (shelf' names).isSome) (rel : Place) :
    s.entry? (base ++ rel) = t.entry? (base' ++ rel) ∨
      ∃ names q q' a, shelf names = some q ∧ shelf' names = some q'
        ∧ rel = names ++ [Artifact.fileName a names] := by
  have hiff (names : List String) : (∃ q, shelf names = some q) ↔ ∃ q, shelf' names = some q := by
    rw [← Option.isSome_iff_exists, ← Option.isSome_iff_exists, hsome]
  by_cases hd : rel = [] ∨ ∃ q, shelf rel = some q
  · left
    rw [h.directory_of hd, h'.directory_of (hd.imp_right (hiff rel).1)]
  by_cases hf : ∃ names q a, shelf names = some q ∧ rel = names ++ [Artifact.fileName a names]
  · obtain ⟨names, q, a, hq, hrel⟩ := hf
    obtain ⟨q', hq'⟩ := (hiff names).1 ⟨q, hq⟩
    exact .inr ⟨names, q, q', a, hq, hq', hrel⟩
  · have hnone {s : Store} {directory : String} {base : Place} {sh : Shelf}
        (h : Shelved s directory base sh) (hs : ∀ names q, sh names = some q → ∃ p, shelf names = some p) :
        s.entry? (base ++ rel) = none := by
      refine Option.eq_none_iff_forall_ne_some.2 fun e he => ?_
      rcases h.only (fun h0 => hd (.inl h0)) he with ⟨q, hq⟩ | ⟨names, q, a, hq, heq⟩
      · exact hd (.inr (hs rel q hq))
      · obtain ⟨p, hp⟩ := hs names q hq
        exact hf ⟨names, p, a, hp, heq⟩
    left
    rw [hnone h fun _ q hq => ⟨q, hq⟩, hnone h' fun names q hq => (hiff names).2 ⟨q, hq⟩]

end Shelved

end SpecTree.Plan
