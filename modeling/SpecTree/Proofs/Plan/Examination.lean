import SpecTree.Proofs.Json.Artifacts
import SpecTree.Proofs.Plan.Draft
import SpecTree.Proofs.Plan.Shelf

/-!
# Examining a node on a shelf

Examining asks for two files and reads one of them. On a store that holds a shelf the answers depend
on the artifacts of the node alone, and on which paths are too long to be asked about.

1. `Shelved.isFile` and `Shelved.isFile_record` answer for an artifact of a node that is there, and
   for the record of any node.
2. `Shelved.readRecord` reads the record.
3. `Shelved.examine_eq`: examining comes to `comparison`, which knows the artifacts only.
-/

namespace SpecTree.Plan

open SpecTree.Path Store

/-! ## Comparing -/

/-- The record of a node, unless its time stamp is not accepted. -/
def Papers.legible (q : Papers) : Option Record := q.record.filter (Stamp.isStamp ·.compiledAt)

/-- Why a node with such artifacts has to be compiled again, or need not be. -/
def Papers.reasonFor (q : Papers) (directory : String) (names : List String)
    (specHash contextHash : String) (r : Record) : Except FileError Reason :=
  if r.specHash ≠ specHash then .ok .specChanged
  else if r.contextHash ≠ contextHash then .ok .contextChanged
  else if r.isLeaf = false then .ok .unchanged
  else if (Artifact.context.path directory names).utf8ByteSize < pathLimit then
    .ok (if q.context.isSome then .unchanged else .contextMissing)
  else .error (.nameTooLong (Artifact.context.path directory names))

instance (directory : String) (names : List String) : Decidable (Fits directory names) :=
  decidable_of_iff
    ((Artifact.record.path directory names).utf8ByteSize < pathLimit
      ∧ ∀ n ∈ names, n.utf8ByteSize ≤ nameLimit)
    ⟨fun h => ⟨h.1, h.2⟩, fun h => ⟨h.size, h.names⟩⟩

/-- A visit compared with the artifacts that it finds of its node. -/
def comparison (digest : String → String) (directory : String) (names : List String) (v : Visit)
    (found : Option Papers) : Except FileError Difference :=
  let specHash := digest v.spec
  let contextHash := v.context.fingerprint digest
  if Fits directory names then
    match found with
    | none => .ok ⟨.notCompiled, specHash, contextHash, none⟩
    | some q =>
      match q.legible with
      | none => .ok ⟨.notCompiled, specHash, contextHash, none⟩
      | some r =>
        (q.reasonFor directory names specHash contextHash r).map
          fun reason => ⟨reason, specHash, contextHash, some r⟩
  else .error (.nameTooLong (Artifact.record.path directory names))

theorem Papers.legible_eq_some {q : Papers} {r : Record} :
    q.legible = some r ↔ q.record = some r ∧ Stamp.isStamp r.compiledAt = true :=
  Option.filter_eq_some_iff

theorem Papers.reasonFor_unchanged {q : Papers} {directory : String} {names : List String}
    {specHash contextHash : String} {r : Record}
    (h : q.reasonFor directory names specHash contextHash r = .ok .unchanged) :
    r.specHash = specHash ∧ r.contextHash = contextHash
      ∧ (r.isLeaf = true → ∃ c, q.context = some c) := by
  unfold reasonFor at h
  by_cases h1 : r.specHash = specHash
  · by_cases h2 : r.contextHash = contextHash
    · refine ⟨h1, h2, fun hl => ?_⟩
      rw [if_neg (not_not.2 h1), if_neg (not_not.2 h2), if_neg (by simp [hl])] at h
      split at h
      · split at h
        · next hc => exact Option.isSome_iff_exists.1 hc
        · cases h
      · cases h
    · rw [if_neg (not_not.2 h1), if_pos h2] at h
      cases h
  · rw [if_pos h1] at h
    cases h

theorem comparison_of_not_fits {digest : String → String} {directory : String} {names : List String}
    (h : ¬ Fits directory names) (v : Visit) (found : Option Papers) :
    comparison digest directory names v found
      = .error (.nameTooLong (Artifact.record.path directory names)) :=
  if_neg h

theorem fits_of_comparison {digest : String → String} {directory : String} {names : List String}
    {v : Visit} {found : Option Papers} {d : Difference}
    (h : comparison digest directory names v found = .ok d) : Fits directory names := by
  by_contra hf
  rw [comparison_of_not_fits hf] at h
  cases h

/-- The digests are those of the visit. -/
theorem digests_of_comparison {digest : String → String} {directory : String} {names : List String}
    {v : Visit} {found : Option Papers} {d : Difference}
    (h : comparison digest directory names v found = .ok d) :
    d.specHash = digest v.spec ∧ d.contextHash = v.context.fingerprint digest := by
  unfold comparison at h
  rw [if_pos (fits_of_comparison h)] at h
  cases found with
  | none =>
    cases h
    exact ⟨rfl, rfl⟩
  | some q =>
    dsimp only at h
    split at h
    · cases h
      exact ⟨rfl, rfl⟩
    · next r hr =>
      cases hreason : q.reasonFor directory names (digest v.spec) (v.context.fingerprint digest) r with
      | error e =>
        rw [hreason] at h
        cases h
      | ok reason =>
        rw [hreason] at h
        cases h
        exact ⟨rfl, rfl⟩

/-- A record that need not be renewed was found. -/
theorem found_of_comparison {digest : String → String} {directory : String} {names : List String}
    {v : Visit} {found : Option Papers} {d : Difference} {r : Record}
    (h : comparison digest directory names v found = .ok d) (hu : d.reason = .unchanged)
    (hr : d.previous = some r) :
    ∃ q, found = some q ∧ q.record = some r ∧ r.specHash = d.specHash
      ∧ r.contextHash = d.contextHash ∧ (r.isLeaf = true → ∃ c, q.context = some c) := by
  unfold comparison at h
  rw [if_pos (fits_of_comparison h)] at h
  cases found with
  | none =>
    cases h
    cases hr
  | some q =>
    dsimp only at h
    split at h
    · cases h
      cases hr
    · next r' hr' =>
      cases hreason : q.reasonFor directory names (digest v.spec) (v.context.fingerprint digest) r' with
      | error e =>
        rw [hreason] at h
        cases h
      | ok reason =>
        rw [hreason] at h
        cases h
        obtain rfl : reason = .unchanged := hu
        obtain rfl := Option.some.inj hr
        exact ⟨q, rfl, (Papers.legible_eq_some.1 hr').1, q.reasonFor_unchanged hreason⟩

theorem judge_eq_reuse {p : NodePolicy} {v : Visit} {d : Difference} {r : Record}
    (h : judge p v d = .reuse r) : d.reason = .unchanged ∧ d.previous = some r := by
  unfold judge at h
  split at h
  · next r' hr =>
    cases h
    split at hr
    · unfold Difference.reusable? at hr
      split at hr
      · cases hr
      · next hs => exact ⟨by simpa [Difference.isStale] using hs, hr⟩
    · cases hr
  · split at h <;> cases h

variable {s t : Store} {directory : String} {base : Place} {shelf : Shelf} {names : List String}
  {q : Papers}

theorem isFile_of_size {path : String} (h0 : path.contains '\x00' = false)
    (hs : pathLimit ≤ path.utf8ByteSize) : s.isFile path = .error (.nameTooLong path) := by
  have hloc : s.locate true path = .error (.nameTooLong path) := by
    rw [locate, h0, if_neg (by decide), if_pos hs]
  simp only [Store.isFile, ask, Store.find, hloc, bind, Except.bind, FileError.meansAbsent,
    Bool.false_eq_true, if_false]

theorem isProper_of_isNodeName {n : String} (h : IsNodeName n) : IsProper n :=
  ⟨isComponent_of_isNodeName h, fun he => absurd (h.isNameChar '.' (by rw [he]; decide)) (by decide)⟩

theorem isProper_artifact (hn : ∀ n ∈ names, IsNodeName n) (a : Artifact) :
    ∀ n ∈ names ++ [a.fileName names], IsProper n :=
  List.forall_mem_append.2 ⟨fun n hm => isProper_of_isNodeName (hn n hm),
    List.forall_mem_singleton.2 ⟨(a.isFileName names).toIsComponent, (a.isFileName names).plain.2⟩⟩

/-- Where an artifact lies. -/
theorem placeOf_artifact (a : Artifact) (directory : String) (hn : ∀ n ∈ names, IsNodeName n) :
    placeOf (a.path directory names) = placeOf directory ++ (names ++ [a.fileName names]) := by
  rw [artifactPath_eq_spell a directory hn, placeOf_spell _ (isProper_artifact hn a)]

/-- Different artifacts lie at different places, also those of different nodes. -/
theorem placeOf_artifact_ne {a a' : Artifact} {names' : List String} (h : a ≠ a') (directory : String)
    (hn : ∀ n ∈ names, IsNodeName n) (hn' : ∀ n ∈ names', IsNodeName n) :
    placeOf (a.path directory names) ≠ placeOf (a'.path directory names') := by
  rw [placeOf_artifact a directory hn, placeOf_artifact a' directory hn']
  intro he
  have hnames := List.append_cancel_left he
  exact h (Artifact.fileName_injective (List.singleton_inj.1 (List.append_inj' hnames rfl).2))

/-- The nodes above a node are there. -/
def HasParents (shelf : Shelf) (names : List String) : Prop :=
  ∀ ns n, names = ns ++ [n] → ∃ r, shelf ns = some r

/-- The root has no parent. -/
theorem hasParents_nil (shelf : Shelf) : HasParents shelf [] := by
  intro ns n he
  simp at he

namespace Shelved

/-! ## Looking at artifacts -/

theorem plainNames (h : Shelved s directory base shelf) (hq : shelf names = some q) (a : Artifact) :
    ∀ n ∈ names ++ [a.fileName names], IsPlainName n :=
  List.forall_mem_append.2 ⟨fun n hn => (h.fileNames hq n hn).plain,
    List.forall_mem_singleton.2 (a.isFileName names).plain⟩

/-- An artifact is found where its text is. -/
theorem find (h : Shelved s directory base shelf) (hq : shelf names = some q) {a : Artifact}
    {text : String} (ha : q.text? a = some text) (follow : Bool) :
    s.find follow (a.path directory names)
      = .ok (base ++ (names ++ [a.fileName names]), fileOf text) := by
  refine h.anchored.find (a.spells_path h.anchored.noZero (h.named hq) (h.short hq ha))
    (h.plainNames hq a) (h.leads hq) ?_ (fun _ => by simp [fileOf]) follow
  rw [h.files a hq, ha]
  rfl

theorem isFile (h : Shelved s directory base shelf) (hq : shelf names = some q) {a : Artifact}
    (hs : (a.path directory names).utf8ByteSize < pathLimit) :
    s.isFile (a.path directory names) = .ok (q.text? a).isSome := by
  cases ha : q.text? a with
  | some text => exact ask_of_find (h.find hq ha true) _
  | none =>
    refine h.anchored.ask_of_none (a.spells_path h.anchored.noZero (h.named hq) hs)
      (h.plainNames hq a) (h.leads hq) ?_ _
    rw [h.files a hq, ha]
    rfl

/-- A path that is too long cannot be asked about. -/
theorem isFile_of_long (h : Shelved s directory base shelf) (hn : ∀ n ∈ names, IsNodeName n)
    {a : Artifact} (hs : pathLimit ≤ (a.path directory names).utf8ByteSize) :
    s.isFile (a.path directory names) = .error (.nameTooLong (a.path directory names)) :=
  isFile_of_size (a.noZero_path h.anchored.noZero hn) hs

/-- Neither can a name that is too long. -/
theorem isFile_of_long_name {n : String} (h : Shelved s directory base shelf)
    (hn : ∀ m ∈ names ++ [n], IsNodeName m) (hup : shelf names = some q) {a : Artifact}
    (hs : (a.path directory (names ++ [n])).utf8ByteSize < pathLimit)
    (hlong : nameLimit < n.utf8ByteSize) :
    s.isFile (a.path directory (names ++ [n]))
      = .error (.nameTooLong (a.path directory (names ++ [n]))) := by
  have hsp := a.spells_path h.anchored.noZero hn hs
  rw [List.append_assoc] at hsp
  obtain ⟨left, hw⟩ := h.anchored.reach
  have hloc : s.locate true (a.path directory (names ++ [n]))
      = .error (.nameTooLong (a.path directory (names ++ [n]))) := by
    rw [locate, hsp.noZero, if_neg (by decide), if_neg (Nat.not_le.2 hs), hsp.parts,
      hw _ true _ (.inl (by simp)),
      walk_directories (fun m hm => (h.fileNames hup m hm).plain) (h.leads hup),
      List.singleton_append, walk_too_long hlong]
  simp only [Store.isFile, ask, Store.find, hloc, bind, Except.bind, FileError.meansAbsent,
    Bool.false_eq_true, if_false]

/-- The record of a node that is not there is not there. -/
theorem isFile_of_none (h : Shelved s directory base shelf) (hq : shelf names = none)
    (hn : ∀ n ∈ names, IsNodeName n) (hup : HasParents shelf names) (hfits : Fits directory names) :
    s.isFile (Artifact.record.path directory names) = .ok false := by
  have hsp := Artifact.record.spells_path h.anchored.noZero hn hfits.size
  rcases List.eq_nil_or_concat' names with rfl | ⟨ns, n, rfl⟩
  · exact h.anchored.ask_of_none hsp
      (List.forall_mem_singleton.2 (Artifact.isFileName .record []).plain)
      (fun pre hp h0 => absurd (List.prefix_nil.1 hp) h0) (h.free_file hq .record) _
  · obtain ⟨r, hr⟩ := hup ns n rfl
    rw [List.append_assoc] at hsp
    exact h.anchored.ask_of_missing hsp (fun m hm => (h.fileNames hr m hm).plain)
      (isFileName_of_isNodeName (hn n (by simp)) (hfits.names n (by simp))).plain (h.leads hr)
      (h.free hn (by simp) hq) _

/-- **Asking for a record** tells whether it could be there, and whether it is. -/
theorem isFile_record (h : Shelved s directory base shelf) (hn : ∀ n ∈ names, IsNodeName n)
    (hup : HasParents shelf names) :
    s.isFile (Artifact.record.path directory names)
      = if Fits directory names then .ok ((shelf names).bind Papers.record).isSome
        else .error (.nameTooLong (Artifact.record.path directory names)) := by
  by_cases hfits : Fits directory names
  · rw [if_pos hfits]
    cases hq : shelf names with
    | none => exact h.isFile_of_none hq hn hup hfits
    | some q => rw [h.isFile hq hfits.size, Papers.text?, Option.isSome_map, Option.bind_some]
  · rw [if_neg hfits]
    by_cases hs : (Artifact.record.path directory names).utf8ByteSize < pathLimit
    · have hlong : ¬ ∀ n ∈ names, n.utf8ByteSize ≤ nameLimit := fun hnames => hfits ⟨hs, hnames⟩
      rcases List.eq_nil_or_concat' names with rfl | ⟨ns, n, rfl⟩
      · exact absurd (fun n hn => absurd hn List.not_mem_nil) hlong
      · obtain ⟨r, hr⟩ := hup ns n rfl
        refine h.isFile_of_long_name hn hr hs (Nat.lt_of_not_le fun hle => hlong fun m hm => ?_)
        rcases List.mem_append.1 hm with hm | hm
        · exact (h.fits hr).names m hm
        · rwa [List.mem_singleton.1 hm]
    · exact h.isFile_of_long hn (Nat.le_of_not_lt hs)

/-- **Reading a record** gives the one on the shelf, if its time stamp is accepted. -/
theorem readRecord (h : Shelved s directory base shelf) (hn : ∀ n ∈ names, IsNodeName n)
    (hup : HasParents shelf names) :
    (Plan.readRecord s directory (nodePath (rootName :: names))).map Prod.fst
      = if Fits directory names then .ok ((shelf names).bind Papers.legible)
        else .error (.nameTooLong (Artifact.record.path directory names)) := by
  have hp : metaPath directory (nodePath (rootName :: names)) = Artifact.record.path directory names :=
    rfl
  have hfile := h.isFile_record hn hup
  rw [Plan.readRecord, hp, readJson, hfile]
  by_cases hfits : Fits directory names
  · rw [if_pos hfits, if_pos hfits]
    cases hrec : (shelf names).bind Papers.record with
    | none =>
      have hl : (shelf names).bind Papers.legible = none := by
        cases hq : shelf names with
        | none => rfl
        | some q =>
          rw [hq, Option.bind_some] at hrec
          rw [Option.bind_some, Papers.legible, hrec, Option.filter_none]
      rw [hl]
      rfl
    | some r =>
      obtain ⟨q, hq, hr⟩ := Option.bind_eq_some_iff.1 hrec
      have ht : q.text? .record = some (recordText r) := by
        rw [Papers.text?, hr]
        rfl
      have hread : s.readText (Artifact.record.path directory names) = .ok (recordText r) := by
        simp only [readText, h.find hq ht true, bind, Except.bind, fileOf]
        rw [unifyLineEnds_recordText, String.ofList_toList]
        rfl
      simp only [Option.isSome_some, bind, Except.bind, if_true, hread]
      rw [record_of_recordText, hq, Option.bind_some, Papers.legible, hr]
      cases hstamp : Stamp.isStamp r.compiledAt <;> simp [hstamp, Option.filter, Except.map, pure, Except.pure]
  · rw [if_neg hfits, if_neg hfits]
    rfl

/-! ## Examining -/

/-- The files that a record promises are asked for. -/
theorem reasonFor_eq (h : Shelved s directory base shelf) (hq : shelf names = some q)
    (specHash contextHash : String) (r : Record) :
    Plan.reasonFor s directory (nodePath (rootName :: names)) specHash contextHash r
      = q.reasonFor directory names specHash contextHash r := by
  have hplan : planPath directory (nodePath (rootName :: names)) = Artifact.spec.path directory names :=
    (String.append_empty).symm
  have hcontext : contextPath directory (nodePath (rootName :: names))
      = Artifact.context.path directory names := rfl
  have hspec : s.isFile (Artifact.spec.path directory names) = .ok true :=
    h.isFile hq (h.short (a := .spec) hq rfl)
  unfold Plan.reasonFor Papers.reasonFor
  rw [hplan, hcontext]
  by_cases h1 : r.specHash = specHash
  · by_cases h2 : r.contextHash = contextHash
    · simp only [h1, h2, ne_eq, not_true_eq_false, if_false, hspec, bind, Except.bind, pure, Except.pure,
        Bool.not_true, Bool.false_eq_true]
      cases hl : r.isLeaf with
      | false => rfl
      | true =>
        by_cases hs : (Artifact.context.path directory names).utf8ByteSize < pathLimit
        · rw [h.isFile hq hs, Papers.text?, Option.isSome_map, if_pos hs]
          cases q.context <;> rfl
        · rw [h.isFile_of_long (h.named hq) (Nat.le_of_not_lt hs), if_neg hs]
          rfl
    · simp [h1, h2, pure, Except.pure]
  · simp [h1, pure, Except.pure]

/-- **Examining a node compares it with its artifacts.** -/
theorem examine_eq (h : Shelved s directory base shelf) (p : NodePolicy) {v : Visit}
    (hv : v.ancestry = rootName :: names) (hn : ∀ n ∈ names, IsNodeName n)
    (hup : HasParents shelf names) :
    (Plan.examine p s directory v).map Prod.fst
      = comparison p.digest directory names v (shelf names) := by
  have hread := h.readRecord hn hup
  rw [Plan.examine, difference, Visit.path, hv]
  by_cases hfits : Fits directory names
  · rw [if_pos hfits] at hread
    unfold comparison
    rw [if_pos hfits]
    cases hr : Plan.readRecord s directory (nodePath (rootName :: names)) with
    | error e =>
      rw [hr] at hread
      cases hread
    | ok x =>
      obtain ⟨previous, lines⟩ := x
      rw [hr] at hread
      obtain rfl : previous = (shelf names).bind Papers.legible := Except.ok.inj hread
      cases hq : shelf names with
      | none => rfl
      | some q =>
        simp only [Option.bind_some, bind, Except.bind]
        cases hl : q.legible with
        | none => rfl
        | some r =>
          simp only [h.reasonFor_eq hq]
          cases q.reasonFor directory names (p.digest v.spec) (v.context.fingerprint p.digest) r <;> rfl
  · rw [if_neg hfits] at hread
    rw [comparison_of_not_fits hfits]
    cases hr : Plan.readRecord s directory (nodePath (rootName :: names)) with
    | error e =>
      rw [hr] at hread
      obtain rfl := Except.error.inj hread
      rfl
    | ok x =>
      rw [hr] at hread
      cases hread

theorem comparison_of_examine (h : Shelved s directory base shelf) {p : NodePolicy} {v : Visit}
    (hv : v.ancestry = rootName :: names) (hn : ∀ n ∈ names, IsNodeName n)
    (hup : HasParents shelf names) {d : Difference} {lines : List Log.Line}
    (he : Plan.examine p s directory v = .ok (d, lines)) :
    comparison p.digest directory names v (shelf names) = .ok d := by
  rw [← h.examine_eq p hv hn hup, he]
  rfl

theorem comparison_of_examine_error (h : Shelved s directory base shelf) {p : NodePolicy} {v : Visit}
    (hv : v.ancestry = rootName :: names) (hn : ∀ n ∈ names, IsNodeName n)
    (hup : HasParents shelf names) {e : FileError}
    (he : Plan.examine p s directory v = .error e) :
    comparison p.digest directory names v (shelf names) = .error e := by
  rw [← h.examine_eq p hv hn hup, he]
  rfl

/-- **Examining a node** that is there, or could be there, tells that its record can be written; what
may be used again is what is on the shelf. -/
theorem examine (h : Shelved s directory base shelf) {p : NodePolicy} {v : Visit}
    (hv : v.ancestry = rootName :: names) (hn : ∀ n ∈ names, IsNodeName n)
    (hup : HasParents shelf names) {d : Difference} {lines : List Log.Line}
    (he : Plan.examine p s directory v = .ok (d, lines)) :
    Fits directory names ∧ d.specHash = p.digest v.spec
      ∧ d.contextHash = v.context.fingerprint p.digest
      ∧ ∀ r, judge p v d = .reuse r → ∃ q, shelf names = some q ∧ q.record = some r
        ∧ r.specHash = d.specHash ∧ r.contextHash = d.contextHash
        ∧ (r.isLeaf = true → ∃ c, q.context = some c) := by
  have hd := h.comparison_of_examine hv hn hup he
  obtain ⟨hspec, hcontext⟩ := digests_of_comparison hd
  refine ⟨fits_of_comparison hd, hspec, hcontext, fun r hj => ?_⟩
  obtain ⟨hu, hr⟩ := judge_eq_reuse hj
  exact found_of_comparison hd hu hr

/-- A node that is not there has not been compiled. -/
theorem examine_of_none (h : Shelved s directory base shelf) (p : NodePolicy) {v : Visit}
    (hv : v.ancestry = rootName :: names) (hq : shelf names = none)
    (hn : ∀ n ∈ names, IsNodeName n) (hup : HasParents shelf names) (hfits : Fits directory names) :
    Plan.examine p s directory v
      = .ok (⟨.notCompiled, p.digest v.spec, v.context.fingerprint p.digest, none⟩, []) := by
  have hfile := h.isFile_of_none hq hn hup hfits
  have hp : metaPath directory v.path = Artifact.record.path directory names := by
    rw [Visit.path, hv]
    rfl
  rw [Plan.examine, difference, Plan.readRecord, readJson, hp, hfile]
  rfl

/-- Whether a context whose path is too long is there cannot be told. -/
theorem examine_of_long_context (h : Shelved s directory base shelf) {p : NodePolicy} {v : Visit}
    (hv : v.ancestry = rootName :: names) (hq : shelf names = some q) {r : Record}
    (hr : q.record = some r) (hstamp : Stamp.isStamp r.compiledAt = true) (hleaf : r.isLeaf = true)
    (hspec : r.specHash = p.digest v.spec) (hcontext : r.contextHash = v.context.fingerprint p.digest)
    (hsize : pathLimit ≤ (Artifact.context.path directory names).utf8ByteSize) :
    ∃ e, Plan.examine p s directory v = .error e := by
  have hup : HasParents shelf names := fun ns n he => h.closed (n := n) (he ▸ hq)
  have hd := h.examine_eq p hv (h.named hq) hup
  have hreason : q.reasonFor directory names (p.digest v.spec) (v.context.fingerprint p.digest) r
      = .error (.nameTooLong (Artifact.context.path directory names)) := by
    rw [Papers.reasonFor, if_neg (not_not.2 hspec), if_neg (not_not.2 hcontext),
      if_neg (by simp [hleaf]), if_neg (Nat.not_lt.2 hsize)]
  unfold comparison at hd
  rw [if_pos (h.fits hq), hq] at hd
  simp only [Papers.legible_eq_some.2 ⟨hr, hstamp⟩, hreason] at hd
  cases he : Plan.examine p s directory v with
  | error e => exact ⟨e, rfl⟩
  | ok x =>
    rw [he] at hd
    cases hd

end Shelved

end SpecTree.Plan
