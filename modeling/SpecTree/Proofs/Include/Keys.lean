import SpecTree.Proofs.Include.Reads
import SpecTree.Proofs.Path.Resolution
import SpecTree.Proofs.Store.Files
import SpecTree.Proofs.Text.Conversions

/-!
# One key for each file

An include goes by the path that `target` gives, its key. The key is canonical (`IsCanonical`), it leads where
the include leads, and it is its own key. Two includes have one key exactly when they lead to one place from
one root (`target_canonical`).

1. An extension stands behind the last slash of a path (`isExtended_slash_iff`), so that neither a step in
   front nor the normal form takes it away (`isExtended_normalize`).
2. A session knows an include by its key, however it is written (`goesBy_target`).
-/

namespace SpecTree.Include

open SpecTree.Path Spec Store

variable {extension base path written : String} {cs : List Char}

/-! ## Extensions -/

/-- A dot and a word of letters and digits stand at the end. -/
def EndsInWord (cs : List Char) : Prop :=
  ∃ front word, word ≠ [] ∧ (∀ c ∈ word, c.isAlphanum = true) ∧ cs = front ++ '.' :: word

/-- The path has an extension; one line end behind it does not count. -/
def IsExtended (cs : List Char) : Prop := EndsInWord cs ∨ ∃ line, cs = line ++ ['\n'] ∧ EndsInWord line

theorem isAlphanumeric_eq (c : Char) : isAlphanumeric c = c.isAlphanum := by
  delta isAlphanumeric Char.isAlphanum Char.isAlpha Char.isUpper Char.isLower Char.isDigit
  simp only [Char.le_def, ge_iff_le, Bool.decide_and, Bool.or_comm]

/-- Read from the end, the word comes first. -/
theorem endsInWord_iff :
    EndsInWord cs ↔ (cs.reverse.dropWhile isAlphanumeric).length < cs.reverse.length ∧
      (cs.reverse.dropWhile isAlphanumeric).head? = some '.' := by
  have hsplit := List.takeWhile_append_dropWhile (p := isAlphanumeric) (l := cs.reverse)
  constructor
  · rintro ⟨front, word, hne, hword, rfl⟩
    have hrun : ∀ c ∈ word.reverse, isAlphanumeric c = true := fun c hc =>
      (isAlphanumeric_eq c).trans (hword c (List.mem_reverse.1 hc))
    have hdrop : (front ++ '.' :: word).reverse.dropWhile isAlphanumeric = '.' :: front.reverse := by
      rw [List.reverse_append, List.reverse_cons, List.append_assoc, List.dropWhile_append_of_pos hrun]
      rfl
    have hlength := List.length_pos_iff.2 hne
    rw [hdrop]
    refine ⟨?_, rfl⟩
    simp only [List.length_cons, List.length_reverse, List.length_append]
    omega
  · rintro ⟨hlength, hhead⟩
    have hrun : ∀ c ∈ cs.reverse.takeWhile isAlphanumeric, isAlphanumeric c = true :=
      fun c => List.mem_takeWhile_imp
    generalize cs.reverse.takeWhile isAlphanumeric = word at hsplit hrun
    generalize cs.reverse.dropWhile isAlphanumeric = after at hsplit hlength hhead
    obtain ⟨front, rfl⟩ := List.head?_eq_some_iff.1 hhead
    refine ⟨front.reverse, word.reverse, fun he => ?_, fun c hc => ?_, ?_⟩
    · rw [← hsplit, List.reverse_eq_nil_iff.1 he] at hlength
      exact Nat.lt_irrefl _ hlength
    · exact (isAlphanumeric_eq c).symm.trans (hrun c (List.mem_reverse.1 hc))
    · rw [← List.reverse_reverse cs, ← hsplit]
      simp

theorem not_endsInWord_concat (line : List Char) : ¬ EndsInWord (line ++ ['\n']) := by
  rintro ⟨front, word, hne, hword, he⟩
  have hlast := congrArg List.getLast? he
  rw [List.getLast?_concat, List.getLast?_append_of_ne_nil _ (List.cons_ne_nil _ _),
    List.getLast?_cons_of_ne_nil hne] at hlast
  exact absurd (hword _ (List.mem_of_getLast? hlast.symm)) (by decide)

theorem hasExtension_iff : hasExtension cs = true ↔ IsExtended cs := by
  unfold hasExtension
  dsimp only
  rw [Bool.and_eq_true, decide_eq_true_iff, beq_iff_eq]
  split
  · next rest hrest =>
    obtain rfl : cs = rest.reverse ++ ['\n'] := by
      rw [← List.reverse_reverse cs, hrest, List.reverse_cons]
    rw [IsExtended, or_iff_right (not_endsInWord_concat _)]
    simp [endsInWord_iff]
  · next hno =>
    rw [IsExtended, ← endsInWord_iff, or_iff_left]
    rintro ⟨line, rfl, -⟩
    exact hno line.reverse (by simp)

instance : DecidablePred IsExtended := fun _ => decidable_of_iff _ hasExtension_iff

theorem EndsInWord.append (h : EndsInWord cs) (front : List Char) : EndsInWord (front ++ cs) := by
  obtain ⟨more, word, hne, hword, rfl⟩ := h
  exact ⟨front ++ more, word, hne, hword, (List.append_assoc ..).symm⟩

theorem endsInWord_slash_iff (front : List Char) : EndsInWord (front ++ '/' :: cs) ↔ EndsInWord cs := by
  refine ⟨?_, fun h => (List.append_cons front '/' cs) ▸ h.append (front ++ ['/'])⟩
  rintro ⟨more, word, hne, hword, he⟩
  rcases List.append_eq_append_iff.1 he with ⟨between, -, hcs⟩ | ⟨between, -, hback⟩
  · cases between with
    | nil => cases hcs
    | cons c between => exact ⟨between, word, hne, hword, (List.cons.inj hcs).2⟩
  · -- The slash would stand in the word or be the dot in front of it.
    have hslash : '/' ∈ '.' :: word := hback ▸ by simp
    exact absurd (hword '/' (List.mem_of_ne_of_mem (by decide) hslash)) (by decide)

/-- **An extension stands behind the last slash.** -/
theorem isExtended_slash_iff (front : List Char) : IsExtended (front ++ '/' :: cs) ↔ IsExtended cs := by
  refine or_congr (endsInWord_slash_iff front) ⟨?_, ?_⟩
  · rintro ⟨line, he, h⟩
    induction cs using List.reverseRecOn with
    | nil => cases (List.append_inj' he rfl).2
    | append_singleton cs c =>
      rw [← List.cons_append, ← List.append_assoc] at he
      obtain ⟨rfl, hc⟩ := List.append_inj' he rfl
      exact ⟨cs, by rw [hc], (endsInWord_slash_iff front).1 h⟩
  · rintro ⟨line, rfl, h⟩
    exact ⟨front ++ '/' :: line, by simp, (endsInWord_slash_iff front).2 h⟩

theorem isExtended_joinPieces_iff (ps : List (List Char)) :
    IsExtended (Text.joinPieces '/' (ps ++ [cs])) ↔ IsExtended cs := by
  by_cases hps : ps = []
  · rw [hps]
    rfl
  · rw [Text.joinPieces_append hps (List.cons_ne_nil _ _)]
    exact isExtended_slash_iff _

theorem IsExtended.append (h : IsExtended cs) (front : List Char) : IsExtended (front ++ cs) := by
  rcases h with h | ⟨line, rfl, h⟩
  · exact .inl (h.append front)
  · exact .inr ⟨front ++ line, (List.append_assoc ..).symm, h.append front⟩

theorem IsExtended.exists_isAlphanum (h : IsExtended cs) : ∃ c ∈ cs, c.isAlphanum = true := by
  have hword {line : List Char} : EndsInWord line → ∃ c ∈ line, c.isAlphanum = true := by
    rintro ⟨front, word, hne, hword, rfl⟩
    obtain ⟨c, hc⟩ := List.exists_mem_of_ne_nil word hne
    exact ⟨c, by simp [hc], hword c hc⟩
  rcases h with h | ⟨line, rfl, h⟩
  · exact hword h
  · obtain ⟨c, hc, halpha⟩ := hword h
    exact ⟨c, List.mem_append_left _ hc, halpha⟩

/-- What has an extension is a name that goes down. -/
theorem IsExtended.down (h : IsExtended cs) : cs ≠ [] ∧ cs ≠ here ∧ cs ≠ parent := by
  obtain ⟨c, hc, halpha⟩ := h.exists_isAlphanum
  refine ⟨?_, ?_, ?_⟩
  · rintro rfl
    cases hc
  · rintro rfl
    rw [List.mem_singleton.1 hc] at halpha
    cases halpha
  · rintro rfl
    simp only [parent, List.mem_cons, List.not_mem_nil, or_false, or_self] at hc
    rw [hc] at halpha
    cases halpha

/-- The last name of a path has the extension of the path. -/
theorem exists_components_eq_concat (h : IsExtended cs) :
    ∃ above name, components cs = above ++ [name] ∧ IsExtended name := by
  obtain ⟨ps, name, hpieces⟩ : ∃ ps name, Text.pieces '/' cs = ps ++ [name] :=
    ⟨_, _, (List.dropLast_concat_getLast (Text.pieces_ne_nil '/' cs)).symm⟩
  have hname : IsExtended name := by
    rwa [← Text.joinPieces_pieces '/' cs, hpieces, isExtended_joinPieces_iff] at h
  refine ⟨ps.filter fun c => !c.isEmpty && c != here, name, ?_, hname⟩
  rw [components, hpieces, List.filter_append, List.filter_cons_of_pos (by simp [hname.down]),
    List.filter_nil]

theorem exists_placeOf_eq_concat (h : IsExtended path.toList) :
    ∃ above name, placeOf path = above ++ [name] ∧ IsExtended name.toList := by
  obtain ⟨above, name, hc, hname⟩ := exists_components_eq_concat h
  refine ⟨descend [] (above.map String.ofList), String.ofList name, ?_, by rwa [String.toList_ofList]⟩
  have hdown : String.ofList name ≠ ".." := fun he => hname.down.2.2 (String.ofList_inj.1 he)
  rw [placeOf, Path.parts, hc, List.map_append, descend_append, List.map_singleton]
  exact descend_of_forall (List.forall_mem_singleton.2 hdown) _

/-- What a path is put behind does not take its extension away. -/
theorem isExtended_join (base : String) (h : IsExtended path.toList) :
    IsExtended (Path.join base path).toList := by
  rw [Path.join, String.toList_ofList, joinChars]
  split
  · exact h
  · split
    · exact h.append _
    · rw [List.append_cons]
      exact h.append _

/-- The normal form keeps an extension. -/
theorem isExtended_normalize (ha : IsAbsolute path) (h : IsExtended path.toList) :
    IsExtended (Path.normalize path).toList := by
  obtain ⟨above, name, hplace, hname⟩ := exists_placeOf_eq_concat h
  rw [toList_normalize ha, hplace, List.map_append]
  exact ((isExtended_joinPieces_iff _).2 hname).append _

/-! ## Canonical paths -/

/-- Names that go down follow on one slash or two. -/
def IsCanonical (path : String) : Prop :=
  ∃ names, names ≠ [] ∧
    (path.toList.splitOn '/' = [] :: names ∨ path.toList.splitOn '/' = [] :: [] :: names) ∧
    ∀ name ∈ names, name ≠ [] ∧ name ≠ here ∧ name ≠ parent

theorem isCanonical_normalize (ha : IsAbsolute path) (hne : placeOf path ≠ []) :
    IsCanonical (Path.normalize path) := by
  have hnames : ∀ name ∈ (placeOf path).map String.toList,
      '/' ∉ name ∧ name ≠ [] ∧ name ≠ here ∧ name ≠ parent := by
    intro name hname
    obtain ⟨n, hn, rfl⟩ := List.mem_map.1 hname
    have hproper := isProper_of_mem_placeOf hn
    exact ⟨hproper.1.slash_not_mem, hproper.1.ne_nil, hproper.1.ne_here,
      fun he => hproper.2 (String.toList_inj.1 he)⟩
  have hmap : (placeOf path).map String.toList ≠ [] := by simpa using hne
  have hpieces := Text.pieces_joinPieces hmap fun name hn => (hnames name hn).1
  refine ⟨_, hmap, ?_, fun name hn => (hnames name hn).2⟩
  rw [← Text.pieces_eq_splitOn, toList_normalize ha]
  rcases root_cases path.toList with hr | hr | hr
  · have hhead := head?_root ha.head?_toList
    rw [hr] at hhead
    cases hhead
  · exact .inl (by rw [hr, List.singleton_append, Text.pieces_cons_self, hpieces])
  · exact .inr (by
      rw [hr, List.cons_append, List.singleton_append, Text.pieces_cons_self, Text.pieces_cons_self, hpieces])

/-! ## Remote paths -/

theorem isRemote_iff : isRemote path = true ↔ "://".toList <:+: path.toList := by
  rw [isRemote, decide_eq_true_iff]
  exact Text.one_lt_length_splitOn_iff path (by decide)

theorem isRemote_here (path : String) : isRemote ("./" ++ path) = isRemote path := by
  have hfirst {c : Char} (hc : c ≠ ':') (cs : List Char) :
      "://".toList <:+: c :: cs ↔ "://".toList <:+: cs := by
    rw [List.infix_cons_iff, or_iff_right]
    exact fun h => hc (List.cons_prefix_cons.1 h).1.symm
  rw [Bool.eq_iff_iff, isRemote_iff, isRemote_iff, String.toList_append]
  exact (hfirst (by decide) _).trans (hfirst (by decide) _)

/-- Two slashes stand in front of a canonical path only. -/
theorem IsCanonical.isRemote_eq (h : IsCanonical path) : isRemote path = false := by
  rw [Bool.eq_false_iff, ne_eq, isRemote_iff]
  rintro ⟨front, back, he⟩
  obtain ⟨names, -, hsplit, hnames⟩ := h
  have hempty : [] ∉ names := fun hm => (hnames [] hm).1 rfl
  have hpieces : path.toList.splitOn '/'
      = Text.pieces '/' (front ++ [':']) ++ [] :: Text.pieces '/' back := by
    have hpath : path.toList = (front ++ [':']) ++ '/' :: '/' :: back := by
      rw [← he]
      simp
    rw [← Text.pieces_eq_splitOn, hpath, Text.pieces_append_cons, Text.pieces_cons_self]
  have hfront := Text.joinPieces_pieces '/' (front ++ [':'])
  -- The piece between the two slashes stands behind one that is not empty.
  rcases hp : Text.pieces '/' (front ++ [':']) with _ | ⟨first, _ | ⟨second, more⟩⟩ <;>
    rw [hp] at hpieces hfront <;> rw [hpieces] at hsplit
  · exact absurd hp (Text.pieces_ne_nil _ _)
  · obtain rfl : first = [] := by rcases hsplit with h | h <;> exact (List.cons.inj h).1
    exact absurd hfront.symm (by simp [Text.joinPieces])
  · refine hempty ?_
    rcases hsplit with h | h
    · rw [← (List.cons.inj h).2]
      simp
    · rw [← (List.cons.inj (List.cons.inj h).2).2]
      simp

/-! ## Where an include leads -/

/-- What an include asks for: a path without an extension names a spec file. -/
def complete (extension written : String) : String :=
  if IsExtended written.toList then written else written ++ extension

theorem isExtended_complete (hx : IsExtended extension.toList) (written : String) :
    IsExtended (complete extension written).toList := by
  unfold complete
  split
  · assumption
  · rw [String.toList_append]
    exact hx.append _

theorem not_isAbsolute_complete (hx : ¬IsAbsolute extension) (h : ¬IsAbsolute written) :
    ¬IsAbsolute (complete extension written) := by
  rw [not_isAbsolute_iff] at hx h ⊢
  unfold complete
  split
  · exact h
  · rw [String.toList_append, List.head?_append]
    cases hw : written.toList.head? with
    | none => exact hx
    | some c => rwa [hw] at h

theorem isExtended_here_iff (written : String) :
    IsExtended ("./" ++ written).toList ↔ IsExtended written.toList := by
  rw [String.toList_append]
  exact isExtended_slash_iff ['.']

theorem complete_here (extension written : String) :
    complete extension ("./" ++ written) = "./" ++ complete extension written := by
  unfold complete
  simp only [isExtended_here_iff]
  split
  · rfl
  · exact String.append_assoc ..

theorem target_eq (extension base written : String) : target extension base written =
    Path.normalize (Path.join base
      (complete extension (if isAnchored written.toList then written else "./" ++ written))) := by
  unfold target complete
  simp only [hasExtension_iff]

theorem not_isAbsolute_here (path : String) : ¬IsAbsolute ("./" ++ path) := by
  rw [not_isAbsolute_iff, String.toList_append]
  nofun

/-- **A step that stays leads nowhere else.** -/
theorem normalize_join_here (hb : IsAbsolute base) (h : ¬IsAbsolute path) :
    Path.normalize (Path.join base ("./" ++ path)) = Path.normalize (Path.join base path) := by
  have hparts : Path.parts ("./" ++ path) = Path.parts path := by
    rw [Path.parts, String.toList_append]
    exact congrArg (List.map String.ofList) (components_append_cons here path.toList)
  rw [normalize_eq_iff (hb.join _) (hb.join _), location_join base (not_isAbsolute_here path),
    location_join base h, hparts]

/-- **The key is the normal form of what the include asks for.** -/
theorem target_eq_normalize (hb : IsAbsolute base) (hx : ¬IsAbsolute extension) (written : String) :
    target extension base written = Path.normalize (Path.join base (complete extension written)) := by
  rw [target_eq]
  split
  · rfl
  · next hn =>
    have hw : ¬IsAbsolute written := fun ha => hn (Bool.or_eq_true_iff.2 (.inr ha))
    rw [complete_here, normalize_join_here hb (not_isAbsolute_complete hx hw)]

theorem target_here (hb : IsAbsolute base) (hx : ¬IsAbsolute extension) (h : ¬IsAbsolute written) :
    target extension base ("./" ++ written) = target extension base written := by
  rw [target_eq_normalize hb hx, target_eq_normalize hb hx, complete_here,
    normalize_join_here hb (not_isAbsolute_complete hx h)]

/-- From any directory, an absolute path with an extension leads to its normal form. -/
theorem target_of_isAbsolute (base : String) (ha : IsAbsolute path) (h : IsExtended path.toList) :
    target extension base path = Path.normalize path := by
  have hanchored : isAnchored path.toList = true := Bool.or_eq_true_iff.2 (.inr ha)
  rw [target_eq, if_pos hanchored, complete, if_pos h, join_of_isAbsolute base ha]

/-! ## Includes of a session -/

section

variable {r : Reader} {span : Span} {s : Session} {key : String}

/-- The session answers the include by what it knows of `key`. -/
structure GoesBy (r : Reader) (base written : String) (span : Span) (s : Session) (key : String) : Prop where
  /-- Inside of the file, the include leads back. -/
  circular : key ∈ s.resolving → (resolveAll r base [.inclusion written span] s).1
    = ([], s.report [⟨.circularImport key, span⟩])
  /-- What has been taken in is given out again. -/
  cached (found : Import) : key ∉ s.resolving → s.cached? key = some found →
    (resolveAll r base [.inclusion written span] s).1 = (found.body.statements span, s)
  unreadable : key ∉ s.resolving → s.cached? key = none → r.read? key = none →
    (resolveAll r base [.inclusion written span] s).1
      = ([], s.countRead.report [⟨.unreadableImport key, span⟩])
  /-- A file that can be read is taken in, and answers as it will again. -/
  taken (content : String) : key ∉ s.resolving → r.read? key = some content →
    ∃ found, (resolveAll r base [.inclusion written span] s).1.2.cached? key = some found ∧
      (resolveAll r base [.inclusion written span] s).1.1 = found.body.statements span

/-- **An include that is not remote goes by where it leads.** -/
theorem goesBy_target (r : Reader) (base : String) (span : Span) (s : Session)
    (hw : isRemote written = false) : GoesBy r base written span s (target s.extension base written) := by
  have answer {out : List Statement} {after : Session} (h : Answers r base written span s out after) :
      (resolveAll r base [.inclusion written span] s).1 = (out, after) := by
    rw [resolveAll_eq (.answer h (.nil base after)), List.append_nil]
  constructor
  · exact fun hn => answer (.circular hw hn)
  · exact fun found hn hc => answer (.cached hw hn hc)
  · exact fun hn hc hr => answer (.unreadable hw hn hc hr)
  · intro content hn hr
    cases hc : s.cached? (target s.extension base written) with
    | some found =>
      rw [answer (.cached hw hn hc)]
      exact ⟨found, hc, rfl⟩
    | none =>
      by_cases he : (target s.extension base written).endsWith s.extension = true
      · have inside := resolves r (Path.directory (target s.extension base written))
          (parseSource (target s.extension base written) content).document.children
          (s.goInside (target s.extension base written) content)
        rw [resolveAll_eq (.spec span hw hn hc hr he inside (.nil base _)), List.append_nil]
        exact ⟨_, (Session.cached?_comeOut ..).trans (if_pos rfl), rfl⟩
      · rw [answer (.text hw hn hc hr (by simpa using he))]
        exact ⟨_, (Table.get?_put ..).trans (if_pos rfl), rfl⟩

/-- **The second include of a key takes what the first has taken in**, and leaves the session as it is. -/
theorem GoesBy.again {base base' written' content : String} {span' : Span}
    (h : GoesBy r base written span s key)
    (h' : ∀ after : Session, after.extension = s.extension → GoesBy r base' written' span' after key)
    (hn : key ∉ s.resolving) (hr : r.read? key = some content) :
    let first := (resolveAll r base [.inclusion written span] s).1
    ∃ found, first.2.cached? key = some found ∧ first.1 = found.body.statements span ∧
      (resolveAll r base' [.inclusion written' span'] first.2).1
        = (found.body.statements span', first.2) := by
  intro first
  have run := resolves r base [.inclusion written span] s
  obtain ⟨found, hfound, hout⟩ := h.taken content hn hr
  have hafter : key ∉ first.2.resolving := run.resolving_eq ▸ hn
  exact ⟨found, hfound, hout, (h' first.2 run.extension_eq).cached found hafter hfound⟩

end

/-! ## Keys -/

theorem isExtended_defaultExtension : IsExtended defaultExtension.toList := by decide

theorem not_isAbsolute_defaultExtension : ¬IsAbsolute defaultExtension := by decide

/-- **Every file has one key.** The key of an include is canonical, and the include leads there. The key is
its own key from any directory, and a step that stays in front of a path does not change it; includes have one
key exactly when they lead to one place. In a session, all includes of one key share what has been taken in
and where it leads back. -/
theorem target_canonical (hb : IsAbsolute base) (written : String) :
    let key := target defaultExtension base written
    let path := Path.join base (complete defaultExtension written)
    (IsAbsolute key ∧ IsCanonical key ∧ location key = location path) ∧
      (∀ base', target defaultExtension base' key = key) ∧
      (¬IsAbsolute written → target defaultExtension base ("./" ++ written) = key) ∧
      (∀ base' written', IsAbsolute base' →
        (target defaultExtension base' written' = key ↔
          location (Path.join base' (complete defaultExtension written')) = location path)) ∧
      isRemote key = false ∧ isRemote ("./" ++ written) = isRemote written ∧
      ∀ (r : Reader) (span : Span) (s : Session) (base' written' : String),
        s.extension = defaultExtension → isRemote written' = false →
        target defaultExtension base' written' = key → GoesBy r base' written' span s key := by
  intro key path
  have hx := not_isAbsolute_defaultExtension
  have hpath : IsAbsolute path := hb.join _
  have hkey : key = Path.normalize path := target_eq_normalize hb hx written
  have hextended : IsExtended path.toList :=
    isExtended_join base (isExtended_complete isExtended_defaultExtension written)
  have hcanonical : IsCanonical key := by
    obtain ⟨above, name, hplace, -⟩ := exists_placeOf_eq_concat hextended
    rw [hkey]
    exact isCanonical_normalize hpath (by rw [hplace]; simp)
  have habs : IsAbsolute key := isAbsolute_target defaultExtension hb written
  refine ⟨⟨habs, hcanonical, hkey ▸ location_normalize hpath⟩, fun base' => ?_, target_here hb hx,
    fun base' written' hb' => ?_, hcanonical.isRemote_eq, isRemote_here written, ?_⟩
  · rw [target_of_isAbsolute base' habs (hkey ▸ isExtended_normalize hpath hextended), hkey,
      normalize_normalize hpath]
  · rw [target_eq_normalize hb' hx, hkey]
    exact normalize_eq_iff (hb'.join _) hpath
  · intro r span s base' written' hs hw he
    rw [← he, ← hs]
    exact goesBy_target r base' span s hw

/-- A file that is included by a detour, and then by its key from another directory. -/
theorem target_canonical_detour :
    let r := Reader.ofList [("/srv/lib.d/x.aid", "Draw a line;")]
    let span := Span.empty "/srv/app/main.aid"
    let first := (resolveAll r "/srv/./app/" [.inclusion "../lib.d//x" span] {}).1
    IsAbsolute "/srv/./app/" ∧ ¬IsAbsolute "../lib.d//x" ∧
      target defaultExtension "/srv/./app/" "../lib.d//x" = "/srv/lib.d/x.aid" ∧
      target defaultExtension "/srv/./app/" "./../lib.d//x" = "/srv/lib.d/x.aid" ∧
      target defaultExtension "elsewhere" "/srv/lib.d/x.aid" = "/srv/lib.d/x.aid" ∧
      ∃ found, first.2.cached? "/srv/lib.d/x.aid" = some found ∧ first.1 = found.body.statements span ∧
        (resolveAll r "elsewhere" [.inclusion "/srv/lib.d/x.aid" span] first.2).1
          = (found.body.statements span, first.2) := by
  intro r span first
  have hkey : target defaultExtension "/srv/./app/" "../lib.d//x" = "/srv/lib.d/x.aid" := by
    decide +kernel
  have h := target_canonical (by decide : IsAbsolute "/srv/./app/") "../lib.d//x"
  rw [hkey] at h
  obtain ⟨-, hself, hhere, -, hremote, -, hgoes⟩ := h
  refine ⟨by decide, by decide, hkey, hhere (by decide), hself _, ?_⟩
  have hwritten : isRemote "../lib.d//x" = false := Bool.eq_false_iff.2 (mt isRemote_iff.1 (by decide))
  exact (hgoes r span {} "/srv/./app/" "../lib.d//x" rfl hwritten hkey).again
    (fun after he => hgoes r span after "elsewhere" _ he hremote (hself _)) List.not_mem_nil rfl

end SpecTree.Include
