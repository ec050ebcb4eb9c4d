import Mathlib.Data.List.Induction
import Mathlib.Data.List.TakeWhile
import SpecTree.Path.Basic
import SpecTree.Store.Basic

/-!
# How paths below a directory are spelled

A path below a directory has one spelling, `spell directory names`, whichever way it was put
together (`assemble_eq_spell`, `spell_append`).

1. Splitting at slashes undoes joining, so that the components of a spelled path are those of the
   directory followed by the names (`parts_spell`), also where a path leads to the directory above
   (`parts_directory_spell`).
2. Longer names and more of them take more bytes (`size_spell_concat`, `size_spell_le`).
3. A spelled path holds no character but those of its parts, slashes and dots (`mem_spell`).
4. The normal form and the directory of an absolute path are absolute, and so is a path put behind one
   (`IsAbsolute`). A path that is not absolute goes on from what it is put behind (`parts_join`, `root_join`).
-/

namespace SpecTree

namespace Text

theorem mem_pieces {sep c : Char} {cs p : List Char} (hp : p ∈ pieces sep cs) (hc : c ∈ p) :
    c ∈ cs ∧ c ≠ sep := by
  induction cs generalizing p with
  | nil =>
    rw [pieces, List.mem_singleton] at hp
    exact absurd (hp ▸ hc) List.not_mem_nil
  | cons d cs ih =>
    rw [pieces] at hp
    split at hp
    · rcases List.mem_cons.1 hp with rfl | hp
      · exact absurd hc List.not_mem_nil
      · exact ⟨List.mem_cons_of_mem _ (ih hp hc).1, (ih hp hc).2⟩
    · next hd =>
      split at hp
      · next he => exact absurd he (pieces_ne_nil sep cs)
      · next q qs hq =>
        rcases List.mem_cons.1 hp with rfl | hp
        · rcases List.mem_cons.1 hc with rfl | hc
          · exact ⟨List.mem_cons_self, hd⟩
          · have := ih (hq ▸ List.mem_cons_self) hc
            exact ⟨List.mem_cons_of_mem _ this.1, this.2⟩
        · have := ih (hq ▸ List.mem_cons_of_mem _ hp) hc
          exact ⟨List.mem_cons_of_mem _ this.1, this.2⟩

/-- Splitting on both sides of a separator. -/
theorem pieces_append_cons (sep : Char) (cs more : List Char) :
    pieces sep (cs ++ sep :: more) = pieces sep cs ++ pieces sep more := by
  induction cs with
  | nil => simp [pieces]
  | cons c cs ih =>
    rw [List.cons_append, pieces, pieces]
    split
    · rw [ih]; rfl
    · rw [ih]
      cases h : pieces sep cs with
      | nil => exact absurd h (pieces_ne_nil sep cs)
      | cons p ps => rfl

theorem pieces_of_not_mem {sep : Char} {p : List Char} (hp : sep ∉ p) : pieces sep p = [p] := by
  induction p with
  | nil => rfl
  | cons c p ih =>
    have hc : c ≠ sep := fun e => hp (e ▸ List.mem_cons_self)
    rw [pieces, if_neg hc, ih fun h => hp (List.mem_cons_of_mem _ h)]

theorem pieces_append {sep : Char} {p : List Char} (hp : sep ∉ p) (cs : List Char) :
    pieces sep (p ++ sep :: cs) = p :: pieces sep cs := by
  rw [pieces_append_cons, pieces_of_not_mem hp, List.singleton_append]

theorem pieces_cons_self (sep : Char) (cs : List Char) : pieces sep (sep :: cs) = [] :: pieces sep cs :=
  pieces_append List.not_mem_nil cs

theorem pieces_joinPieces {sep : Char} {ps : List (List Char)} (hn : ps ≠ [])
    (h : ∀ p ∈ ps, sep ∉ p) : pieces sep (joinPieces sep ps) = ps := by
  induction ps with
  | nil => exact absurd rfl hn
  | cons p ps ih =>
    have hp := h p List.mem_cons_self
    cases ps with
    | nil => exact pieces_of_not_mem hp
    | cons q qs =>
      rw [joinPieces, pieces_append hp, ih (by simp) fun r hr => h r (List.mem_cons_of_mem _ hr)]

theorem joinPieces_append {sep : Char} {ps qs : List (List Char)} (hp : ps ≠ []) (hq : qs ≠ []) :
    joinPieces sep (ps ++ qs) = joinPieces sep ps ++ sep :: joinPieces sep qs := by
  induction ps with
  | nil => exact absurd rfl hp
  | cons p ps ih =>
    obtain ⟨q, qs, rfl⟩ := List.exists_cons_of_ne_nil hq
    cases ps with
    | nil => rfl
    | cons p' ps =>
      have := ih (by simp)
      simp only [List.cons_append, joinPieces, List.append_assoc] at this ⊢
      rw [this]

theorem mem_joinPieces {sep c : Char} {ps : List (List Char)} (h : c ∈ joinPieces sep ps) :
    c = sep ∨ ∃ p ∈ ps, c ∈ p := by
  induction ps with
  | nil => exact absurd h List.not_mem_nil
  | cons p ps ih =>
    cases ps with
    | nil => exact .inr ⟨p, List.mem_cons_self, h⟩
    | cons q qs =>
      rw [joinPieces, List.mem_append, List.mem_cons] at h
      rcases h with h | rfl | h
      · exact .inr ⟨p, List.mem_cons_self, h⟩
      · exact .inl rfl
      · rcases ih h with rfl | ⟨r, hr, hc⟩
        · exact .inl rfl
        · exact .inr ⟨r, List.mem_cons_of_mem _ hr, hc⟩

theorem mem_joinPieces_of_mem {sep c : Char} {ps : List (List Char)} {p : List Char} (hp : p ∈ ps)
    (hc : c ∈ p) : c ∈ joinPieces sep ps := by
  induction ps with
  | nil => exact absurd hp List.not_mem_nil
  | cons q ps ih =>
    cases ps with
    | nil => exact List.mem_singleton.1 hp ▸ hc
    | cons r rs =>
      rw [joinPieces, List.mem_append, List.mem_cons]
      rcases List.mem_cons.1 hp with rfl | hp
      · exact .inl hc
      · exact .inr (.inr (ih hp))

end Text

namespace Path

open Text

/-- A name that counts as one component of a path. -/
structure IsComponent (n : String) : Prop where
  ne_nil : n.toList ≠ []
  slash_not_mem : '/' ∉ n.toList
  ne_here : n.toList ≠ here

instance : DecidablePred IsComponent := fun n =>
  decidable_of_iff (n.toList ≠ [] ∧ '/' ∉ n.toList ∧ n.toList ≠ here)
    ⟨fun h => ⟨h.1, h.2.1, h.2.2⟩, fun h => ⟨h.ne_nil, h.slash_not_mem, h.ne_here⟩⟩

/-! ## Components -/

theorem mem_components {p c : List Char} (h : c ∈ components p) :
    c ≠ [] ∧ '/' ∉ c ∧ c ≠ here ∧ ∀ x ∈ c, x ∈ p := by
  obtain ⟨hc, h⟩ := List.mem_filter.1 h
  simp only [Bool.and_eq_true, Bool.not_eq_true', bne_iff_ne, List.isEmpty_eq_false_iff] at h
  exact ⟨h.1, fun hs => (mem_pieces hc hs).2 rfl, h.2, fun x hx => (mem_pieces hc hx).1⟩

theorem exists_component_of_mem {p : List Char} {c : Char} (h : c ∈ p) (hs : c ≠ '/')
    (hd : c ≠ '.') : ∃ q ∈ components p, c ∈ q := by
  rw [← joinPieces_pieces '/' p] at h
  obtain ⟨q, hq, hc⟩ := (mem_joinPieces h).resolve_left hs
  refine ⟨q, List.mem_filter.2 ⟨hq, ?_⟩, hc⟩
  have hh : q ≠ here := by
    rintro rfl
    exact hd (List.mem_singleton.1 hc)
  simp [List.ne_nil_of_mem hc, hh]

theorem components_joinPieces {ps : List (List Char)}
    (h : ∀ p ∈ ps, p ≠ [] ∧ '/' ∉ p ∧ p ≠ here) : components (joinPieces '/' ps) = ps := by
  by_cases hn : ps = []
  · rw [hn]; rfl
  · rw [components, pieces_joinPieces hn fun p hp => (h p hp).2.1, List.filter_eq_self]
    intro p hp
    simp [(h p hp).1, (h p hp).2.2]

theorem components_slash (p : List Char) : components ('/' :: p) = components p := by
  rw [components, pieces_cons_self, List.filter_cons_of_neg (by simp)]
  rfl

theorem components_append_cons (d p : List Char) :
    components (d ++ '/' :: p) = components d ++ components p := by
  rw [components, pieces_append_cons, List.filter_append]
  rfl

theorem root_cases (p : List Char) : root p = [] ∨ root p = ['/'] ∨ root p = ['/', '/'] := by
  unfold root
  split
  · exact .inl rfl
  · exact .inr (.inr rfl)
  · exact .inr (.inl rfl)

theorem components_root_append (d p : List Char) : components (root d ++ p) = components p := by
  rcases root_cases d with h | h | h <;> rw [h] <;> simp [components_slash]

@[simp] theorem components_root (d : List Char) : components (root d) = [] := by
  have hroot := components_root_append d []
  rwa [List.append_nil] at hroot

theorem components_component {n : List Char} (h : n ≠ [] ∧ '/' ∉ n ∧ n ≠ here) :
    components n = [n] := by
  have hj := components_joinPieces fun p (hp : p ∈ [n]) => List.mem_singleton.1 hp ▸ h
  rwa [joinPieces] at hj

theorem parts_component {n : String} (h : IsComponent n) : parts n = [n] := by
  rw [parts, components_component ⟨h.ne_nil, h.slash_not_mem, h.ne_here⟩, List.map_singleton,
    String.ofList_toList]

theorem isComponent_of_mem_parts {p n : String} (h : n ∈ parts p) : IsComponent n := by
  obtain ⟨c, hc, rfl⟩ := List.mem_map.1 h
  obtain ⟨h0, h1, h2, _⟩ := mem_components hc
  rw [← String.toList_ofList (l := c)] at h0 h1 h2
  exact ⟨h0, h1, h2⟩

theorem map_toList_parts (p : String) : (parts p).map String.toList = components p.toList := by
  rw [parts, List.map_map]
  exact (List.map_congr_left fun c _ => String.toList_ofList).trans (List.map_id _)

/-! ## Normal form -/

theorem mem_resolveParents {rooted : Bool} {cs : List (List Char)} {q : List Char}
    (h : q ∈ resolveParents rooted cs) : q ∈ cs ∨ q = parent := by
  have key : ∀ (cs stack : List (List Char)), q ∈ cs.foldl (push rooted) stack →
      q ∈ stack ∨ q ∈ cs ∨ q = parent := by
    intro cs
    induction cs with
    | nil => exact fun stack h => .inl h
    | cons c cs ih =>
      intro stack h
      rcases ih _ h with h | h | h
      · unfold push at h
        split at h
        · split at h
          · split at h
            · cases h
            · exact .inr (.inr (List.mem_singleton.1 h))
          · split at h
            · exact (List.mem_cons.1 h).elim (fun h => .inr (.inr h)) .inl
            · exact .inl (List.mem_cons_of_mem _ h)
        · exact (List.mem_cons.1 h).elim (fun h => .inr (.inl (h ▸ List.mem_cons_self))) .inl
      · exact .inr (.inl (List.mem_cons_of_mem _ h))
      · exact .inr (.inr h)
  rw [resolveParents, List.mem_reverse] at h
  exact (key cs [] h).resolve_left List.not_mem_nil

theorem mem_normalizeChars {p : List Char} {c : Char} (h : c ∈ normalizeChars p) :
    c ∈ p ∨ c = '/' ∨ c = '.' := by
  have hroot : c ∈ root p → c = '/' := by
    intro hc
    rcases root_cases p with hr | hr | hr <;> rw [hr] at hc <;> simp_all
  unfold normalizeChars at h
  dsimp only at h
  split at h
  · exact .inr (.inr (List.mem_singleton.1 h))
  · rcases List.mem_append.1 h with h | h
    · exact .inr (.inl (hroot h))
    · rcases mem_joinPieces h with rfl | ⟨q, hq, hc⟩
      · exact .inr (.inl rfl)
      · rcases mem_resolveParents hq with hq | rfl
        · exact .inl ((mem_components hq).2.2.2 c hc)
        · exact .inr (.inr (by simpa [parent] using hc))

/-! ## One spelling -/

/-- The path of the names below a directory. -/
def spell (directory : String) (names : List String) : String :=
  String.ofList (root directory.toList
    ++ joinPieces '/' ((parts directory ++ names).map String.toList))

theorem toList_spell (directory : String) (names : List String) :
    (spell directory names).toList = root directory.toList
      ++ joinPieces '/' ((parts directory ++ names).map String.toList) := String.toList_ofList

theorem fromLastAbsolute_cons (d : List Char) {ps : List (List Char)}
    (h : ∀ q ∈ ps, isAbsoluteChars q = false) : fromLastAbsolute (d :: ps) = d :: ps := by
  rw [fromLastAbsolute, if_neg]
  simpa using h

/-- **Paths put together are spelled.** -/
theorem assemble_eq_spell {directory : String} {ps names : List String} (hn : names ≠ [])
    (hi : ∀ n ∈ names, IsComponent n) (hp : ∀ p ∈ ps, isAbsoluteChars p.toList = false)
    (h : ps.flatMap parts = names) : assemble (directory :: ps) = spell directory names := by
  have hu : fromLastAbsolute ((directory :: ps).map String.toList)
      = directory.toList :: ps.map String.toList :=
    fromLastAbsolute_cons _ fun q hq => by
      obtain ⟨p, hp', rfl⟩ := List.mem_map.1 hq
      exact hp p hp'
  have hc : (directory.toList :: ps.map String.toList).flatMap components
      = (parts directory ++ names).map String.toList := by
    rw [List.flatMap_cons, List.map_append, map_toList_parts, ← h, List.map_flatMap,
      List.flatMap_map]
    simp only [map_toList_parts]
  have hne : root directory.toList
      ++ joinPieces '/' ((parts directory ++ names).map String.toList) ≠ [] := by
    obtain ⟨n, ns, rfl⟩ := List.exists_cons_of_ne_nil hn
    obtain ⟨c, hcn⟩ := List.exists_mem_of_ne_nil _ (hi n List.mem_cons_self).ne_nil
    refine List.append_ne_nil_of_right_ne_nil _ (List.ne_nil_of_mem (a := c) ?_)
    exact mem_joinPieces_of_mem (List.mem_map_of_mem (by simp)) hcn
  rw [assemble, assembleChars, hu]
  simp only [List.headD_cons]
  rw [hc, spell]
  split
  · next he => exact absurd he hne
  · rfl

theorem not_isAbsolute_component {n : String} (h : IsComponent n) :
    isAbsoluteChars n.toList = false := by
  obtain ⟨c, cs, hc⟩ := List.exists_cons_of_ne_nil h.ne_nil
  have hne : '/' ≠ c := fun e => h.slash_not_mem (by rw [hc, ← e]; exact List.mem_cons_self)
  simp [isAbsoluteChars, hc, List.isPrefixOf, hne]

theorem assemble_component (directory : String) {n : String} (h : IsComponent n) :
    assemble [directory, n] = spell directory [n] := by
  refine assemble_eq_spell (List.cons_ne_nil n []) (List.forall_mem_singleton.2 h)
    (List.forall_mem_singleton.2 (not_isAbsolute_component h)) ?_
  rw [List.flatMap_singleton, parts_component h]

theorem parts_spell (directory : String) {names : List String} (h : ∀ n ∈ names, IsComponent n) :
    parts (spell directory names) = parts directory ++ names := by
  rw [parts, toList_spell, components_root_append, components_joinPieces, List.map_map]
  · exact (List.map_congr_left fun n _ => String.ofList_toList).trans (List.map_id _)
  · intro p hp
    obtain ⟨n, hn, rfl⟩ := List.mem_map.1 hp
    rcases List.mem_append.1 hn with hn | hn
    · have := isComponent_of_mem_parts hn
      exact ⟨this.ne_nil, this.slash_not_mem, this.ne_here⟩
    · exact ⟨(h n hn).ne_nil, (h n hn).slash_not_mem, (h n hn).ne_here⟩

theorem joinPieces_concat_append (ps : List (List Char)) (p q : List Char) :
    joinPieces '/' (ps ++ [p]) ++ q = joinPieces '/' (ps ++ [p ++ q]) := by
  by_cases h : ps = []
  · rw [h]; rfl
  · rw [joinPieces_append h (by simp), joinPieces_append h (by simp)]
    simp [joinPieces]

/-- A suffix lengthens the last name. -/
theorem spell_append (directory : String) (names : List String) (n suffix : String) :
    spell directory (names ++ [n]) ++ suffix = spell directory (names ++ [n ++ suffix]) := by
  rw [← String.toList_inj, String.toList_append, toList_spell, toList_spell, List.append_assoc]
  simp only [← List.append_assoc (parts directory), List.map_append, List.map_singleton,
    String.toList_append]
  rw [joinPieces_concat_append]

theorem mem_spell {directory : String} {names : List String} {c : Char}
    (h : c ∈ (spell directory names).toList) :
    c = '/' ∨ c ∈ directory.toList ∨ ∃ n ∈ names, c ∈ n.toList := by
  rw [toList_spell, List.mem_append] at h
  rcases h with h | h
  · rcases root_cases directory.toList with hr | hr | hr <;> rw [hr] at h <;> simp at h <;>
      exact .inl h
  · rcases mem_joinPieces h with rfl | ⟨p, hp, hc⟩
    · exact .inl rfl
    · obtain ⟨n, hn, rfl⟩ := List.mem_map.1 hp
      rcases List.mem_append.1 hn with hn | hn
      · refine .inr (.inl ?_)
        have hm : n.toList ∈ components directory.toList :=
          map_toList_parts directory ▸ List.mem_map_of_mem hn
        exact (mem_components hm).2.2.2 c hc
      · exact .inr (.inr ⟨n, hn, hc⟩)

/-! ## Sizes -/

theorem size_ofList_append (a b : List Char) :
    (String.ofList (a ++ b)).utf8ByteSize
      = (String.ofList a).utf8ByteSize + (String.ofList b).utf8ByteSize := by
  rw [String.ofList_append, String.utf8ByteSize_append]

/-- One more name adds its own size to that of what stands before it. -/
theorem size_spell_concat (directory : String) (names : List String) :
    ∃ k, (spell directory names).utf8ByteSize ≤ k ∧
      ∀ n, (spell directory (names ++ [n])).utf8ByteSize = k + n.utf8ByteSize := by
  by_cases h : parts directory ++ names = []
  · refine ⟨(String.ofList (root directory.toList)).utf8ByteSize, ?_, fun n => ?_⟩
    · rw [spell, h]
      simp [joinPieces]
    · rw [spell, ← List.append_assoc, h, List.nil_append, size_ofList_append]
      simp [joinPieces]
  · refine ⟨(spell directory names).utf8ByteSize + (String.ofList ['/']).utf8ByteSize, by omega,
      fun n => ?_⟩
    rw [spell, ← List.append_assoc, List.map_append, joinPieces_append (by simpa using h) (by simp),
      ← List.append_assoc, size_ofList_append, ← List.singleton_append, size_ofList_append]
    simp [joinPieces, spell, Nat.add_assoc]

theorem size_spell_le (directory : String) (names more : List String) :
    (spell directory names).utf8ByteSize ≤ (spell directory (names ++ more)).utf8ByteSize := by
  induction more using List.reverseRecOn with
  | nil => simp
  | append_singleton more n ih =>
    obtain ⟨k, hk, h⟩ := size_spell_concat directory (names ++ more)
    rw [← List.append_assoc, h n]
    omega

/-- A spelled path has as many bytes as names at least. -/
theorem length_le_size_spell (directory : String) {names : List String}
    (h : ∀ n ∈ names, IsComponent n) : names.length ≤ (spell directory names).utf8ByteSize := by
  induction names using List.reverseRecOn with
  | nil => exact Nat.zero_le _
  | append_singleton names n ih =>
    obtain ⟨k, hk, hs⟩ := size_spell_concat directory names
    have hn : 0 < n.utf8ByteSize := by
      refine Nat.pos_of_ne_zero fun h0 => (h n (by simp)).ne_nil ?_
      rw [String.utf8ByteSize_eq_zero_iff.1 h0]
      rfl
    have := ih fun m hm => h m (List.mem_append_left _ hm)
    rw [List.length_append, List.length_singleton, hs]
    omega

/-! ## Spelling further -/

theorem takeWhile_slash_eq_nil {p : List Char} (h : p.head? ≠ some '/') :
    p.takeWhile (· == '/') = [] := by
  cases p with
  | nil => rfl
  | cons c cs =>
    refine List.takeWhile_cons_of_neg ?_
    simpa using h

theorem root_append (d : List Char) {p : List Char} (h : p.head? ≠ some '/') :
    root (root d ++ p) = root d := by
  have htake := takeWhile_slash_eq_nil h
  rcases root_cases d with hr | hr | hr <;> rw [hr] <;> simp [root, htake]

/-- Slashes count as the root in front of everything else only. -/
theorem root_append_of_head? (d : List Char) {p : List Char} (h : p.head? ≠ some '/') :
    root (d ++ p) = root d := by
  have htake : (d ++ p).takeWhile (· == '/') = d.takeWhile (· == '/') := by
    rw [List.takeWhile_append, takeWhile_slash_eq_nil h, List.append_nil]
    split
    · next hd => exact ((List.takeWhile_prefix _).eq_of_length hd).symm
    · rfl
  rw [root, root, htake]

@[simp] theorem root_root (d : List Char) : root (root d) = root d := by
  have hroot := root_append d (p := []) nofun
  rwa [List.append_nil] at hroot

theorem root_spell (directory : String) {names : List String} (h : ∀ n ∈ names, IsComponent n) :
    root (spell directory names).toList = root directory.toList := by
  rw [toList_spell]
  refine root_append _ ?_
  have hc : ∀ n ∈ parts directory ++ names, IsComponent n := fun n hn =>
    (List.mem_append.1 hn).elim isComponent_of_mem_parts (h n)
  cases hp : parts directory ++ names with
  | nil => simp [joinPieces]
  | cons n ns =>
    have hn := hc n (hp ▸ List.mem_cons_self)
    obtain ⟨c, cs, hcs⟩ := List.exists_cons_of_ne_nil hn.ne_nil
    have hne : c ≠ '/' := fun e => hn.slash_not_mem (by rw [hcs, e]; exact List.mem_cons_self)
    cases ns <;> simpa [joinPieces, hcs] using hne

/-- **Spelling goes on** where it has stopped. -/
theorem spell_spell (directory : String) {names : List String} (h : ∀ n ∈ names, IsComponent n)
    (more : List String) : spell (spell directory names) more = spell directory (names ++ more) := by
  rw [spell, root_spell directory h, parts_spell directory h, List.append_assoc]
  rfl

/-- An empty part adds nothing. -/
theorem assemble_empty (directory : String) :
    assemble [directory, ""]
      = if spell directory [] = "" then "." else spell directory [] := by
  have hu : fromLastAbsolute ([directory, ""].map String.toList) = [directory.toList, []] :=
    fromLastAbsolute_cons _ (by decide)
  have hc : [directory.toList, []].flatMap components = (parts directory).map String.toList := by
    rw [map_toList_parts]
    simp [components, pieces]
  have hs : (spell directory []).toList
      = root directory.toList ++ joinPieces '/' ((parts directory).map String.toList) := by
    rw [toList_spell, List.append_nil]
  rw [assemble, assembleChars, hu, hc, List.headD_cons, ← hs]
  split
  · next h0 =>
    rw [if_pos (String.toList_eq_nil_iff.1 h0)]
    rfl
  · next h0 => rw [if_neg fun he => h0 (String.toList_eq_nil_iff.2 he), String.ofList_toList]

theorem parts_assemble_empty (directory : String) :
    parts (assemble [directory, ""]) = parts directory := by
  have hp := parts_spell directory (fun n hn => absurd hn List.not_mem_nil : ∀ n ∈ [], IsComponent n)
  rw [List.append_nil] at hp
  rw [assemble_empty, ← hp]
  split
  · next h0 => rw [h0]; rfl
  · rfl

theorem spell_assemble_empty (directory : String) (names : List String) :
    spell (assemble [directory, ""]) names = spell directory names := by
  have hroot : root (assemble [directory, ""]).toList = root directory.toList := by
    rw [← root_spell directory (fun n hn => absurd hn List.not_mem_nil : ∀ n ∈ [], IsComponent n),
      assemble_empty]
    split
    · next h0 => rw [h0]; rfl
    · rfl
  rw [spell, hroot, parts_assemble_empty]
  rfl

/-! ## The directory of a path -/

theorem components_concat_slash (p : List Char) : components (p ++ ['/']) = components p := by
  rw [components_append_cons]
  simp [components, pieces]

theorem components_trimSlashes (p : List Char) :
    components (p.reverse.dropWhile (· == '/')).reverse = components p := by
  induction p using List.reverseRecOn with
  | nil => rfl
  | append_singleton p c ih =>
    rw [List.reverse_append, List.reverse_singleton, List.singleton_append, List.dropWhile_cons]
    split
    · next h => rw [ih, eq_of_beq h, components_concat_slash]
    · rw [List.reverse_cons, List.reverse_reverse]

/-- What stands before the last name of a path ends in a slash. -/
theorem dropWhile_ne_slash {front n : List Char} (hn : '/' ∉ n)
    (hf : front = [] ∨ ∃ more, front = more ++ ['/']) :
    ((front ++ n).reverse.dropWhile (· != '/')).reverse = front := by
  have hd : n.reverse.dropWhile (· != '/') = [] := by
    refine List.dropWhile_eq_nil_iff.2 fun c hc => ?_
    exact bne_iff_ne.2 fun e => hn (e ▸ List.mem_reverse.1 hc)
  rw [List.reverse_append, List.dropWhile_append, if_pos (by rw [hd]; rfl)]
  rcases hf with rfl | ⟨more, rfl⟩
  · rfl
  · simp

theorem components_directory {front n : List Char} {p : String} (hp : p.toList = front ++ n)
    (hn : '/' ∉ n) (hf : front = [] ∨ ∃ more, front = more ++ ['/']) :
    components (directory p).toList = components front := by
  unfold directory
  rw [hp, dropWhile_ne_slash hn hf]
  dsimp only
  split
  · rw [String.toList_ofList]
  · rw [String.toList_ofList, components_trimSlashes]

theorem parts_directory_spell {dir : String} {names : List String} {n : String}
    (h : ∀ m ∈ names, IsComponent m) (hn : IsComponent n) :
    parts (directory (spell dir (names ++ [n]))) = parts dir ++ names := by
  have hc := parts_spell dir h
  by_cases h0 : parts dir ++ names = []
  · have hp : (spell dir (names ++ [n])).toList = root dir.toList ++ n.toList := by
      rw [toList_spell, ← List.append_assoc, h0]
      rfl
    have hf : root dir.toList = [] ∨ ∃ more, root dir.toList = more ++ ['/'] := by
      rcases root_cases dir.toList with hr | hr | hr
      · exact .inl hr
      · exact .inr ⟨[], hr⟩
      · exact .inr ⟨['/'], hr⟩
    rw [parts, components_directory hp hn.slash_not_mem hf, h0,
      ← List.append_nil (root dir.toList), components_root_append]
    rfl
  · have hp : (spell dir (names ++ [n])).toList = ((spell dir names).toList ++ ['/']) ++ n.toList := by
      rw [toList_spell, toList_spell, ← List.append_assoc (parts dir), List.map_append,
        joinPieces_append (by simpa using h0) (by simp)]
      simp [joinPieces]
    rw [parts, components_directory hp hn.slash_not_mem (.inr ⟨_, rfl⟩), components_concat_slash]
    exact hc

/-! ## Paths of places -/

theorem joinPieces_eq_intercalate (sep : Char) (ps : List (List Char)) :
    joinPieces sep ps = [sep].intercalate ps := by
  induction ps with
  | nil => rfl
  | cons p ps ih =>
    cases ps with
    | nil => simp [joinPieces]
    | cons q qs => simp [joinPieces, ih]

theorem toList_pathOf (place : Place) :
    (Store.pathOf place).toList = '/' :: joinPieces '/' (place.map String.toList) := by
  rw [Store.pathOf, String.toList_append, String.toList_intercalate, joinPieces_eq_intercalate]
  rfl

theorem parts_pathOf {place : Place} (h : ∀ n ∈ place, IsComponent n) :
    parts (Store.pathOf place) = place := by
  rw [parts, toList_pathOf, components_slash, components_joinPieces, List.map_map]
  · exact (List.map_congr_left fun n _ => String.ofList_toList).trans (List.map_id _)
  · intro p hp
    obtain ⟨n, hn, rfl⟩ := List.mem_map.1 hp
    exact ⟨(h n hn).ne_nil, (h n hn).slash_not_mem, (h n hn).ne_here⟩

theorem root_pathOf {place : Place} (h : ∀ n ∈ place, IsComponent n) :
    root (Store.pathOf place).toList = ['/'] := by
  rw [toList_pathOf]
  cases place with
  | nil => rfl
  | cons n ns =>
    have hn := h n List.mem_cons_self
    obtain ⟨c, cs, hc⟩ := List.exists_cons_of_ne_nil hn.ne_nil
    have hne : (c == '/') = false := by
      rw [beq_eq_false_iff_ne]
      rintro rfl
      exact hn.slash_not_mem (hc ▸ List.mem_cons_self)
    cases ns <;> simp [root, hc, joinPieces, hne]

theorem spell_pathOf {place : Place} (h : ∀ n ∈ place, IsComponent n) (names : List String) :
    spell (Store.pathOf place) names = Store.pathOf (place ++ names) := by
  rw [← String.toList_inj, toList_spell, root_pathOf h, parts_pathOf h, toList_pathOf]
  rfl

theorem size_pathOf_concat {place : Place} (h : place ≠ []) (n : String) :
    (Store.pathOf (place ++ [n])).utf8ByteSize
      = (Store.pathOf place).utf8ByteSize + 1 + n.utf8ByteSize := by
  have he : Store.pathOf (place ++ [n]) = Store.pathOf place ++ "/" ++ n := by
    rw [← String.toList_inj, toList_pathOf, List.map_append,
      joinPieces_append (by simpa using h) (by simp), String.toList_append, String.toList_append,
      toList_pathOf]
    simp [joinPieces]
  rw [he, String.utf8ByteSize_append, String.utf8ByteSize_append]
  rfl

theorem size_pathOf_le (directory : String) (names : List String) :
    (Store.pathOf (parts directory ++ names)).utf8ByteSize
      ≤ (spell directory names).utf8ByteSize + 1 := by
  rw [← String.ofList_toList (s := Store.pathOf _), toList_pathOf, spell, size_ofList_append,
    ← List.singleton_append, size_ofList_append]
  simp only [show (String.ofList ['/']).utf8ByteSize = 1 by decide]
  omega

end Path

end SpecTree

namespace SpecTree.Path

/-! ## Absolute paths -/

theorem isAbsoluteChars_iff {cs : List Char} : isAbsoluteChars cs = true ↔ cs.head? = some '/' := by
  cases cs with
  | nil => simp [isAbsoluteChars]
  | cons c cs =>
    simp only [isAbsoluteChars, List.isPrefixOf, Bool.and_true, beq_iff_eq, List.head?_cons,
      Option.some.injEq]
    exact eq_comm

/-- The path starts at the root. -/
def IsAbsolute (p : String) : Prop := isAbsoluteChars p.toList = true

instance : DecidablePred IsAbsolute := fun _ => inferInstanceAs (Decidable (_ = true))

theorem isAbsolute_ofList {cs : List Char} : IsAbsolute (String.ofList cs) ↔ cs.head? = some '/' := by
  rw [IsAbsolute, String.toList_ofList, isAbsoluteChars_iff]

theorem IsAbsolute.head?_toList {p : String} (h : IsAbsolute p) : p.toList.head? = some '/' :=
  isAbsoluteChars_iff.1 h

theorem head?_root {cs : List Char} (h : cs.head? = some '/') : (root cs).head? = some '/' := by
  obtain ⟨c, cs, rfl⟩ := List.exists_cons_of_ne_nil (show cs ≠ [] by rintro rfl; cases h)
  cases h
  unfold root
  rw [List.takeWhile_cons_of_pos (by rfl)]
  split
  · next h => cases h
  · rfl
  · rfl

theorem IsAbsolute.normalize {p : String} (h : IsAbsolute p) : IsAbsolute (Path.normalize p) := by
  rw [Path.normalize, isAbsolute_ofList, normalizeChars]
  have hroot := head?_root h.head?_toList
  split
  · next hn =>
    rw [(List.append_eq_nil_iff.1 hn).1] at hroot
    cases hroot
  · rw [List.head?_append, hroot]
    rfl

theorem IsAbsolute.join {base : String} (h : IsAbsolute base) (p : String) :
    IsAbsolute (Path.join base p) := by
  have hbase (cs : List Char) : (base.toList ++ cs).head? = some '/' := by
    rw [List.head?_append, h.head?_toList]
    rfl
  rw [Path.join, isAbsolute_ofList, joinChars]
  split
  · next hp => exact isAbsoluteChars_iff.1 hp
  · split
    · exact hbase _
    · exact hbase _

theorem not_isAbsolute_iff {p : String} : ¬IsAbsolute p ↔ p.toList.head? ≠ some '/' := by
  rw [IsAbsolute, isAbsoluteChars_iff]

theorem join_of_isAbsolute (base : String) {p : String} (h : IsAbsolute p) : Path.join base p = p := by
  rw [Path.join, joinChars,
    if_pos (show isAbsoluteChars p.toList = true from h), String.ofList_toList]

/-- A path that is not absolute goes on from the base. -/
theorem components_join (base : String) {p : String} (h : ¬IsAbsolute p) :
    components (Path.join base p).toList = components base.toList ++ components p.toList := by
  rw [Path.join, String.toList_ofList, joinChars,
    if_neg (show ¬isAbsoluteChars p.toList = true from h)]
  split
  · next hb =>
    rcases Bool.or_eq_true_iff.1 hb with hb | hb
    · rw [List.isEmpty_iff.1 hb]
      rfl
    · obtain ⟨d, hd⟩ := List.getLast?_eq_some_iff.1 (eq_of_beq hb)
      rw [hd, components_concat_slash, List.append_assoc]
      exact components_append_cons d p.toList
  · exact components_append_cons base.toList p.toList

theorem parts_join (base : String) {p : String} (h : ¬IsAbsolute p) :
    parts (Path.join base p) = parts base ++ parts p := by
  rw [parts, components_join base h, List.map_append]
  rfl

theorem root_join (base : String) {p : String} (h : ¬IsAbsolute p) :
    root (Path.join base p).toList = root base.toList := by
  have hp := not_isAbsolute_iff.1 h
  rw [Path.join, String.toList_ofList, joinChars,
    if_neg (show ¬isAbsoluteChars p.toList = true from h)]
  split
  · exact root_append_of_head? _ hp
  · next hlast =>
    simp only [Bool.or_eq_true, not_or, beq_iff_eq, List.isEmpty_iff] at hlast
    -- The last character of the base is no slash, so that the slash behind it does not count.
    obtain ⟨d, c, hd⟩ : ∃ d c, base.toList = d ++ [c] :=
      ⟨_, _, (List.dropLast_concat_getLast hlast.1).symm⟩
    rw [hd, List.getLast?_concat] at hlast
    have hc (more : List Char) : root (d ++ c :: more) = root d :=
      root_append_of_head? d fun he => hlast.2 he
    rw [hd, List.append_assoc]
    exact (hc ('/' :: p.toList)).trans (hc []).symm

theorem IsAbsolute.directory {p : String} (h : IsAbsolute p) : IsAbsolute (Path.directory p) := by
  -- What is cut off at the end leaves the first slash where it is.
  have hcut {cs : List Char} (keep : Char → Bool) (hcs : cs.head? = some '/')
      (hn : cs.reverse.dropWhile keep ≠ []) : (cs.reverse.dropWhile keep).reverse.head? = some '/' := by
    obtain ⟨tail, htail⟩ : (cs.reverse.dropWhile keep).reverse <+: cs :=
      List.reverse_suffix.1 (by simpa using List.dropWhile_suffix keep)
    rw [← htail, List.head?_append, Option.or_of_isSome (by simpa using hn)] at hcs
    exact hcs
  have hslash : '/' ∈ p.toList := List.mem_of_mem_head? h.head?_toList
  have hhead := hcut (· != '/') h.head?_toList fun hnil =>
    absurd (List.dropWhile_eq_nil_iff.1 hnil _ (List.mem_reverse.2 hslash)) (by simp)
  unfold Path.directory
  dsimp only
  split
  · exact isAbsolute_ofList.2 hhead
  · next hall =>
    refine isAbsolute_ofList.2 (hcut _ hhead fun hnil => hall (List.all_eq_true.2 fun c hc => ?_))
    exact List.dropWhile_eq_nil_iff.1 hnil c (List.mem_reverse.2 hc)

end SpecTree.Path
