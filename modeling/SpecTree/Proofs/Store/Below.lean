import SpecTree.Proofs.Path.Spelling
import SpecTree.Proofs.Store.Walk

/-!
# Operations below a directory

Where a path leads that spells names below a directory, as long as no link lies there (`Anchored`,
`Spells`). The names must be usable (`IsFileName`) and the path short enough.

1. `spells_spell` and `spells_pathOf`: the ways in which such a path is put together.
2. `Anchored.locate` and `Anchored.find` follow it, and `Anchored.keeps`, `Anchored.set` and
   `Anchored.prune` say that it can be followed on.
3. `Anchored.ask_of_none` and `Anchored.ask_of_missing`: the answer to a question is no where nothing is.
-/

namespace SpecTree.Store

open SpecTree.Path

variable {s t : Store} {directory path : String} {base : Place} {names : List String} {last : String}

/-! ## Paths that spell names -/

/-- A name that a file may have. -/
structure IsFileName (n : String) : Prop extends IsComponent n where
  plain : IsPlainName n
  zero_not_mem : '\x00' ∉ n.toList

/-- A path that can be followed and spells names below a directory. -/
structure Spells (path directory : String) (names : List String) : Prop where
  parts : parts path = parts directory ++ names
  noZero : path.contains '\x00' = false
  size : path.utf8ByteSize < pathLimit

theorem noZero_iff : path.contains '\x00' = false ↔ '\x00' ∉ path.toList := by
  rw [String.contains_char_eq, decide_eq_false_iff_not]

theorem noZero_spell (h0 : directory.contains '\x00' = false)
    (hn : ∀ n ∈ names, '\x00' ∉ n.toList) : (spell directory names).contains '\x00' = false := by
  rw [noZero_iff] at h0 ⊢
  intro h
  rcases mem_spell h with h | h | ⟨n, hm, h⟩
  · exact absurd h (by decide)
  · exact h0 h
  · exact hn n hm h

theorem spells_spell (h0 : directory.contains '\x00' = false) (hn : ∀ n ∈ names, IsFileName n)
    (hs : (spell directory names).utf8ByteSize < pathLimit) :
    Spells (spell directory names) directory names where
  parts := parts_spell directory fun n hm => (hn n hm).toIsComponent
  noZero := noZero_spell h0 fun n hm => (hn n hm).zero_not_mem
  size := hs

theorem noZero_pathOf {place : Place} (h : ∀ n ∈ place, '\x00' ∉ n.toList) :
    (pathOf place).contains '\x00' = false := by
  rw [noZero_iff, toList_pathOf]
  intro hm
  rcases List.mem_cons.1 hm with hm | hm
  · exact absurd hm (by decide)
  · rcases Text.mem_joinPieces hm with hm | ⟨p, hp, hm⟩
    · exact absurd hm (by decide)
    · obtain ⟨n, hn, rfl⟩ := List.mem_map.1 hp
      exact h n hn hm

theorem zero_not_mem_parts (h0 : directory.contains '\x00' = false) :
    ∀ n ∈ parts directory, '\x00' ∉ n.toList := by
  intro n hn h
  have hc : n.toList ∈ components directory.toList :=
    map_toList_parts directory ▸ List.mem_map_of_mem hn
  exact noZero_iff.1 h0 ((mem_components hc).2.2.2 _ h)

/-- What is spelled has the characters of all names. -/
theorem noZero_of_spell (h : (spell directory names).contains '\x00' = false) :
    directory.contains '\x00' = false ∧ ∀ n ∈ names, '\x00' ∉ n.toList := by
  have hnames (n : String) (hn : n ∈ parts directory ++ names) : '\x00' ∉ n.toList := by
    intro hz
    refine noZero_iff.1 h ?_
    rw [toList_spell]
    exact List.mem_append_right _ (Text.mem_joinPieces_of_mem (List.mem_map_of_mem hn) hz)
  refine ⟨noZero_iff.2 fun hz => ?_, fun n hn => hnames n (List.mem_append_right _ hn)⟩
  obtain ⟨q, hq, hz⟩ := exists_component_of_mem hz (by decide) (by decide)
  refine hnames (String.ofList q) (List.mem_append_left _ (List.mem_map_of_mem hq)) ?_
  rwa [String.toList_ofList]

theorem spells_pathOf (h0 : directory.contains '\x00' = false) (hn : ∀ n ∈ names, IsFileName n)
    (hs : (pathOf (parts directory ++ names)).utf8ByteSize < pathLimit) :
    Spells (pathOf (parts directory ++ names)) directory names where
  parts := by
    refine parts_pathOf fun n hm => ?_
    rcases List.mem_append.1 hm with hm | hm
    · exact isComponent_of_mem_parts hm
    · exact (hn n hm).toIsComponent
  noZero := by
    refine noZero_pathOf fun n hm => ?_
    rcases List.mem_append.1 hm with hm | hm
    · exact zero_not_mem_parts h0 n hm
    · exact (hn n hm).zero_not_mem
  size := hs

/-! ## Following them -/

/-- The directory leads to `base` and will do so whatever happens below: it has been there when
nothing was below, and what there was besides still is. -/
def Anchored (s : Store) (directory : String) (base : Place) : Prop :=
  ∃ origin : Store, origin.find true directory = .ok (base, .directory) ∧
    (∀ rel, rel ≠ [] → origin.entry? (base ++ rel) = none) ∧ origin.Keeps s

namespace Anchored

theorem noZero (h : s.Anchored directory base) : directory.contains '\x00' = false := by
  obtain ⟨origin, hf, -, -⟩ := h
  exact (locate_eq_ok.1 (find_eq_ok.1 hf).1).1

theorem keeps (h : s.Anchored directory base) (hk : s.Keeps t) : t.Anchored directory base :=
  have ⟨origin, hf, hn, hold⟩ := h
  ⟨origin, hf, hn, hold.trans hk⟩

theorem set {rel : Place} (h : s.Anchored directory base) (hr : rel ≠ []) (e : Entry) :
    (s.set (base ++ rel) e).Anchored directory base := by
  obtain ⟨origin, hf, hn, hk⟩ := h
  refine ⟨origin, hf, hn, fun p old hp => ?_⟩
  rw [entry?_set s (by simp [hr]), if_neg]
  · exact hk hp
  · rintro rfl
    rw [hn rel hr] at hp
    cases hp

theorem prune {rel : Place} (h : s.Anchored directory base) (hr : rel ≠ []) :
    (s.prune (base ++ rel)).Anchored directory base := by
  obtain ⟨origin, hf, hn, hk⟩ := h
  refine ⟨origin, hf, hn, fun p old hp => ?_⟩
  rw [entry?_prune s (by simp [hr]), if_neg]
  · exact hk hp
  · rintro ⟨more, rfl⟩
    rw [List.append_assoc, hn (rel ++ more) (by simp [hr])] at hp
    cases hp

theorem reach (h : s.Anchored directory base) :
    ∃ left, ∀ (path : String) (follow : Bool) (rest : List String), rest ≠ [] ∨ follow = true →
      walk s path follow linkLimit [] (parts directory ++ rest)
        = walk s path follow left base rest := by
  obtain ⟨origin, hf, -, hk⟩ := h
  obtain ⟨hl, he⟩ := find_eq_ok.1 hf
  exact walk_append hk (locate_eq_ok.1 hl).2.2 he

theorem entry?_base (h : s.Anchored directory base) : s.entry? base = some .directory := by
  obtain ⟨origin, hf, -, hk⟩ := h
  exact hk (find_eq_ok.1 hf).2

/-- **A spelled path leads to the place of its names**, which may be free. -/
theorem locate (h : s.Anchored directory base) (hp : Spells path directory (names ++ [last]))
    (hn : ∀ n ∈ names ++ [last], IsPlainName n) (hl : s.Leads base names)
    (hlink : ∀ target, s.entry? (base ++ (names ++ [last])) ≠ some (.link target)) (follow : Bool) :
    s.locate follow path = .ok (base ++ (names ++ [last])) := by
  obtain ⟨left, hw⟩ := h.reach
  rw [← List.append_assoc] at hlink ⊢
  refine locate_eq_ok.2 ⟨hp.noZero, hp.size, ?_⟩
  rw [hp.parts, hw path follow _ (.inl (by simp)),
    walk_directories (fun n hm => hn n (List.mem_append_left _ hm)) hl,
    walk_last (hn last (by simp)) follow hlink]

theorem find (h : s.Anchored directory base) (hp : Spells path directory (names ++ [last]))
    (hn : ∀ n ∈ names ++ [last], IsPlainName n) (hl : s.Leads base names) {e : Entry}
    (he : s.entry? (base ++ (names ++ [last])) = some e) (hlink : ∀ target, e ≠ .link target)
    (follow : Bool) : s.find follow path = .ok (base ++ (names ++ [last]), e) := by
  refine find_eq_ok.2 ⟨h.locate hp hn hl (fun target ht => ?_) follow, he⟩
  exact hlink target (Option.some.inj (he.symm.trans ht))

/-- The directory itself is found under each of its spellings. -/
theorem find_base (h : s.Anchored directory base) (hp : Spells path directory []) :
    s.find true path = .ok (base, .directory) := by
  obtain ⟨left, hw⟩ := h.reach
  refine find_eq_ok.2 ⟨locate_eq_ok.2 ⟨hp.noZero, hp.size, ?_⟩, h.entry?_base⟩
  rw [hp.parts, hw path true [] (.inr rfl), walk]

theorem find_directory (h : s.Anchored directory base) :
    s.find true directory = .ok (base, .directory) := by
  obtain ⟨origin, hf, -, -⟩ := id h
  obtain ⟨h0, hs, -⟩ := locate_eq_ok.1 (find_eq_ok.1 hf).1
  exact h.find_base ⟨(List.append_nil _).symm, h0, hs⟩

/-- Where a link leads to the directory, the link is what is there. -/
theorem exists_find_false (h : s.Anchored directory base) (hp : Spells path directory []) :
    ∃ p e, s.find false path = .ok (p, e) := by
  obtain ⟨origin, hf, -, hk⟩ := h
  obtain ⟨hl, he⟩ := find_eq_ok.1 hf
  obtain ⟨p, e, hw, hpe⟩ := exists_walk_false hk (locate_eq_ok.1 hl).2.2 he
    (fun q hq => by rw [List.prefix_nil.1 hq, entry?_nil]) path
  refine ⟨p, e, find_eq_ok.2 ⟨locate_eq_ok.2 ⟨hp.noZero, hp.size, ?_⟩, hpe⟩⟩
  rwa [hp.parts, List.append_nil]

end Anchored

/-! ## Asking -/

theorem ask_of_find {p : Place} {e : Entry} (h : s.find true path = .ok (p, e))
    (question : Entry → Bool) : s.ask question path = .ok (question e) := by
  rw [ask, h]

/-- Where a spelled path finds nothing, the answer is no. -/
theorem Anchored.ask_of_none (h : s.Anchored directory base)
    (hp : Spells path directory (names ++ [last])) (hn : ∀ n ∈ names ++ [last], IsPlainName n)
    (hl : s.Leads base names) (he : s.entry? (base ++ (names ++ [last])) = none)
    (question : Entry → Bool) : s.ask question path = .ok false := by
  have hloc := h.locate hp hn hl (fun _ ht => by rw [he] at ht; cases ht) true
  rw [ask, Store.find, hloc]
  simp [bind, Except.bind, he, throw, throwThe, MonadExceptOf.throw, FileError.meansAbsent]

/-- Where a directory is missing on the way, the answer is no. -/
theorem Anchored.ask_of_missing (h : s.Anchored directory base) {name : String}
    (hp : Spells path directory (names ++ name :: [last])) (hn : ∀ n ∈ names, IsPlainName n)
    (hname : IsPlainName name) (hl : s.Leads base names)
    (he : s.entry? (base ++ (names ++ [name])) = none) (question : Entry → Bool) :
    s.ask question path = .ok false := by
  obtain ⟨left, hw⟩ := h.reach
  have hloc : s.locate true path = .error (.missing path) := by
    rw [Store.locate, hp.noZero, if_neg (by decide), if_neg (Nat.not_le.2 hp.size), hp.parts,
      hw path true _ (.inl (by simp)), walk_directories hn hl,
      walk_missing hname (by simp) true (by rw [List.append_assoc]; exact he)]
  rw [ask, Store.find, hloc]
  simp [bind, Except.bind, FileError.meansAbsent]

end SpecTree.Store
