import Mathlib.Data.List.Nodup
import SpecTree.Plan.Name
import Std.Data.String.ToNat

/-!
# Names of nodes

The names that siblings get are safe, distinct, and never the root's (`isNodeName_of_mem`,
`nodup_distinctNames`), so a node's path determines the names on it (`nodePath_injective`).

1. Every character that `safeName` and `numbered` put out may stand in a name.
2. Numbered names differ from each other, so that one of `taken.length + 1` of them is free.
3. Names hold no slash, so that a path splits at its slashes into the names again.
-/

namespace SpecTree.Plan

/-- A name that a node other than the root may have. -/
structure IsNodeName (n : String) : Prop where
  ne_nil : n.toList ≠ []
  isNameChar : ∀ c ∈ n.toList, isNameChar c = true
  ne_root : n ≠ rootName

/-! ## Safe names -/

theorem isNameChar_of_mem_hyphenate {cs : List Char} : ∀ c ∈ hyphenate cs, isNameChar c = true := by
  fun_induction hyphenate cs with
  | case1 => simp
  | case2 c h => simpa using h
  | case3 c h =>
    intro d hd
    rw [List.mem_singleton.1 hd]
    decide
  | case4 c d cs h ih =>
    intro x hx
    rcases List.mem_cons.1 hx with rfl | hx
    · exact h
    · exact ih x hx
  | case5 c d cs h h' ih =>
    intro x hx
    rcases List.mem_cons.1 hx with rfl | hx
    · decide
    · exact ih x hx
  | case6 c d cs h h' ih => exact ih

theorem mem_of_mem_trimHyphens {c : Char} {cs : List Char} (h : c ∈ trimHyphens cs) : c ∈ cs := by
  rw [trimHyphens, List.mem_reverse] at h
  have h' := (List.dropWhile_sublist _).subset h
  rw [List.mem_reverse] at h'
  exact (List.dropWhile_sublist _).subset h'

theorem isNameChar_of_mem_safeName {name : String} :
    ∀ c ∈ (safeName name).toList, isNameChar c = true := by
  unfold safeName
  dsimp only
  split
  · have hnode : "node".toList.all isNameChar = true := by decide
    exact List.all_eq_true.1 hnode
  · intro c hc
    rw [String.toList_ofList] at hc
    exact isNameChar_of_mem_hyphenate c (mem_of_mem_trimHyphens hc)

theorem toList_safeName_ne_nil (name : String) : (safeName name).toList ≠ [] := by
  unfold safeName
  dsimp only
  split
  · decide
  · next h =>
    rw [String.toList_ofList]
    exact fun e => h (by rw [e]; rfl)

/-! ## Numbered names -/

theorem isNameChar_of_isDigit {c : Char} (h : c.isDigit = true) : isNameChar c = true := by
  simp only [Char.isDigit, Bool.and_eq_true, decide_eq_true_eq] at h
  have h0 : '0' ≤ c := h.1
  have h9 : c ≤ '9' := h.2
  simp [isNameChar, h0, h9]

theorem toList_numbered (base : String) (k : Nat) :
    (numbered base k).toList
      = base.toList ++ if k ≤ 1 then [] else '-' :: Nat.toDigits 10 k := by
  unfold numbered
  split
  · simp
  · rw [String.toList_append, String.toList_append, Nat.toString_eq_repr, Nat.toList_repr,
      List.append_assoc]
    rfl

theorem isNameChar_of_mem_numbered {base : String} {k : Nat}
    (h : ∀ c ∈ base.toList, isNameChar c = true) :
    ∀ c ∈ (numbered base k).toList, isNameChar c = true := by
  intro c hc
  rw [toList_numbered] at hc
  rcases List.mem_append.1 hc with hc | hc
  · exact h c hc
  · split at hc
    · exact absurd hc List.not_mem_nil
    · rcases List.mem_cons.1 hc with rfl | hc
      · decide
      · exact isNameChar_of_isDigit (Nat.isDigit_of_mem_toDigits (by decide) (by decide) hc)

theorem toList_numbered_ne_nil {base : String} {k : Nat} (h : base.toList ≠ []) :
    (numbered base k).toList ≠ [] := by
  rw [toList_numbered]
  exact List.append_ne_nil_of_left_ne_nil h _

/-- Different numbers give different names. -/
theorem numbered_injective {base : String} {j k : Nat} (hj : 1 ≤ j) (hk : 1 ≤ k)
    (h : numbered base j = numbered base k) : j = k := by
  have h' := congrArg String.toList h
  rw [toList_numbered, toList_numbered, List.append_cancel_left_eq] at h'
  split at h' <;> split at h'
  · omega
  · exact absurd h' (by simp)
  · exact absurd h' (by simp)
  · have hd := congrArg (fun cs => Nat.ofDigitChars 10 cs 0) (List.cons.inj h').2
    simpa only [Nat.ofDigitChars_ten_toDigits] using hd

theorem exists_firstFree_eq (taken : List String) (base : String) (k fuel : Nat) :
    ∃ j, k ≤ j ∧ firstFree taken base k fuel = numbered base j := by
  induction fuel generalizing k with
  | zero => exact ⟨k, Nat.le_refl k, rfl⟩
  | succ fuel ih =>
    rw [firstFree]
    split
    · obtain ⟨j, hj, h⟩ := ih (k + 1)
      exact ⟨j, by omega, h⟩
    · exact ⟨k, Nat.le_refl k, rfl⟩

/-- Where the search ends on a taken name, all the names it tried are taken. -/
theorem mem_of_firstFree_mem {taken : List String} {base : String} {k fuel : Nat}
    (h : firstFree taken base k fuel ∈ taken) :
    ∀ i, i ≤ fuel → numbered base (k + i) ∈ taken := by
  induction fuel generalizing k with
  | zero =>
    intro i hi
    rw [Nat.le_zero.1 hi]
    exact h
  | succ fuel ih =>
    rw [firstFree] at h
    by_cases hk : taken.contains (numbered base k) = true
    · rw [if_pos hk] at h
      intro i hi
      cases i with
      | zero => exact List.contains_iff_mem.1 hk
      | succ i =>
        rw [show k + (i + 1) = k + 1 + i by omega]
        exact ih h i (by omega)
    · rw [if_neg hk] at h
      exact absurd (List.contains_iff_mem.2 h) hk

theorem firstFree_not_mem (taken : List String) (base : String) :
    firstFree taken base 1 taken.length ∉ taken := by
  intro h
  have hall := mem_of_firstFree_mem h
  have hnd : ((List.range (taken.length + 1)).map fun i => numbered base (1 + i)).Nodup := by
    refine List.Nodup.map_on ?_ List.nodup_range
    intro i _ j _ hij
    have := numbered_injective (by omega) (by omega) hij
    omega
  have hsub : ((List.range (taken.length + 1)).map fun i => numbered base (1 + i)) ⊆ taken := by
    intro x hx
    obtain ⟨i, hi, rfl⟩ := List.mem_map.1 hx
    exact hall i (by have := List.mem_range.1 hi; omega)
  have hle := hnd.length_le_of_subset hsub
  rw [List.length_map, List.length_range] at hle
  omega

/-! ## Names of siblings -/

theorem not_mem_of_mem_distinctFrom {taken names : List String} {n : String}
    (h : n ∈ distinctFrom taken names) : n ∉ taken := by
  induction names generalizing taken with
  | nil => exact absurd h List.not_mem_nil
  | cons name rest ih =>
    rw [distinctFrom] at h
    rcases List.mem_cons.1 h with rfl | h
    · exact firstFree_not_mem taken _
    · exact fun ht => ih h (List.mem_cons_of_mem _ ht)

theorem nodup_distinctFrom (taken names : List String) : (distinctFrom taken names).Nodup := by
  induction names generalizing taken with
  | nil => exact List.nodup_nil
  | cons name rest ih =>
    rw [distinctFrom]
    refine List.nodup_cons.2 ⟨fun h => ?_, ih _⟩
    exact not_mem_of_mem_distinctFrom h List.mem_cons_self

theorem length_distinctFrom (taken names : List String) :
    (distinctFrom taken names).length = names.length := by
  induction names generalizing taken with
  | nil => rfl
  | cons name rest ih => rw [distinctFrom, List.length_cons, List.length_cons, ih]

theorem chars_of_mem_distinctFrom {taken names : List String} {n : String}
    (h : n ∈ distinctFrom taken names) :
    n.toList ≠ [] ∧ ∀ c ∈ n.toList, isNameChar c = true := by
  induction names generalizing taken with
  | nil => exact absurd h List.not_mem_nil
  | cons name rest ih =>
    rw [distinctFrom] at h
    rcases List.mem_cons.1 h with rfl | h
    · obtain ⟨j, _, hj⟩ := exists_firstFree_eq taken (safeName name) 1 taken.length
      rw [hj]
      exact ⟨toList_numbered_ne_nil (toList_safeName_ne_nil name),
        isNameChar_of_mem_numbered isNameChar_of_mem_safeName⟩
    · exact ih h

theorem isNodeName_of_mem {names : List String} {n : String} (h : n ∈ distinctNames names) :
    IsNodeName n where
  ne_nil := (chars_of_mem_distinctFrom h).1
  isNameChar := (chars_of_mem_distinctFrom h).2
  ne_root := fun e => not_mem_of_mem_distinctFrom h (by simp [e])

theorem nodup_distinctNames (names : List String) : (distinctNames names).Nodup :=
  nodup_distinctFrom _ names

theorem length_distinctNames (names : List String) :
    (distinctNames names).length = names.length :=
  length_distinctFrom _ names

/-! ## Paths of nodes -/

theorem slash_not_mem {n : String} (h : IsNodeName n) : '/' ∉ n.toList := by
  intro hs
  exact absurd (h.isNameChar '/' hs) (by decide)

theorem isEmpty_intercalate {names : List String} (hn : names ≠ [])
    (h : ∀ n ∈ names, IsNodeName n) : (String.intercalate "/" names).isEmpty = false := by
  obtain ⟨n, ns, rfl⟩ := List.exists_cons_of_ne_nil hn
  rw [← Bool.not_eq_true, String.isEmpty_iff, ← String.toList_inj, String.toList_intercalate]
  have hn' := (h n List.mem_cons_self).ne_nil
  cases ns with
  | nil => simpa using hn'
  | cons m ms => simp [hn']

/-- The path of a node below the root names its ancestors but for the root. -/
theorem nodePath_of_ne_nil {names : List String} (hn : names ≠ [])
    (h : ∀ n ∈ names, IsNodeName n) :
    nodePath (rootName :: names) = String.intercalate "/" names := by
  have hne := isEmpty_intercalate hn h
  obtain ⟨n, ns, rfl⟩ := List.exists_cons_of_ne_nil hn
  show (if (String.intercalate "/" (n :: ns)).isEmpty = true then rootName
    else String.intercalate "/" (n :: ns)) = _
  rw [hne]
  rfl

theorem nodePath_root : nodePath [rootName] = rootName := rfl

/-- A path splits at its slashes into the names on it. -/
theorem splitOn_intercalate {names : List String} (hn : names ≠ [])
    (h : ∀ n ∈ names, IsNodeName n) :
    (String.intercalate "/" names).toList.splitOn '/' = names.map String.toList := by
  rw [String.toList_intercalate]
  refine List.splitOn_intercalate '/' (fun l hl => ?_) (by simpa using hn)
  obtain ⟨n, hn, rfl⟩ := List.mem_map.1 hl
  exact slash_not_mem (h n hn)

theorem intercalate_ne_rootName {names : List String} (hn : names ≠ [])
    (h : ∀ n ∈ names, IsNodeName n) : String.intercalate "/" names ≠ rootName := by
  intro e
  have hs := splitOn_intercalate hn h
  rw [e, show rootName.toList.splitOn '/' = [rootName].map String.toList by decide] at hs
  have hr := (List.map_injective_iff.2 fun _ _ => String.toList_inj.1) hs
  exact (h rootName (by simp [← hr])).ne_root rfl

/-- **A node's path determines the names on it.** -/
theorem nodePath_injective {a b : List String} (ha : ∀ n ∈ a, IsNodeName n)
    (hb : ∀ n ∈ b, IsNodeName n) (h : nodePath (rootName :: a) = nodePath (rootName :: b)) :
    a = b := by
  by_cases h0 : a = []
  · by_cases h1 : b = []
    · rw [h0, h1]
    · rw [h0, nodePath_root, nodePath_of_ne_nil h1 hb] at h
      exact absurd h.symm (intercalate_ne_rootName h1 hb)
  · by_cases h1 : b = []
    · rw [h1, nodePath_root, nodePath_of_ne_nil h0 ha] at h
      exact absurd h (intercalate_ne_rootName h0 ha)
    · rw [nodePath_of_ne_nil h0 ha, nodePath_of_ne_nil h1 hb] at h
      have hs := congrArg (fun p : String => p.toList.splitOn '/') h
      rw [splitOn_intercalate h0 ha, splitOn_intercalate h1 hb] at hs
      exact (List.map_injective_iff.2 fun _ _ => String.toList_inj.1) hs

/-! ## Ancestries -/

/-- An ancestry that starts at the root and goes on with names of nodes. -/
def IsAncestry (ancestry : List String) : Prop :=
  ∃ names, ancestry = rootName :: names ∧ ∀ n ∈ names, IsNodeName n

theorem isAncestry_root : IsAncestry [rootName] := ⟨[], rfl, nofun⟩

theorem childAncestry_of_isAncestry {ancestry : List String} (h : IsAncestry ancestry)
    (name : String) : childAncestry ancestry name = ancestry ++ [name] := by
  obtain ⟨names, rfl, -⟩ := h
  rfl

theorem isAncestry_child {ancestry : List String} (h : IsAncestry ancestry) {name : String}
    (hn : IsNodeName name) : IsAncestry (ancestry ++ [name]) := by
  obtain ⟨names, rfl, hnames⟩ := h
  exact ⟨names ++ [name], rfl, List.forall_mem_append.2 ⟨hnames, List.forall_mem_singleton.2 hn⟩⟩

theorem eq_of_nodePath_eq {a b : List String} (ha : IsAncestry a) (hb : IsAncestry b)
    (h : nodePath a = nodePath b) : a = b := by
  obtain ⟨names, rfl, hn⟩ := ha
  obtain ⟨names', rfl, hn'⟩ := hb
  rw [nodePath_injective hn hn' h]

end SpecTree.Plan
