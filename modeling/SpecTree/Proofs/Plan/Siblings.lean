import Mathlib
import SpecTree.Proofs.Plan.Names
import SpecTree.Proofs.Text.Conversions

/-!
# Naming siblings

Siblings get names that are safe and distinct, that do not change with the siblings behind them, and that
are kept when they are given out again (`siblings_named`).

1. `Finds` is the search for a free name as it goes on, try by try, with no bound on the tries. It ends,
   whatever names are taken (`finds_firstFree`), so that `Assigns` has one result, `distinctNames`.
2. `IsSafe` says which texts stand as they are when they are made safe (`safeName_of_isSafe`). A safe name
   and a number are such a text again, so the second round has nothing to do.
-/

namespace SpecTree.Plan

/-! ## The search for a free name -/

/-- From the `k`-th try on, the search for a name that is not taken ends with `name`. -/
inductive Finds (taken : List String) (base : String) : Nat → String → Prop where
  | free {k : Nat} : numbered base k ∉ taken → Finds taken base k (numbered base k)
  | next {k : Nat} {name : String} :
      numbered base k ∈ taken → Finds taken base (k + 1) name → Finds taken base k name

theorem Finds.unique {taken : List String} {base : String} {k : Nat} {a b : String}
    (ha : Finds taken base k a) (hb : Finds taken base k b) : a = b := by
  induction ha with
  | free h =>
    cases hb with
    | free => rfl
    | next h' => exact absurd h' h
  | next h _ ih =>
    cases hb with
    | free h' => exact absurd h h'
    | next _ hb => exact ih hb

theorem finds_of_not_mem {taken : List String} {base : String} {k fuel : Nat}
    (h : firstFree taken base k fuel ∉ taken) :
    Finds taken base k (firstFree taken base k fuel) := by
  induction fuel generalizing k with
  | zero => exact .free h
  | succ fuel ih =>
    rw [firstFree] at h ⊢
    by_cases hk : taken.contains (numbered base k) = true
    · rw [if_pos hk] at h ⊢
      exact .next (List.contains_iff_mem.1 hk) (ih h)
    · rw [if_neg hk] at h ⊢
      exact .free h

/-- **The search ends**, whatever names are taken. -/
theorem finds_firstFree (taken : List String) (base : String) :
    Finds taken base 1 (firstFree taken base 1 taken.length) :=
  finds_of_not_mem (firstFree_not_mem taken base)

/-- One sibling after the other is made safe and gets the first free name, which is taken from then on. -/
inductive Assigns : List String → List String → List String → Prop where
  | nil (taken : List String) : Assigns taken [] []
  | cons {taken names out : List String} {name free : String} :
      Finds taken (safeName name) 1 free → Assigns (free :: taken) names out →
        Assigns taken (name :: names) (free :: out)

theorem assigns_iff {taken names out : List String} :
    Assigns taken names out ↔ out = distinctFrom taken names := by
  constructor
  · intro h
    induction h with
    | nil => rfl
    | cons hfind _ ih =>
      rw [distinctFrom, hfind.unique (finds_firstFree _ _), ih, hfind.unique (finds_firstFree _ _)]
  · rintro rfl
    induction names generalizing taken with
    | nil => exact .nil taken
    | cons name names ih => exact .cons (finds_firstFree taken _) ih

/-- The names of the first siblings do not depend on those behind them. -/
theorem distinctFrom_append (taken names more : List String) :
    distinctFrom taken (names ++ more)
      = distinctFrom taken names ++ distinctFrom ((distinctFrom taken names).reverse ++ taken) more := by
  induction names generalizing taken with
  | nil => rfl
  | cons name names ih =>
    simp only [List.cons_append, distinctFrom, ih, List.reverse_cons, List.append_assoc, List.nil_append]

/-! ## Texts that are safe as they are -/

/-- Characters of a name, with no hyphen at either end. -/
structure IsSafe (cs : List Char) : Prop where
  ne_nil : cs ≠ []
  isNameChar : ∀ c ∈ cs, isNameChar c = true
  head : ∀ c ∈ cs.head?, c ≠ '-'
  last : ∀ c ∈ cs.getLast?, c ≠ '-'

/-- The characters of names are a part of ASCII. -/
theorem isNameChar_iff (c : Char) :
    isNameChar c = true ↔ c.isAlphanum = true ∨ c = '_' ∨ c = '-' := by
  simp only [isNameChar, Char.isAlphanum, Char.isAlpha, Char.isUpper, Char.isLower, Char.isDigit,
    Bool.or_eq_true, Bool.and_eq_true, decide_eq_true_eq, beq_iff_eq, ge_iff_le, Char.le_def]
  tauto

theorem isBlank_of_isNameChar {c : Char} (h : isNameChar c = true) : Text.isBlank c = false := by
  simp only [isNameChar, Bool.or_eq_true, Bool.and_eq_true, decide_eq_true_eq, beq_iff_eq, Char.le_def,
    UInt32.le_iff_toNat_le] at h
  change ((((97 ≤ c.toNat ∧ c.toNat ≤ 122) ∨ (65 ≤ c.toNat ∧ c.toNat ≤ 90)) ∨
    (48 ≤ c.toNat ∧ c.toNat ≤ 57)) ∨ c = '_') ∨ c = '-' at h
  have hcode : 45 ≤ c.toNat ∧ c.toNat ≤ 122 := by
    rcases h with (h | rfl) | rfl
    · omega
    · decide
    · decide
  rw [Text.isBlank, Bool.eq_false_iff]
  simp only [ne_eq, Bool.or_eq_true, Bool.and_eq_true, decide_eq_true_eq, beq_iff_eq]
  omega

theorem hyphenate_of_isNameChar {cs : List Char} (h : ∀ c ∈ cs, isNameChar c = true) :
    hyphenate cs = cs := by
  fun_induction hyphenate cs with
  | case1 | case2 => rfl
  | case3 c hc => exact absurd (h c List.mem_cons_self) hc
  | case4 c d cs hc ih => rw [ih fun x hx => h x (List.mem_cons_of_mem _ hx)]
  | case5 c d cs hc | case6 c d cs hc => exact absurd (h c List.mem_cons_self) hc

theorem trimHyphens_eq (cs : List Char) :
    trimHyphens cs = (cs.dropWhile (· == '-')).rdropWhile (· == '-') := rfl

theorem trimHyphens_of_isSafe {cs : List Char} (h : IsSafe cs) : trimHyphens cs = cs := by
  have hhead : cs.dropWhile (· == '-') = cs := by
    obtain ⟨c, rest, rfl⟩ := List.exists_cons_of_ne_nil h.ne_nil
    exact List.dropWhile_cons_of_neg (by simpa using h.head c rfl)
  rw [trimHyphens_eq, hhead, List.rdropWhile_eq_self_iff]
  intro hne
  simpa using h.last _ (List.getLast?_eq_some_getLast hne)

theorem safeName_of_isSafe {name : String} (h : IsSafe name.toList) : safeName name = name := by
  have hstrip : Text.stripChars name.toList = name.toList := by
    have := Text.strip_of_not_isBlank fun c hc => isBlank_of_isNameChar (h.isNameChar c hc)
    rw [Text.strip, ← String.toList_inj, String.toList_ofList] at this
    exact this
  have hempty : name.toList.isEmpty = false := by simpa using h.ne_nil
  simp only [safeName, hstrip, hyphenate_of_isNameChar h.isNameChar, trimHyphens_of_isSafe h, hempty,
    String.ofList_toList, Bool.false_eq_true, if_false]

theorem isSafe_trimHyphens {cs : List Char} (h : ∀ c ∈ cs, isNameChar c = true) (hne : trimHyphens cs ≠ []) :
    IsSafe (trimHyphens cs) where
  ne_nil := hne
  isNameChar := fun c hc => h c (mem_of_mem_trimHyphens hc)
  head := by
    intro c hc
    rw [trimHyphens_eq] at hc hne
    -- Only the end is trimmed the second time.
    obtain ⟨back, hback⟩ := List.rdropWhile_prefix (· == '-') (l := cs.dropWhile (· == '-'))
    have hfirst : (cs.dropWhile (· == '-')).head? = some c := by
      rw [← hback, List.head?_append_of_ne_nil _ hne]
      exact hc
    have := List.head?_dropWhile_not (· == '-') cs
    rw [hfirst] at this
    simpa using this
  last := by
    intro c hc
    rw [trimHyphens_eq] at hc hne
    have := List.rdropWhile_last_not (· == '-') _ hne
    rw [List.getLast?_eq_some_getLast hne] at hc
    cases hc
    simpa using this

theorem isSafe_safeName (name : String) : IsSafe (safeName name).toList := by
  unfold safeName
  dsimp only
  split
  · rw [show "node".toList = ['n', 'o', 'd', 'e'] from rfl]
    have hchars : ['n', 'o', 'd', 'e'].all isNameChar = true := by decide
    exact ⟨by decide, List.all_eq_true.1 hchars, by simp, by simp⟩
  · next hne =>
    rw [String.toList_ofList]
    exact isSafe_trimHyphens isNameChar_of_mem_hyphenate (by simpa using hne)

theorem isSafe_numbered {base : String} (h : IsSafe base.toList) (k : Nat) :
    IsSafe (numbered base k).toList where
  ne_nil := toList_numbered_ne_nil h.ne_nil
  isNameChar := isNameChar_of_mem_numbered h.isNameChar
  head := by
    intro c hc
    rw [toList_numbered, List.head?_append_of_ne_nil _ h.ne_nil] at hc
    exact h.head c hc
  last := by
    intro c hc
    rw [toList_numbered] at hc
    split at hc
    · rw [List.append_nil] at hc
      exact h.last c hc
    · -- Behind a number there is a digit last.
      have hdigits : Nat.toDigits 10 k ≠ [] := Nat.toDigits_ne_nil
      rw [List.append_cons, List.getLast?_append_of_ne_nil _ hdigits] at hc
      rintro rfl
      have := Nat.isDigit_of_mem_toDigits (by decide) (by decide) (List.mem_of_getLast? hc)
      exact absurd this (by decide)

/-! ## Names that are given out again -/

theorem isSafe_of_mem_distinctFrom {taken names : List String} {n : String}
    (h : n ∈ distinctFrom taken names) : IsSafe n.toList := by
  induction names generalizing taken with
  | nil => exact absurd h List.not_mem_nil
  | cons name names ih =>
    rw [distinctFrom] at h
    rcases List.mem_cons.1 h with rfl | h
    · obtain ⟨k, -, hk⟩ := exists_firstFree_eq taken (safeName name) 1 taken.length
      rw [hk]
      exact isSafe_numbered (isSafe_safeName name) k
    · exact ih h

theorem firstFree_of_not_mem {taken : List String} {base : String} (h : base ∉ taken) (fuel : Nat) :
    firstFree taken base 1 fuel = base := by
  have hone : numbered base 1 = base := rfl
  cases fuel with
  | zero => exact hone
  | succ fuel => rw [firstFree, hone, if_neg fun hc => h (List.contains_iff_mem.1 hc)]

/-- Safe names of which none is taken or comes twice are given out as they are. -/
theorem distinctFrom_eq_self {taken names : List String} (hs : ∀ n ∈ names, IsSafe n.toList)
    (hd : names.Nodup) (ht : ∀ n ∈ names, n ∉ taken) : distinctFrom taken names = names := by
  induction names generalizing taken with
  | nil => rfl
  | cons name names ih =>
    obtain ⟨hname, hnames⟩ := List.forall_mem_cons.1 hs
    obtain ⟨hnot, hd⟩ := List.nodup_cons.1 hd
    obtain ⟨hfree, hrest⟩ := List.forall_mem_cons.1 ht
    have hfirst : firstFree taken (safeName name) 1 taken.length = name := by
      rw [safeName_of_isSafe hname, firstFree_of_not_mem hfree]
    have hlater : ∀ n ∈ names, n ∉ name :: taken := by
      intro n hn hmem
      rcases List.mem_cons.1 hmem with rfl | hmem
      · exact hnot hn
      · exact hrest n hn hmem
    rw [distinctFrom, hfirst, ih hnames hd hlater]

/-- **Names of siblings.** For every list of names the search for free names ends, and what it gives out are
as many names, which are distinct, made of ASCII letters, digits, underscores and hyphens, not empty and
not `root`. The names of the first siblings are those that they get without the others behind them, and
names that have been given out are kept when they are named again. -/
theorem siblings_named (names : List String) :
    (∀ out, Assigns [rootName] names out ↔ out = distinctNames names) ∧
    (distinctNames names).length = names.length ∧ (distinctNames names).Nodup ∧
    (∀ n ∈ distinctNames names, n ≠ "" ∧ n ≠ "root" ∧
      ∀ c ∈ n.toList, c.isAlphanum = true ∨ c = '_' ∨ c = '-') ∧
    (∀ more, (distinctNames (names ++ more)).take names.length = distinctNames names) ∧
    distinctNames (distinctNames names) = distinctNames names := by
  refine ⟨fun out => assigns_iff, length_distinctNames names, nodup_distinctNames names, ?_, ?_, ?_⟩
  · intro n hn
    have hname := isNodeName_of_mem hn
    exact ⟨fun he => hname.ne_nil (by rw [he]; rfl), hname.ne_root,
      fun c hc => (isNameChar_iff c).1 (hname.isNameChar c hc)⟩
  · intro more
    have hsplit : distinctNames (names ++ more) = distinctNames names ++ _ := distinctFrom_append _ names more
    rw [hsplit, ← length_distinctNames names, List.take_left]
  · exact distinctFrom_eq_self (fun n hn => isSafe_of_mem_distinctFrom hn) (nodup_distinctNames names)
      fun n hn => not_mem_of_mem_distinctFrom hn

example : distinctNames ["root", "api-2", "api", "api", "..", "É"] =
    ["root-2", "api-2", "api", "api-3", "node", "node-2"] := by decide +kernel

end SpecTree.Plan
