import SpecTree.Proofs.Store.Files
import SpecTree.Proofs.Store.Write

/-!
# What a write that ends well has changed

Below a directory, along names where no link stands (`Straight`), a walk ends at the place of the names or
not at all (`Anchored.located`). So it is known from the success of a write alone what it has changed:

1. Making a directory puts directories where one was missing on the way (`Opens.paves`).
2. Writing a file does so, and then puts the file at its place (`Opens.exists_paves`).

The directory itself may have to be made first, if there is nothing in it yet (`Opens`).
-/

namespace SpecTree.Store

open SpecTree.Path

variable {s t u made : Store} {directory path : String} {base place p : Place} {names rest : List String}
  {last : String} {follow : Bool} {links : Nat} {content : Content}

/-! ## What a file system guarantees -/

/-- Each place has one entry, all names are proper, and what has an entry lies in a directory. -/
structure WellFormed (s : Store) : Prop where
  distinct : (s.entries.map Prod.fst).Nodup
  proper : ∀ ⦃p e⦄, s.entry? p = some e → ∀ n ∈ p, IsProper n
  closed : ∀ ⦃p n e⦄, s.entry? (p ++ [n]) = some e → s.entry? p = some .directory

namespace WellFormed

theorem distinctBelow (h : s.WellFormed) (base : Place) : s.DistinctBelow base := by
  rw [DistinctBelow, map_fst_inside]
  exact h.distinct.filter _

theorem directory_of_append (h : s.WellFormed) {e : Entry} (he : s.entry? (p ++ names) = some e) (h0 : names ≠ []) :
    s.entry? p = some .directory := by
  induction names using List.reverseRecOn generalizing e with
  | nil => exact absurd rfl h0
  | append_singleton names n ih =>
    rw [← List.append_assoc] at he
    by_cases hn : names = []
    · rw [hn, List.append_nil] at he
      exact h.closed he
    · exact ih (h.closed he) hn

/-- Below a directory that is there, all directories on the way are. -/
theorem leads (h : s.WellFormed) (he : s.entry? (base ++ names) = some .directory) : s.Leads base names := by
  rintro pre ⟨more, rfl⟩ -
  by_cases hm : more = []
  · rwa [hm, List.append_nil] at he
  · rw [← List.append_assoc] at he
    exact h.directory_of_append he hm

theorem mem_names_childrenOf (h : s.WellFormed) {name : String} :
    name ∈ (s.childrenOf base).map Prod.fst ↔ ∃ e, s.entry? (base ++ [name]) = some e := by
  have hchild (e : Entry) : (name, e) ∈ s.childrenOf base ↔ s.entry? (base ++ [name]) = some e := by
    rw [← List.append_nil base, mem_childrenOf [] (h.distinctBelow base)]
  constructor
  · intro hn
    obtain ⟨x, hx, rfl⟩ := List.mem_map.1 hn
    exact ⟨x.2, (hchild x.2).1 hx⟩
  · rintro ⟨e, he⟩
    exact List.mem_map_of_mem ((hchild e).2 he)

end WellFormed

/-- It suffices to look at the entries. -/
theorem wellFormed_of_entries (hd : (s.entries.map Prod.fst).Nodup)
    (h : ∀ x ∈ s.entries, (∀ n ∈ x.1, IsProper n) ∧ (s.entry? x.1.dropLast matches some .directory) = true) :
    s.WellFormed where
  distinct := hd
  proper p e he n hn := by
    rw [entry?_of_ne_nil s (List.ne_nil_of_mem hn)] at he
    exact (h _ (mem_of_lookup he)).1 n hn
  closed p n e he := by
    rw [entry?_concat] at he
    have hparent := (h _ (mem_of_lookup he)).2
    rw [List.dropLast_concat] at hparent
    split at hparent
    · assumption
    · cases hparent

/-! ## Where a walk has been -/

/-- A walk that has gone on from some names has come to a directory by them. -/
theorem exists_walk_front {todo : List String} (hw : walk s path follow links place todo = .ok p)
    (ht : todo = names ++ rest) (hr : rest ≠ [])
    (hp : ∀ q, q <+: place → s.entry? q = some .directory) (path' : String) :
    ∃ b, walk s path' true links place names = .ok b ∧ s.entry? b = some .directory := by
  have hhere (links : Nat) (place : Place) (hp : ∀ q, q <+: place → s.entry? q = some .directory) :
      ∃ b, walk s path' true links place [] = .ok b ∧ s.entry? b = some .directory :=
    ⟨place, by rw [walk], hp place (List.prefix_refl _)⟩
  -- A name that is left is not the last one to be followed.
  have hmore {name n : String} {todo names : List String} (ht : name :: todo = n :: names ++ rest) : todo ≠ [] :=
    fun htodo => hr (List.append_eq_nil_iff.1 ((List.cons.inj ht).2.symm.trans htodo)).2
  fun_induction walk s path follow links place todo generalizing names with
  | case1 => exact absurd (List.append_eq_nil_iff.1 ht.symm).2 hr
  | case2 => cases hw
  | case3 links place todo hn ih =>
    cases names with
    | nil => exact hhere links place hp
    | cons n names =>
      obtain ⟨rfl, htodo⟩ := List.cons.inj ht
      obtain ⟨b, hb⟩ := ih hw htodo fun q hq => hp q (hq.trans (List.dropLast_prefix _))
      exact ⟨b, by rwa [walk, if_neg hn, if_pos rfl]⟩
  | case4 links place name todo hn hup he ih =>
    cases names with
    | nil => exact hhere links place hp
    | cons n names =>
      obtain ⟨rfl, htodo⟩ := List.cons.inj ht
      obtain ⟨b, hb⟩ := ih hw htodo fun q hq => by
        rcases List.prefix_concat_iff.1 hq with rfl | hq
        · exact he
        · exact hp q hq
      exact ⟨b, by rwa [walk, if_neg hn, if_neg hup, he]⟩
  | case5 links place name todo hn hup c he hempty =>
    cases names with
    | nil => exact hhere links place hp
    | cons n names => exact absurd (List.isEmpty_iff.1 hempty) (hmore ht)
  | case6 => cases hw
  | case7 links place name todo hn hup target he hempty =>
    cases names with
    | nil => exact hhere links place hp
    | cons n names =>
      rw [Bool.and_eq_true, List.isEmpty_iff] at hempty
      exact absurd hempty.1 (hmore ht)
  | case8 => cases hw
  | case9 place name todo hn hup target he hfollow links ih =>
    cases names with
    | nil => exact hhere (links + 1) place hp
    | cons n names =>
      obtain ⟨rfl, htodo⟩ := List.cons.inj ht
      -- The link's names come before those that are left.
      have htarget : target ++ todo = target ++ names ++ rest := htodo ▸ (List.append_assoc ..).symm
      obtain ⟨b, hb⟩ := ih hw htarget fun q hq => by rw [List.prefix_nil.1 hq, entry?_nil]
      refine ⟨b, ?_⟩
      rw [walk, if_neg hn, if_neg hup, he]
      simpa only [Bool.not_true, Bool.and_false, Bool.false_eq_true, if_false] using hb
  | case10 links place name todo hn hup he hempty =>
    cases names with
    | nil => exact hhere links place hp
    | cons n names => exact absurd (List.isEmpty_iff.1 hempty) (hmore ht)
  | case11 => cases hw

/-- No link stands on the way along the names. -/
def Straight (s : Store) (base : Place) (names : List String) : Prop :=
  ∀ pre, pre <+: names → ∀ target, s.entry? (base ++ pre) ≠ some (.link target)

theorem Straight.of_prefix {pre : List String} (h : s.Straight base names) (hp : pre <+: names) :
    s.Straight base pre := fun q hq => h q (hq.trans hp)

theorem straight_nil (h : s.entry? base = some .directory) : s.Straight base [] := by
  intro pre hp target ht
  rw [List.prefix_nil.1 hp, List.append_nil, h] at ht
  cases ht

theorem Straight.concat (h : s.Straight base names)
    (hlast : ∀ target, s.entry? (base ++ (names ++ [last])) ≠ some (.link target)) :
    s.Straight base (names ++ [last]) := fun _ hp =>
  (List.prefix_concat_iff.1 hp).elim (fun he => he ▸ hlast) (h _)

/-- **A walk without links ends at the place of its names**, and has gone through directories. -/
theorem walk_straight (hn : ∀ n ∈ names, n ≠ "..")
    (hl : ∀ pre, pre <+: names → pre ≠ [] → (pre = names → follow = true) →
      ∀ target, s.entry? (base ++ pre) ≠ some (.link target))
    (hw : walk s path follow links base names = .ok place) :
    place = base ++ names ∧ (∀ n ∈ names, n.utf8ByteSize ≤ nameLimit) ∧
      ∀ pre, pre <+: names → pre ≠ [] → pre ≠ names → s.entry? (base ++ pre) = some .directory := by
  induction names generalizing base with
  | nil =>
    rw [walk] at hw
    exact ⟨by rw [List.append_nil, Except.ok.inj hw], List.forall_mem_nil _,
      fun pre hp h0 => absurd (List.prefix_nil.1 hp) h0⟩
  | cons name rest ih =>
    rw [walk] at hw
    split at hw
    · cases hw
    next hlong =>
    rw [if_neg (hn name List.mem_cons_self)] at hw
    have hlast (hr : rest = []) (hplace : (Except.ok (base ++ [name]) : Except FileError Place) = .ok place) :
        place = base ++ name :: rest ∧ (∀ n ∈ name :: rest, n.utf8ByteSize ≤ nameLimit) ∧
          ∀ pre, pre <+: name :: rest → pre ≠ [] → pre ≠ name :: rest →
            s.entry? (base ++ pre) = some .directory := by
      subst hr
      refine ⟨(Except.ok.inj hplace).symm, List.forall_mem_singleton.2 (Nat.le_of_not_lt hlong),
        fun pre hp h0 hne => ?_⟩
      have hp' : pre <+: [] ++ [name] := hp
      exact ((List.prefix_concat_iff.1 hp').elim (absurd · hne) fun hp => absurd (List.prefix_nil.1 hp) h0)
    split at hw
    · next he =>
      obtain ⟨hplace, hshort, hdirs⟩ := ih (fun n hm => hn n (List.mem_cons_of_mem _ hm))
        (fun pre hp h0 hfollow target => by
          rw [List.append_assoc]
          refine hl (name :: pre) (List.cons_prefix_cons.2 ⟨rfl, hp⟩) (List.cons_ne_nil _ _) (fun h => ?_) target
          exact hfollow (List.cons.inj h).2) hw
      refine ⟨by rw [hplace, List.append_assoc]; rfl,
        List.forall_mem_cons.2 ⟨Nat.le_of_not_lt hlong, hshort⟩, fun pre hp h0 hne => ?_⟩
      obtain ⟨more, rfl, hmore⟩ := (List.prefix_cons_iff.1 hp).resolve_left h0
      by_cases hm : more = []
      · rw [hm]
        exact he
      · have := hdirs more hmore hm fun h => hne (congrArg _ h)
        rwa [List.append_assoc] at this
    · split at hw
      · next hr => exact hlast (List.isEmpty_iff.1 hr) hw
      · cases hw
    · next target he =>
      by_cases hfollow : rest = [] ∧ follow = false
      · obtain ⟨hr, rfl⟩ := hfollow
        rw [hr] at hw
        exact hlast hr hw
      · refine absurd he (hl [name] (List.cons_prefix_cons.2 ⟨rfl, List.nil_prefix⟩) (List.cons_ne_nil _ _)
          (fun h => ?_) target)
        exact Bool.of_not_eq_false fun hf => hfollow ⟨(List.cons.inj h).2.symm, hf⟩
    · split at hw
      · next hr => exact hlast (List.isEmpty_iff.1 hr) hw
      · cases hw

/-- **Below a directory, a path that can be followed leads to the place of its names.** -/
theorem Anchored.located (h : s.Anchored directory base) (hp : parts path = parts directory ++ (names ++ [last]))
    (hn : ∀ n ∈ names ++ [last], n ≠ "..") (hl : s.Straight base names)
    (hlast : follow = true → ∀ target, s.entry? (base ++ (names ++ [last])) ≠ some (.link target))
    (hw : s.locate follow path = .ok p) :
    p = base ++ (names ++ [last]) ∧ s.Leads base names ∧ ∀ n ∈ names ++ [last], n.utf8ByteSize ≤ nameLimit := by
  obtain ⟨left, hreach⟩ := h.reach
  have hwalk := (locate_eq_ok.1 hw).2.2
  rw [hp, hreach path follow _ (.inl (by simp))] at hwalk
  obtain ⟨hplace, hshort, hdirs⟩ := walk_straight hn (fun pre hpre h0 hfollow target => by
    rcases List.prefix_concat_iff.1 hpre with rfl | hpre
    · exact hlast (hfollow rfl) target
    · exact hl pre hpre target) hwalk
  refine ⟨hplace, fun pre hpre h0 => hdirs pre (hpre.trans (List.prefix_append _ _)) h0 ?_, hshort⟩
  rintro rfl
  have := hpre.length_le
  rw [List.length_append, List.length_singleton] at this
  omega

/-! ## Making directories -/

/-- Nothing tells the stores apart but directories where nothing was. -/
def AddsDirectories (s t : Store) : Prop :=
  ∀ q, t.entry? q = s.entry? q ∨ s.entry? q = none ∧ t.entry? q = some .directory

namespace AddsDirectories

theorem refl (s : Store) : s.AddsDirectories s := fun _ => .inl rfl

theorem trans (h : s.AddsDirectories t) (k : t.AddsDirectories u) : s.AddsDirectories u := by
  intro q
  rcases k q with hk | ⟨hk, hu⟩
  · rw [hk]
    exact h q
  · rcases h q with h | ⟨-, ht⟩
    · exact .inr ⟨h ▸ hk, hu⟩
    · rw [ht] at hk
      cases hk

end AddsDirectories

theorem addsDirectories_set (hfree : s.entry? p = none) : s.AddsDirectories (s.set p .directory) := by
  intro q
  have hp : p ≠ [] := fun h0 => by rw [h0, entry?_nil] at hfree; cases hfree
  rw [entry?_set s hp]
  split
  · next hq => exact .inr ⟨hq ▸ hfree, rfl⟩
  · exact .inl rfl

/-- **Making a directory changes nothing that is there.** -/
theorem addsDirectories_makePath (s : Store) (place : Place) : s.AddsDirectories (s.makePath place).1 :=
  makePath_induct .refl .trans (fun _ hfree => addsDirectories_set hfree) s place

theorem AddsDirectories.file (h : s.AddsDirectories t) {q : Place} (he : t.entry? q = some (.file content)) :
    s.entry? q = some (.file content) := by
  rcases h q with h | ⟨-, h⟩
  · rw [← h, he]
  · rw [he] at h
    cases h

/-- **A file that is there after a write** was there before or is the one that was written. -/
theorem file_of_mem_writeDeep {q : Place} {written : Content}
    (he : Store.entry? (s.writeDeep path written).1 q = some (.file content)) :
    s.entry? q = some (.file content) ∨ content = written := by
  have hadds : s.AddsDirectories (s.makeDirectories (Path.directory path)).1 := addsDirectories_makePath s _
  rcases writeDeep_cases s path written with ⟨e, hfail⟩ | ⟨made, p, hm, -, hd, hset⟩
  · rw [hfail] at he
    exact .inl (hadds.file he)
  · rw [hm] at hadds
    have hp : p ≠ [] := fun h0 => hd (by rw [h0, entry?_nil])
    rw [hset, entry?_set made hp] at he
    split at he
    · exact .inr (Entry.file.inj (Option.some.inj he)).symm
    · exact .inl (hadds.file he)

/-- `t` is the store with directories wherever one is missing on the way along the names. -/
structure Paves (s t : Store) (base : Place) (names : List String) : Prop where
  leads : t.Leads base names
  short : ∀ n ∈ names, n.utf8ByteSize ≤ nameLimit
  entry (q : Place) : t.entry? q
    = (s.entry? q).or (if base <+: q ∧ q <+: base ++ names then some .directory else none)

namespace Paves

theorem keeps (h : s.Paves t base names) : s.Keeps t := fun q e he => by
  rw [h.entry, he, Option.some_or]

/-- Where the way is there, nothing has to be made. -/
theorem of_leads (hl : s.Leads base names) (hb : s.entry? base = some .directory)
    (hn : ∀ n ∈ names, n.utf8ByteSize ≤ nameLimit) : s.Paves s base names := by
  refine ⟨hl, hn, fun q => ?_⟩
  split
  · next h =>
    obtain ⟨⟨pre, rfl⟩, hpre⟩ := h
    by_cases h0 : pre = []
    · rw [h0, List.append_nil, hb, Option.some_or]
    · rw [hl pre (List.prefix_append_right_inj base |>.1 hpre) h0, Option.some_or]
  · rw [Option.or_none]

theorem trans {more : List String} (h : s.Paves t base names) (k : t.Paves u base more) (hp : names <+: more) :
    s.Paves u base more := by
  refine ⟨k.leads, k.short, fun q => ?_⟩
  rw [k.entry, h.entry, Option.or_assoc]
  by_cases hq : base <+: q ∧ q <+: base ++ names
  · have hq' : base <+: q ∧ q <+: base ++ more :=
      ⟨hq.1, hq.2.trans ((List.prefix_append_right_inj base).2 hp)⟩
    rw [if_pos hq, if_pos hq', Option.some_or]
  · rw [if_neg hq, Option.none_or]

theorem straight (h : s.Paves t base names) {more : List String} (hs : s.Straight base more) :
    t.Straight base more := by
  intro pre hpre target ht
  rw [h.entry, Option.or_eq_some_iff] at ht
  rcases ht with ht | ⟨-, ht⟩
  · exact hs pre hpre target ht
  · split at ht <;> cases ht

end Paves

/-- A directory that is made, or is there, makes the way to it complete. -/
theorem Anchored.paves (h : s.Anchored directory base) (hp : parts path = parts directory ++ (names ++ [last]))
    (hn : ∀ n ∈ names ++ [last], n ≠ "..") (hl : s.Straight base (names ++ [last]))
    (he : s.ensureDirectory path = .ok t) : s.Paves t base (names ++ [last]) := by
  have hl' := hl.of_prefix (List.prefix_append names [last])
  rcases ensureDirectory_cases he with ⟨p, hloc, hfree, rfl⟩ | ⟨rfl, p, hf⟩
  · obtain ⟨rfl, hleads, hshort⟩ := h.located hp hn hl' (fun hf => by cases hf) hloc
    have hset := entry?_set s (p := base ++ (names ++ [last])) (by simp) .directory
    refine ⟨fun pre hpre h0 => ?_, hshort, fun q => ?_⟩
    · rw [hset]
      rcases List.prefix_concat_iff.1 hpre with rfl | hpre
      · exact if_pos rfl
      · rw [hleads pre hpre h0, ite_self]
    · rw [hset]
      by_cases hq : q = base ++ (names ++ [last])
      · rw [if_pos hq, hq, hfree, if_pos ⟨List.prefix_append _ _, List.prefix_refl _⟩, Option.none_or]
      · rw [if_neg hq]
        have hold := (Paves.of_leads hleads h.entry?_base fun n hm => hshort n (List.mem_append_left _ hm)).entry q
        have hway : q <+: base ++ (names ++ [last]) ↔ q <+: base ++ names := by
          rw [← List.append_assoc, List.prefix_concat_iff, List.append_assoc, or_iff_right hq]
        simpa only [hway] using hold
  · obtain ⟨hloc, hdir⟩ := find_eq_ok.1 hf
    obtain ⟨rfl, hleads, hshort⟩ := h.located hp hn hl' (fun _ => hl _ (List.prefix_refl _)) hloc
    refine .of_leads (fun pre hpre h0 => ?_) h.entry?_base hshort
    rcases List.prefix_concat_iff.1 hpre with rfl | hpre
    · exact hdir
    · exact hleads pre hpre h0

/-- The directory leads to `base` in `made`. That is the store itself, unless the directory still has to be made
and has nothing in it then. -/
def Opens (s : Store) (directory : String) (base : Place) (made : Store) : Prop :=
  s.Anchored directory base ∧ made = s ∨
    s.makeDirectories directory = (made, none) ∧ made.find true directory = .ok (base, .directory) ∧
      ∀ rel, rel ≠ [] → made.entry? (base ++ rel) = none

namespace Opens

theorem anchored (h : s.Opens directory base made) : made.Anchored directory base := by
  rcases h with ⟨h, rfl⟩ | ⟨-, hf, hnone⟩
  · exact h
  · exact ⟨made, hf, hnone, .refl made⟩

theorem adds (h : s.Opens directory base made) : s.AddsDirectories made := by
  rcases h with ⟨-, rfl⟩ | ⟨hm, -⟩
  · exact .refl made
  · have hadds := addsDirectories_makePath s (parts directory).reverse
    rwa [show s.makePath (parts directory).reverse = (made, none) from hm] at hadds

/-- **A directory that is found need not be made.** -/
theorem anchored_of_find (h : s.Opens directory base made) {b : Place}
    (hfind : s.find true directory = .ok (b, .directory)) : s.Anchored directory base ∧ made = s := by
  rcases h with h | ⟨hm, hf, hnone⟩
  · exact h
  · have hmade : (s.makeDirectories directory).2 = none := congrArg Prod.snd hm
    have hz := noZero_pathOf (zero_not_mem_parts (noZero_of_makeDirectories hmade))
    have hsize := size_of_makeDirectories hmade
    have hparts : parts (pathOf (parts directory)) = parts directory :=
      parts_pathOf fun n hn => isComponent_of_mem_parts hn
    obtain ⟨hloc, hdir⟩ := find_eq_ok.1 hfind
    have hb := (locate_eq_ok.1 hloc).2.2
    obtain ⟨left, hw⟩ := walk_append (.refl s) hb hdir
    have hb' := hw (pathOf (parts directory)) true [] (.inr rfl)
    rw [List.append_nil, walk] at hb'
    obtain ⟨q, e, hq, he⟩ := exists_walk_false (.refl s) hb hdir
      (fun q hq => by rw [List.prefix_nil.1 hq, entry?_nil]) (pathOf (parts directory))
    have hsame : s.makeDirectories directory = (s, none) :=
      makeDirectories_of_ensure rfl (fun _ => rfl) (ensureDirectory_of_find
        (find_eq_ok.2 ⟨locate_eq_ok.2 ⟨hz, hsize, by rwa [hparts]⟩, he⟩)
        (find_eq_ok.2 ⟨locate_eq_ok.2 ⟨hz, hsize, by rwa [hparts]⟩, hdir⟩))
    obtain rfl : made = s := (Prod.mk.inj (hm.symm.trans hsame)).1
    exact ⟨⟨made, hf, hnone, .refl made⟩, rfl⟩

theorem anchored_of_isDirectory (h : s.Opens directory base made) (hd : s.isDirectory directory = .ok true) :
    s.Anchored directory base ∧ made = s :=
  have ⟨_, hf⟩ := isDirectory_eq_ok_true hd
  h.anchored_of_find hf

/-- What can be followed below the directory shows that the directory is there. -/
theorem anchored_of_locate (h : s.Opens directory base made) (hp : parts path = parts directory ++ rest)
    (h0 : rest ≠ []) (hw : s.locate follow path = .ok p) : s.Anchored directory base ∧ made = s := by
  obtain ⟨hz, hsize, -⟩ := locate_eq_ok.1 (find_eq_ok.1 h.anchored.find_directory).1
  obtain ⟨b, hb, hdir⟩ := exists_walk_front (locate_eq_ok.1 hw).2.2 hp h0
    (fun q hq => by rw [List.prefix_nil.1 hq, entry?_nil]) directory
  exact h.anchored_of_find (find_eq_ok.2 ⟨locate_eq_ok.2 ⟨hz, hsize, hb⟩, hdir⟩)

/-- **Making a directory along names** puts directories where one is missing, and changes nothing else. -/
theorem paves (h : s.Opens directory base made) (hn : ∀ n ∈ names, IsProper n) (hl : made.Straight base names)
    (hm : s.makePath (parts directory ++ names).reverse = (t, none)) : made.Paves t base names := by
  induction names using List.reverseRecOn generalizing t with
  | nil =>
    rw [List.append_nil] at hm
    have ht : t = made := by
      rcases h with ⟨h, rfl⟩ | ⟨hmade, -⟩
      · have hsize := size_of_makeDirectories (congrArg Prod.snd hm : (made.makeDirectories directory).2 = none)
        exact (Prod.mk.inj (hm.symm.trans (makeDirectories_base h hsize))).1
      · exact (Prod.mk.inj (hm.symm.trans hmade)).1
    subst ht
    exact .of_leads (fun pre hp h0 => absurd (List.prefix_nil.1 hp) h0) h.anchored.entry?_base nofun
  | append_singleton names last ih =>
    have hparts : parts (pathOf (parts directory ++ (names ++ [last]))) = parts directory ++ (names ++ [last]) :=
      parts_pathOf (List.forall_mem_append.2 ⟨fun n hm => isComponent_of_mem_parts hm, fun n hm => (hn n hm).1⟩)
    have hdots : ∀ n ∈ names ++ [last], n ≠ ".." := fun n hm => (hn n hm).2
    have hreverse : (parts directory ++ (names ++ [last])).reverse = last :: (parts directory ++ names).reverse := by
      simp
    rw [hreverse, makePath, ← hreverse, List.reverse_reverse] at hm
    split at hm
    · next he =>
      obtain rfl := (Prod.mk.inj hm).1
      obtain ⟨hs, rfl⟩ : s.Anchored directory base ∧ made = s := by
        rcases ensureDirectory_cases he with ⟨p, hloc, -⟩ | ⟨-, p, hf⟩
        · exact h.anchored_of_locate hparts (by simp) hloc
        · exact h.anchored_of_locate hparts (by simp) (find_eq_ok.1 hf).1
      exact hs.paves hparts hdots hl he
    · split at hm
      · cases hm
      · next s' hm' =>
        have hs' := ih (fun n hm => hn n (List.mem_append_left _ hm)) (hl.of_prefix (List.prefix_append _ _)) hm'
        have hanchored := h.anchored.keeps hs'.keeps
        split at hm
        · next he =>
          obtain rfl := (Prod.mk.inj hm).1
          exact hs'.trans (hanchored.paves hparts hdots (hs'.straight hl) he) (List.prefix_append _ _)
        · cases hm
    · cases hm

/-- **A file that is written along names** is put at its place, on a way that is there then. -/
theorem exists_paves (h : s.Opens directory base made) (hn : ∀ n ∈ names ++ [last], IsProper n)
    (hl : made.Straight base (names ++ [last]))
    (hw : s.writeDeep (spell directory (names ++ [last])) content = (t, none)) :
    ∃ u, made.Paves u base names ∧ u.Anchored directory base ∧
      t = u.set (base ++ (names ++ [last])) (.file content) := by
  have hcomponents : ∀ n ∈ names ++ [last], IsComponent n := fun n hm => (hn n hm).1
  have hdirectory : parts (Path.directory (spell directory (names ++ [last]))) = parts directory ++ names :=
    parts_directory_spell (fun n hm => hcomponents n (List.mem_append_left _ hm)) (hcomponents last (by simp))
  obtain ⟨u, p, hm, hloc, -, rfl⟩ := writeDeep_eq_none hw
  rw [makeDirectories, hdirectory] at hm
  have hu := h.paves (fun n hm => hn n (List.mem_append_left _ hm)) (hl.of_prefix (List.prefix_append _ _)) hm
  have hanchored := h.anchored.keeps hu.keeps
  obtain ⟨rfl, -⟩ := hanchored.located (parts_spell directory hcomponents) (fun n hm => (hn n hm).2)
    (Straight.of_prefix (hu.straight hl) (List.prefix_append _ _))
    (fun _ => hu.straight hl _ (List.prefix_refl _)) hloc
  exact ⟨u, hu, hanchored, rfl⟩

end Opens

end SpecTree.Store
