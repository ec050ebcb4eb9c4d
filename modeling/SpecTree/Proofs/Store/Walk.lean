import Mathlib.Data.List.Nodup
import SpecTree.Store.Basic

/-!
# Entries of a store and walks through it

What `set` and `prune` do to the entry at a place, what a directory lists, and where a path below a directory
leads, once it is known where the directory is.

1. `entry?_set` and `entry?_prune` say at which places an entry changes.
2. `inside` is what lies below a place. Where each place there has one entry, a directory lists
   exactly the names that have one (`mem_childrenOf`), each once (`nodup_childrenOf`).
3. A walk that reaches a directory reaches it in every store with at least the same entries, and
   goes on from there (`walk_append`).
4. From there, a walk follows the names of directories one by one (`walk_directories`), to a last
   name that may be free (`walk_last`), or fails at the first that is missing (`walk_missing`).
5. A file that is put where a walk ends does not change where it ends (`walk_set`).
6. Paths without the zero character fail for no other reasons than those of a file system
   (`isSystem_of_walk`).
7. What an operation that ends well has done to the store, operation by operation: it has set one place
   or pruned one, if any (`write_eq_ok`, `ensureDirectory_cases`, `removeTree_eq_ok`). Making a path is a
   row of such steps (`makePath_induct`), and a deep write at most one more (`writeDeep_cases`).
-/

namespace SpecTree.Store

variable {s t : Store} {p q base : Place} {e : Entry}

/-! ## One place -/

@[simp] theorem entry?_nil (s : Store) : s.entry? [] = some .directory := rfl

theorem entry?_of_ne_nil (s : Store) (h : p ≠ []) : s.entry? p = s.entries.lookup p := by
  rw [ entry?, if_neg (by simpa using h)]

theorem entry?_concat (s : Store) (p : Place) (name : String) :
    s.entry? (p ++ [name]) = s.entries.lookup (p ++ [name]) :=
  entry?_of_ne_nil s (by simp)

theorem lookup_cons_of_ne {entries : List (Place × Entry)} (h : q ≠ p) (e : Entry) :
    ((p, e) :: entries).lookup q = entries.lookup q := by
  rw [List.lookup_cons, beq_eq_false_iff_ne.2 h]

theorem lookup_eq_none_of_not_any {entries : List (Place × Entry)}
    (h : entries.any (·.1 == p) = false) : entries.lookup p = none := by
  induction entries with
  | nil => rfl
  | cons x rest ih =>
    obtain ⟨r, e⟩ := x
    rw [List.any_cons, Bool.or_eq_false_iff] at h
    rw [lookup_cons_of_ne fun he => beq_eq_false_iff_ne.1 h.1 he.symm]
    exact ih h.2

theorem lookup_replace (entries : List (Place × Entry)) (p q : Place) (e : Entry) :
    (entries.map fun (r, old) => if r = p then (r, e) else (r, old)).lookup q
      = if q = p then (entries.lookup q).map fun _ => e else entries.lookup q := by
  induction entries with
  | nil => simp
  | cons x rest ih =>
    obtain ⟨r, old⟩ := x
    by_cases hr : q = r
    · subst hr
      by_cases hq : q = p <;> simp [hq]
    · rw [lookup_cons_of_ne hr, ← ih, List.map_cons]
      dsimp only
      split <;> exact lookup_cons_of_ne hr _

theorem lookup_append (a b : List (Place × Entry)) (q : Place) :
    (a ++ b).lookup q = (a.lookup q).or (b.lookup q) := by
  induction a with
  | nil => simp
  | cons x a ih =>
    obtain ⟨r, e⟩ := x
    rw [List.cons_append, List.lookup_cons, List.lookup_cons, ih]
    cases q == r <;> rfl

theorem lookup_isSome_of_any {entries : List (Place × Entry)}
    (h : entries.any (·.1 == p) = true) : (entries.lookup p).isSome = true := by
  induction entries with
  | nil => simp at h
  | cons x rest ih =>
    obtain ⟨r, e⟩ := x
    rw [List.lookup_cons]
    cases hr : p == r with
    | true => rfl
    | false =>
      refine ih ?_
      rw [List.any_cons, Bool.or_eq_true] at h
      exact h.resolve_left fun hx => beq_eq_false_iff_ne.1 hr (eq_of_beq hx).symm

/-- **Setting one place changes no other.** -/
theorem entry?_set (s : Store) (hp : p ≠ []) (e : Entry) (q : Place) :
    Store.entry? (s.set p e) q = if q = p then some e else s.entry? q := by
  by_cases hq : q = []
  · rw [hq, if_neg (Ne.symm hp), entry?_nil, entry?_nil]
  · rw [entry?_of_ne_nil _ hq, entry?_of_ne_nil _ hq]
    cases ha : s.entries.any (·.1 == p) with
    | true =>
      rw [set, if_pos ha, lookup_replace]
      split
      · next hqp =>
        obtain ⟨old, ho⟩ := Option.isSome_iff_exists.1 (lookup_isSome_of_any ha)
        rw [hqp, ho]
        rfl
      · rfl
    | false =>
      rw [set, if_neg (by simp [ha]), lookup_append]
      by_cases hqp : q = p
      · rw [if_pos hqp, hqp, lookup_eq_none_of_not_any ha]
        simp
      · rw [if_neg hqp, lookup_cons_of_ne hqp]
        simp

theorem lookup_filter (entries : List (Place × Entry)) (keep : Place → Bool) (q : Place) :
    (entries.filter fun (r, _) => keep r).lookup q
      = if keep q then entries.lookup q else none := by
  induction entries with
  | nil => simp
  | cons x rest ih =>
    obtain ⟨r, e⟩ := x
    by_cases hr : q = r
    · subst hr
      cases hk : keep q with
      | true => simp [hk]
      | false =>
        rw [List.filter_cons_of_neg (by simp [hk]), ih, hk]
        rfl
    · rw [lookup_cons_of_ne hr, ← ih]
      cases hk : keep r with
      | true => rw [List.filter_cons_of_pos (by simp [hk]), lookup_cons_of_ne hr]
      | false => rw [List.filter_cons_of_neg (by simp [hk])]

theorem entry?_prune_of_ne_nil (s : Store) (p : Place) (hq : q ≠ []) :
    Store.entry? (s.prune p) q = if p <+: q then none else s.entry? q := by
  rw [entry?_of_ne_nil _ hq, entry?_of_ne_nil _ hq, prune,
    lookup_filter s.entries (fun r => !p.isPrefixOf r)]
  by_cases h : p <+: q
  · rw [if_pos h, List.isPrefixOf_iff_prefix.2 h]
    rfl
  · rw [if_neg h, Bool.eq_false_iff.2 fun hb => h (List.isPrefixOf_iff_prefix.1 hb)]
    rfl

/-- **Pruning removes what lies at a place and below it, and nothing else.** -/
theorem entry?_prune (s : Store) (hp : p ≠ []) (q : Place) :
    Store.entry? (s.prune p) q = if p <+: q then none else s.entry? q := by
  by_cases hq : q = []
  · rw [hq, if_neg (fun h => hp (List.prefix_nil.1 h)), entry?_nil, entry?_nil]
  · exact entry?_prune_of_ne_nil s p hq

theorem mem_of_lookup {entries : List (Place × Entry)} (h : entries.lookup p = some e) :
    (p, e) ∈ entries := by
  induction entries with
  | nil => simp at h
  | cons x rest ih =>
    obtain ⟨r, old⟩ := x
    rw [List.lookup_cons] at h
    cases hr : p == r with
    | true =>
      rw [hr] at h
      rw [eq_of_beq hr, Option.some.inj h]
      exact List.mem_cons_self
    | false =>
      rw [hr] at h
      exact List.mem_cons_of_mem _ (ih h)

/-! ## Below a place -/

/-- What lies below a place. -/
def inside (s : Store) (base : Place) : List (Place × Entry) :=
  s.entries.filter fun (p, _) => p != base && base.isPrefixOf p

/-- Each place below `base` has one entry at most. -/
def DistinctBelow (s : Store) (base : Place) : Prop := ((s.inside base).map Prod.fst).Nodup

theorem mem_inside : (p, e) ∈ s.inside base ↔ (p, e) ∈ s.entries ∧ p ≠ base ∧ base <+: p := by
  rw [inside, List.mem_filter, Bool.and_eq_true, bne_iff_ne, List.isPrefixOf_iff_prefix]

theorem prefix_ne_append (base : Place) {rel : Place} (h : rel ≠ []) :
    base ++ rel ≠ base ∧ base <+: base ++ rel :=
  ⟨fun he => h (List.append_right_eq_self.1 he), List.prefix_append _ _⟩

/-- Where something is below a place, look-up finds something that is, too. -/
theorem exists_entry?_of_mem_inside (h : (p, e) ∈ s.inside base) :
    ∃ rel old, rel ≠ [] ∧ p = base ++ rel ∧ s.entry? p = some old ∧ (p, old) ∈ s.inside base := by
  obtain ⟨hm, hne, rel, rfl⟩ := mem_inside.1 h
  have hr : rel ≠ [] := fun h0 => hne (by rw [h0, List.append_nil])
  have ha : s.entries.any (·.1 == base ++ rel) = true := List.any_eq_true.2 ⟨_, hm, BEq.rfl⟩
  obtain ⟨old, ho⟩ := Option.isSome_iff_exists.1 (lookup_isSome_of_any ha)
  refine ⟨rel, old, hr, rfl, ?_, mem_inside.2 ⟨mem_of_lookup ho, prefix_ne_append base hr⟩⟩
  rw [entry?_of_ne_nil s (by simp [hr]), ho]

/-- Nothing is below a place at which look-up finds nothing. -/
theorem inside_eq_nil (h : ∀ rel, rel ≠ [] → s.entry? (base ++ rel) = none) :
    s.inside base = [] := by
  refine List.eq_nil_iff_forall_not_mem.2 fun ⟨p, e⟩ hm => ?_
  obtain ⟨rel, old, hr, rfl, ho, -⟩ := exists_entry?_of_mem_inside hm
  rw [h rel hr] at ho
  cases ho

theorem entry?_of_mem (hd : s.DistinctBelow base) (h : (p, e) ∈ s.inside base) :
    s.entry? p = some e := by
  obtain ⟨rel, old, -, -, ho, hold⟩ := exists_entry?_of_mem_inside h
  have heq := List.inj_on_of_nodup_map hd h hold rfl
  rw [ho, (Prod.mk.inj heq).2]

theorem map_fst_replace (entries : List (Place × Entry)) (p : Place) (e : Entry) :
    (entries.map fun (r, old) => if r = p then (r, e) else (r, old)).map Prod.fst
      = entries.map Prod.fst := by
  rw [List.map_map]
  refine List.map_congr_left fun x _ => ?_
  obtain ⟨r, old⟩ := x
  dsimp only [Function.comp]
  split <;> rfl

theorem map_fst_inside (s : Store) (base : Place) :
    (s.inside base).map Prod.fst
      = (s.entries.map Prod.fst).filter fun p => p != base && base.isPrefixOf p := by
  rw [List.filter_map]
  rfl

theorem distinctBelow_set (h : s.DistinctBelow base) (p : Place) (e : Entry) :
    (s.set p e).DistinctBelow base := by
  unfold DistinctBelow at h ⊢
  rw [map_fst_inside] at h ⊢
  cases ha : s.entries.any (·.1 == p) with
  | true => rwa [set, if_pos ha, map_fst_replace]
  | false =>
    rw [set, if_neg (by simp [ha]), List.map_append, List.filter_append]
    refine List.nodup_append.2 ⟨h, List.Nodup.filter _ (by simp), ?_⟩
    intro a hm b hb hab
    obtain rfl : b = p := by simpa using (List.mem_filter.1 hb).1
    obtain ⟨x, hx, rfl⟩ := List.mem_map.1 (List.mem_filter.1 hm).1
    have hany : s.entries.any (·.1 == b) = true :=
      List.any_eq_true.2 ⟨x, hx, beq_iff_eq.2 hab⟩
    rw [ha] at hany
    exact Bool.noConfusion hany

theorem distinctBelow_prune (h : s.DistinctBelow base) (p : Place) :
    (s.prune p).DistinctBelow base := by
  unfold DistinctBelow at h ⊢
  refine h.sublist (List.Sublist.map _ ?_)
  exact List.Sublist.filter _ List.filter_sublist

/-! ## Listing a directory -/

/-- The name that an entry has in a directory, with the entry. -/
def nameIn (p : Place) : Place × Entry → Option (String × Entry)
  | (q, e) =>
    match q.getLast? with
    | some name => if q.dropLast = p then some (name, e) else none
    | none => none

theorem nameIn_eq_some {x : Place × Entry} {name : String} :
    nameIn p x = some (name, e) ↔ x = (p ++ [name], e) := by
  obtain ⟨q, old⟩ := x
  constructor
  · intro h
    unfold nameIn at h
    dsimp only at h
    split at h
    · next last hl =>
      split at h
      · next hd =>
        obtain ⟨rfl, rfl⟩ := Prod.mk.inj (Option.some.inj h)
        rw [← hd, ← List.dropLast_append_getLast? _ hl]
        simp
      · cases h
    · cases h
  · rintro h
    obtain ⟨rfl, rfl⟩ := Prod.mk.inj h
    simp [nameIn]

theorem childrenOf_perm (s : Store) (p : Place) :
    (s.childrenOf p).Perm (s.entries.filterMap (nameIn p)) :=
  List.mergeSort_perm _ _

theorem mem_childrenOf (rel : Place) {name : String} (hd : s.DistinctBelow base) :
    (name, e) ∈ s.childrenOf (base ++ rel) ↔ s.entry? (base ++ rel ++ [name]) = some e := by
  rw [(childrenOf_perm s _).mem_iff, List.mem_filterMap]
  constructor
  · rintro ⟨x, hx, hn⟩
    rw [nameIn_eq_some] at hn
    subst hn
    refine entry?_of_mem hd (mem_inside.2 ⟨hx, ?_⟩)
    rw [List.append_assoc]
    exact prefix_ne_append base (by simp)
  · intro h
    rw [entry?_concat] at h
    exact ⟨_, mem_of_lookup h, nameIn_eq_some.2 rfl⟩

theorem nodup_childrenOf (rel : Place) (hd : s.DistinctBelow base) :
    ((s.childrenOf (base ++ rel)).map Prod.fst).Nodup := by
  rw [((childrenOf_perm s _).map Prod.fst).nodup_iff]
  have hin : s.entries.filterMap (nameIn (base ++ rel))
      = (s.inside base).filterMap (nameIn (base ++ rel)) := by
    rw [inside, List.filterMap_filter]
    refine List.filterMap_congr fun x _ => ?_
    by_cases hc : (x.1 != base && base.isPrefixOf x.1) = true
    · exact (if_pos hc).symm
    · refine Eq.trans (Option.eq_none_iff_forall_ne_some.2 fun y hn => hc ?_) (if_neg hc).symm
      have := prefix_ne_append base (List.append_ne_nil_of_right_ne_nil rel (List.cons_ne_nil y.1 []))
      rw [nameIn_eq_some.1 hn, List.append_assoc, Bool.and_eq_true, bne_iff_ne,
        List.isPrefixOf_iff_prefix]
      exact this
  rw [hin, List.Nodup, List.pairwise_map, List.pairwise_filterMap]
  refine (List.pairwise_map.1 hd).imp fun {a b} hab x hx y hy hxy => hab ?_
  rw [nameIn_eq_some.1 hx, nameIn_eq_some.1 hy, hxy]

end SpecTree.Store

namespace SpecTree.Store

variable {s t : Store} {path : String} {links : Nat} {place base q : Place} {names : List String}

/-- Every entry of `s` is an entry of `t`. -/
def Keeps (s t : Store) : Prop := ∀ ⦃p : Place⦄ ⦃e : Entry⦄, s.entry? p = some e → t.entry? p = some e

theorem Keeps.refl (s : Store) : s.Keeps s := fun _ _ h => h

theorem Keeps.trans {u : Store} (h : s.Keeps t) (k : t.Keeps u) : s.Keeps u :=
  fun _ _ he => k (h he)

/-! ## Reaching a directory -/

/-- **A walk that reaches a directory goes on from there**, also when more entries have come. -/
theorem walk_append (hk : s.Keeps t) (hw : walk s path true links place names = .ok base)
    (hb : s.entry? base = some .directory) :
    ∃ left, ∀ (path' : String) (follow : Bool) (rest : List String), rest ≠ [] ∨ follow = true →
      walk t path' follow links place (names ++ rest) = walk t path' follow left base rest := by
  fun_induction walk s path true links place names with
  | case1 links place =>
    obtain rfl : place = base := by simpa using hw
    exact ⟨links, fun _ _ _ _ => rfl⟩
  | case2 => simp at hw
  | case3 links place rest hl ih =>
    obtain ⟨left, h⟩ := ih hw
    refine ⟨left, fun path' follow more hm => ?_⟩
    rw [List.cons_append, walk, if_neg hl, if_pos rfl, h path' follow more hm]
  | case4 links place name rest hl hn he ih =>
    obtain ⟨left, h⟩ := ih hw
    refine ⟨left, fun path' follow more hm => ?_⟩
    rw [List.cons_append, walk, if_neg hl, if_neg hn, hk he]
    exact h path' follow more hm
  | case5 links place name rest hl hn c he hr =>
    rw [← Except.ok.inj hw, he] at hb
    cases hb
  | case6 => simp at hw
  | case7 links place name rest hl hn target he hr => simp at hr
  | case8 => simp at hw
  | case9 place name rest hl hn target he hr links ih =>
    obtain ⟨left, h⟩ := ih hw
    refine ⟨left, fun path' follow more hm => ?_⟩
    have hc : ((rest ++ more).isEmpty && !follow) = false := by
      rcases hm with hm | rfl
      · simp [hm]
      · simp
    rw [List.cons_append, walk, if_neg hl, if_neg hn, hk he]
    simp only [hc, Bool.false_eq_true, if_false]
    rw [← List.append_assoc]
    exact h path' follow more hm
  | case10 links place name rest hl hn he hr =>
    rw [← Except.ok.inj hw, he] at hb
    cases hb
  | case11 => simp at hw

/-- Where a walk reaches a directory, there is an entry also if a link at the end stays. -/
theorem exists_walk_false (hk : s.Keeps t) (hw : walk s path true links place names = .ok base)
    (hb : s.entry? base = some .directory)
    (hp : ∀ q, q <+: place → s.entry? q = some .directory) (path' : String) :
    ∃ p e, walk t path' false links place names = .ok p ∧ t.entry? p = some e := by
  fun_induction walk s path true links place names with
  | case1 links place =>
    refine ⟨place, .directory, ?_, hk (hp place (List.prefix_refl _))⟩
    rw [walk]
  | case2 => simp at hw
  | case3 links place rest hl ih =>
    obtain ⟨p, e, h, hpe⟩ := ih hw fun q hq => hp q (hq.trans (List.dropLast_prefix _))
    exact ⟨p, e, by rw [walk, if_neg hl, if_pos rfl, h], hpe⟩
  | case4 links place name rest hl hn he ih =>
    obtain ⟨p, e, h, hpe⟩ := ih hw fun q hq => by
      rcases List.prefix_concat_iff.1 hq with rfl | hq
      · exact he
      · exact hp q hq
    refine ⟨p, e, ?_, hpe⟩
    rw [walk, if_neg hl, if_neg hn, hk he]
    exact h
  | case5 links place name rest hl hn c he hr =>
    rw [← Except.ok.inj hw, he] at hb
    cases hb
  | case6 => simp at hw
  | case7 links place name rest hl hn target he hr => simp at hr
  | case8 => simp at hw
  | case9 place name rest hl hn target he hr links ih =>
    by_cases h0 : rest = []
    · refine ⟨place ++ [name], .link target, ?_, hk he⟩
      rw [walk, if_neg hl, if_neg hn, hk he, h0]
      rfl
    · obtain ⟨p, e, h, hpe⟩ := ih hw fun q hq => by rw [List.prefix_nil.1 hq, entry?_nil]
      refine ⟨p, e, ?_, hpe⟩
      rw [walk, if_neg hl, if_neg hn, hk he]
      simp only [List.isEmpty_eq_false_iff.2 h0, Bool.false_and, Bool.false_eq_true, if_false]
      exact h
  | case10 links place name rest hl hn he hr =>
    rw [← Except.ok.inj hw, he] at hb
    cases hb
  | case11 => simp at hw

/-! ## From a directory on -/

/-- Names that a walk takes as they are. -/
def IsPlainName (name : String) : Prop := name.utf8ByteSize ≤ nameLimit ∧ name ≠ ".."

/-- The names lead from `base` through directories. -/
def Leads (s : Store) (base : Place) (names : List String) : Prop :=
  ∀ pre, pre <+: names → pre ≠ [] → s.entry? (base ++ pre) = some .directory

theorem Leads.tail {name : String} (h : s.Leads base (name :: names)) :
    s.Leads (base ++ [name]) names := by
  intro pre hp _
  rw [List.append_assoc]
  exact h (name :: pre) (List.cons_prefix_cons.2 ⟨rfl, hp⟩) (by simp)

/-- **A walk follows directories by their names.** -/
theorem walk_directories (hn : ∀ n ∈ names, IsPlainName n) (h : s.Leads base names)
    (follow : Bool) (rest : List String) :
    walk s path follow links base (names ++ rest) = walk s path follow links (base ++ names) rest := by
  induction names generalizing base with
  | nil => rw [List.nil_append, List.append_nil]
  | cons name names ih =>
    have hname := hn name List.mem_cons_self
    have hd := h [name] (List.cons_prefix_cons.2 ⟨rfl, List.nil_prefix⟩) (by simp)
    rw [List.cons_append, walk, if_neg (Nat.not_lt.2 hname.1), if_neg hname.2, hd]
    dsimp only
    rw [ih (fun n hm => hn n (List.mem_cons_of_mem _ hm)) h.tail, List.append_assoc]
    rfl

/-- The last name of a path may be free, unless it is that of a link. -/
theorem walk_last {name : String} (hn : IsPlainName name) (follow : Bool)
    (h : ∀ target, s.entry? (place ++ [name]) ≠ some (.link target)) :
    walk s path follow links place [name] = .ok (place ++ [name]) := by
  rw [walk, if_neg (Nat.not_lt.2 hn.1), if_neg hn.2]
  cases he : s.entry? (place ++ [name]) with
  | none => rfl
  | some e =>
    cases e with
    | file content => rfl
    | directory => simp only [walk]
    | link target => exact absurd he (h target)

/-- No other name of a path may be free. -/
theorem walk_missing {name : String} {rest : List String} (hn : IsPlainName name)
    (hr : rest ≠ []) (follow : Bool) (h : s.entry? (place ++ [name]) = none) :
    walk s path follow links place (name :: rest) = .error (.missing path) := by
  rw [walk, if_neg (Nat.not_lt.2 hn.1), if_neg hn.2, h]
  simp [hr]

theorem walk_too_long {name : String} {rest : List String} (hn : nameLimit < name.utf8ByteSize)
    (follow : Bool) :
    walk s path follow links place (name :: rest) = .error (.nameTooLong path) := by
  rw [walk, if_pos hn]

/-! ## After a file is written -/

/-- **A walk to a place leads there also when a file is put into it.** No directory and no link on
the way is replaced. -/
theorem walk_set {follow : Bool} (hq : q ≠ []) (hd : s.entry? q ≠ some .directory)
    (hl : ∀ target, s.entry? q ≠ some (.link target)) {content : Content}
    (hw : walk s path follow links place names = .ok q) :
    walk (s.set q (.file content)) path follow links place names = .ok q := by
  have hset := entry?_set s hq (.file content)
  fun_induction walk s path follow links place names with
  | case1 links place => rw [walk, hw]
  | case2 => simp at hw
  | case3 links place rest hn ih => rw [walk, if_neg hn, if_pos rfl, ih hw]
  | case4 links place name rest hn hp he ih =>
    have hne : place ++ [name] ≠ q := fun h => hd (h ▸ he)
    rw [walk, if_neg hn, if_neg hp, hset, if_neg hne, he]
    exact ih hw
  | case5 links place name rest hn hp c he hr =>
    obtain rfl := Except.ok.inj hw
    rw [walk, if_neg hn, if_neg hp, hset, if_pos rfl]
    simp [hr]
  | case6 => simp at hw
  | case7 links place name rest hn hp target he hr =>
    obtain rfl := Except.ok.inj hw
    exact absurd he (hl target)
  | case8 => simp at hw
  | case9 place name rest hn hp target he hr links ih =>
    have hne : place ++ [name] ≠ q := fun h => hl target (h ▸ he)
    rw [walk, if_neg hn, if_neg hp, hset, if_neg hne, he]
    simp only [hr, Bool.false_eq_true, if_false]
    exact ih hw
  | case10 links place name rest hn hp he hr =>
    obtain rfl := Except.ok.inj hw
    rw [walk, if_neg hn, if_neg hp, hset, if_pos rfl]
    simp [hr]
  | case11 => simp at hw

/-- Where links are followed, a walk does not end at one. -/
theorem walk_ne_link (hp : ∀ p, p <+: place → ∀ target, s.entry? p ≠ some (.link target))
    (hw : walk s path true links place names = .ok q) (target : List String) :
    s.entry? q ≠ some (.link target) := by
  fun_induction walk s path true links place names with
  | case1 links place =>
    obtain rfl := Except.ok.inj hw
    exact hp _ (List.prefix_refl _) target
  | case2 => simp at hw
  | case3 links place rest hn ih => exact ih (fun p h => hp p (h.trans (List.dropLast_prefix _))) hw
  | case4 links place name rest hn hne he ih =>
    refine ih (fun p h => ?_) hw
    rcases List.prefix_concat_iff.1 h with rfl | h
    · rw [he]
      exact nofun
    · exact hp p h
  | case5 links place name rest hn hne c he hr =>
    obtain rfl := Except.ok.inj hw
    rw [he]
    exact nofun
  | case6 => simp at hw
  | case7 links place name rest hn hne target he hr => simp at hr
  | case8 => simp at hw
  | case9 place name rest hn hne target he hr links ih =>
    refine ih (fun p h => ?_) hw
    rw [List.prefix_nil.1 h, entry?_nil]
    exact nofun
  | case10 links place name rest hn hne he hr =>
    obtain rfl := Except.ok.inj hw
    rw [he]
    exact nofun
  | case11 => simp at hw

/-! ## Reasons to fail -/

theorem isSystem_of_walk {follow : Bool} {e : FileError}
    (h : walk s path follow links place names = .error e) : e.isSystem = true := by
  fun_induction walk s path follow links place names <;> simp_all [FileError.isSystem]
  all_goals subst h; rfl

theorem isSystem_of_locate {follow : Bool} {e : FileError} (h0 : path.contains '\x00' = false)
    (h : s.locate follow path = .error e) : e.isSystem = true := by
  unfold locate at h
  rw [h0, if_neg (by decide)] at h
  split at h
  · rw [← Except.error.inj h]
    rfl
  · exact isSystem_of_walk h

/-! ## What an operation has done -/

/-- What ends well has ended well from the beginning. -/
theorem bind_eq_ok {α β ε : Type} {x : Except ε α} {f : α → Except ε β} {b : β}
    (h : x >>= f = .ok b) : ∃ a, x = .ok a ∧ f a = .ok b := by
  cases x with
  | error e => cases h
  | ok a => exact ⟨a, rfl, h⟩

/-- What fails has failed at the beginning or after it. -/
theorem bind_eq_error {α β ε : Type} {x : Except ε α} {f : α → Except ε β} {e : ε}
    (h : x >>= f = .error e) : x = .error e ∨ ∃ a, x = .ok a ∧ f a = .error e := by
  cases x with
  | error e' => exact .inl (congrArg _ (Except.error.inj h))
  | ok a => exact .inr ⟨a, rfl, h⟩

/-- Only what an action ends with matters for what comes after it. -/
theorem bind_congr_ok {α β ε : Type} {x : Except ε α} {f g : α → Except ε β}
    (h : ∀ a, x = .ok a → f a = g a) : x >>= f = x >>= g := by
  cases x with
  | error e => rfl
  | ok a => exact h a rfl

theorem find_eq_ok {follow : Bool} {p : Place} {e : Entry} :
    s.find follow path = .ok (p, e) ↔ s.locate follow path = .ok p ∧ s.entry? p = some e := by
  unfold find
  cases hl : s.locate follow path with
  | error e => simp [bind, Except.bind]
  | ok q =>
    simp only [bind, Except.bind]
    cases he : s.entry? q with
    | none =>
      simp only [throw, throwThe, MonadExceptOf.throw, reduceCtorEq, false_iff, not_and]
      intro h
      rw [← Except.ok.inj h, he]
      exact nofun
    | some e' =>
      simp only [pure, Except.pure, Except.ok.injEq, Prod.mk.injEq]
      constructor
      · rintro ⟨rfl, rfl⟩
        exact ⟨rfl, he⟩
      · rintro ⟨rfl, h⟩
        exact ⟨rfl, Option.some.inj (he.symm.trans h)⟩

theorem locate_eq_ok {follow : Bool} {p : Place} :
    s.locate follow path = .ok p ↔ path.contains '\x00' = false ∧ path.utf8ByteSize < pathLimit ∧
      walk s path follow linkLimit [] (Path.parts path) = .ok p := by
  unfold locate
  cases h0 : path.contains '\x00' with
  | true => simp
  | false =>
    by_cases hs : path.utf8ByteSize ≥ pathLimit
    · simp [hs, Nat.not_lt.2 hs]
    · simp [hs, Nat.lt_of_not_ge hs]

theorem isDirectory_eq_ok_true (h : s.isDirectory path = .ok true) :
    ∃ p, s.find true path = .ok (p, .directory) := by
  unfold isDirectory ask at h
  split at h
  · next p e hf =>
    cases e with
    | directory => exact ⟨p, hf⟩
    | file content => cases h
    | link target => cases h
  · split at h <;> cases h

theorem makeDirectory_eq_ok (h : s.makeDirectory path = .ok t) :
    ∃ p, s.locate false path = .ok p ∧ s.entry? p = none ∧ t = s.set p .directory := by
  obtain ⟨p, hp, h⟩ := bind_eq_ok h
  split at h
  · cases h
  · next he => exact ⟨p, hp, he, (Except.ok.inj h).symm⟩

/-- A directory that is ensured has been made, or nothing has been done. -/
theorem ensureDirectory_cases (h : s.ensureDirectory path = .ok t) :
    (∃ p, s.locate false path = .ok p ∧ s.entry? p = none ∧ t = s.set p .directory) ∨
      t = s ∧ ∃ p, s.find true path = .ok (p, .directory) := by
  unfold ensureDirectory at h
  split at h
  · next hm =>
    obtain rfl := Except.ok.inj h
    exact .inl (makeDirectory_eq_ok hm)
  · obtain ⟨b, hb, h⟩ := bind_eq_ok h
    split at h
    · next hd => exact .inr ⟨(Except.ok.inj h).symm, isDirectory_eq_ok_true (hd ▸ hb)⟩
    · cases h

/-- **What making one directory does to a store, making a whole path does**, however far it comes. -/
theorem makePath_induct {R : Store → Store → Prop} (refl : ∀ s, R s s)
    (trans : ∀ {s t u}, R s t → R t u → R s u)
    (one : ∀ {s path p}, s.locate false path = .ok p → s.entry? p = none → R s (s.set p .directory))
    (s : Store) (place : Place) : R s (s.makePath place).1 := by
  have ensured {s t : Store} {path : String} (h : s.ensureDirectory path = .ok t) : R s t := by
    rcases ensureDirectory_cases h with ⟨p, hp, hfree, rfl⟩ | ⟨rfl, -⟩
    · exact one hp hfree
    · exact refl t
  induction place generalizing s with
  | nil => exact refl s
  | cons name above ih =>
    rw [makePath]
    split
    · next he => exact ensured he
    · have habove := ih s
      split
      · next hm => rwa [hm] at habove
      · next hm =>
        rw [hm] at habove
        split
        · next he => exact trans habove (ensured he)
        · exact habove
    · exact refl s

theorem write_eq_ok {content : Content} (h : s.write path content = .ok t) :
    ∃ p, s.locate true path = .ok p ∧ s.entry? p ≠ some .directory ∧ t = s.set p (.file content) := by
  obtain ⟨p, hp, h⟩ := bind_eq_ok h
  split at h
  · cases h
  · next hd => exact ⟨p, hp, hd, (Except.ok.inj h).symm⟩

/-- A deep write makes directories, and then sets its file unless it fails. -/
theorem writeDeep_cases (s : Store) (path : String) (content : Content) :
    (∃ e, s.writeDeep path content = ((s.makeDirectories (Path.directory path)).1, some e)) ∨
      ∃ made p, s.makeDirectories (Path.directory path) = (made, none) ∧ made.locate true path = .ok p ∧
        made.entry? p ≠ some .directory ∧ s.writeDeep path content = (made.set p (.file content), none) := by
  unfold writeDeep
  split
  · next made e hm => exact .inl ⟨e, by rw [hm]⟩
  · next made hm =>
    split
    · next hw =>
      obtain ⟨p, hp, hd, rfl⟩ := write_eq_ok hw
      exact .inr ⟨made, p, hm, hp, hd, rfl⟩
    · next e hw => exact .inl ⟨e, by rw [hm]⟩

theorem writeDeep_eq_none {content : Content} (h : s.writeDeep path content = (t, none)) :
    ∃ made p, s.makeDirectories (Path.directory path) = (made, none) ∧ made.locate true path = .ok p ∧
      made.entry? p ≠ some .directory ∧ t = made.set p (.file content) := by
  rcases writeDeep_cases s path content with ⟨e, he⟩ | ⟨made, p, hm, hl, hd, hset⟩
  · cases (Prod.mk.inj (he.symm.trans h)).2
  · exact ⟨made, p, hm, hl, hd, (Prod.mk.inj (h.symm.trans hset)).1⟩

/-- A deep write that fails has made directories at most. -/
theorem writeDeep_eq_some {content : Content} {e : FileError}
    (h : s.writeDeep path content = (t, some e)) : t = (s.makeDirectories (Path.directory path)).1 := by
  rcases writeDeep_cases s path content with ⟨e', he⟩ | ⟨made, p, -, -, -, hset⟩
  · exact (Prod.mk.inj (h.symm.trans he)).1
  · cases (Prod.mk.inj (hset.symm.trans h)).2

theorem removeTree_eq_ok (h : s.removeTree path = .ok t) :
    ∃ p, s.find false path = .ok (p, .directory) ∧ t = s.prune p := by
  obtain ⟨⟨p, e⟩, hf, h⟩ := bind_eq_ok h
  cases e with
  | directory => exact ⟨p, hf, (Except.ok.inj h).symm⟩
  | file content => cases h
  | link target => cases h

theorem removeFile_eq_ok (h : s.removeFile path = .ok t) :
    ∃ p e, s.find false path = .ok (p, e) ∧ e ≠ .directory ∧ t = s.prune p := by
  obtain ⟨⟨p, e⟩, hf, h⟩ := bind_eq_ok h
  cases e with
  | directory => cases h
  | file content => exact ⟨p, _, hf, nofun, (Except.ok.inj h).symm⟩
  | link target => exact ⟨p, _, hf, nofun, (Except.ok.inj h).symm⟩

end SpecTree.Store
