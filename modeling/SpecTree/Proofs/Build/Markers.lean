import SpecTree.Proofs.Build.Discovery
import SpecTree.Proofs.Plan.Single

/-!
# Leaf markers over whole histories

A context on a node's shelf marks a leaf. After a session that has gone through, whatever sessions
came before it, the marks are those of its results (`discover_after_sessions`).

1. A result is a leaf if and only if its node has a context (`isSome_context_iff`).
2. Below each node there is a leaf, whose context could be written; so that of the node is short
   enough to be asked about (`size_context_lt`).
-/

namespace SpecTree.Build

open Plan SpecTree.Path Store TreeState

variable {s : Store} {directory : String} {base : Place} {shelf : Shelf} {p : TreePolicy}
  {mayReply : Request → Except Failure Expansion → Prop} {isRoot : Visit → Prop}
  {made : Visit → Papers → Prop} {t : TreeState} {u v : Visit} {r : NodeResult}
  {names : List String} {q : Papers}

/-- A node has a context if and only if it is a leaf. -/
theorem isSome_context_iff (hb : Backs mayReply made shelf v r names q)
    (he : ∀ e ∈ r.errors, ¬ IsWriteFailure e) : q.context.isSome = true ↔ r.isLeaf = true := by
  constructor
  · intro hc
    obtain ⟨c, hc⟩ := Option.isSome_iff_exists.1 hc
    rcases hb.agrees with ⟨rec, hrec, hl, -⟩ | ⟨-, hl, -⟩
    · rw [hl]
      exact hb.isSane.context rec c hrec hc
    · exact hl
  · intro hl
    refine Option.isSome_iff_ne_none.2 fun hc => ?_
    obtain ⟨e, hm, hf⟩ := hb.told hl hc
    exact he e hm hf

/-- A node's context has a shorter path than that of a node below it. -/
theorem size_context_le (directory : String) {n : String} (hn : ∀ m ∈ names ++ [n], IsNodeName m) :
    (Artifact.context.path directory names).utf8ByteSize
      ≤ (Artifact.context.path directory (names ++ [n])).utf8ByteSize := by
  have hn' : ∀ m ∈ names, IsNodeName m := fun m hm => hn m (List.mem_append_left _ hm)
  have hsize (ns : List String) : (Artifact.context.fileName ns).utf8ByteSize = 26 := by
    rcases Artifact.context.fileName_cases ns with h | h <;> rw [h] <;> decide
  obtain ⟨k, hk, hsmall⟩ := size_spell_concat directory names
  obtain ⟨j, hj, hlarge⟩ := size_spell_concat directory (names ++ [n])
  rw [artifactPath_eq_spell _ _ hn, artifactPath_eq_spell _ _ hn', hsmall, hlarge, hsize, hsize]
  rw [hsmall n] at hj
  omega

/-- Below a node that is no leaf there is another one, when a session has gone through. -/
theorem exists_below (hk : Kept p mayReply isRoot made base u t.census shelf)
    (hs : t.census.Sound p) (h : IsWhole t) (hu : u.ancestry = [rootName]) (hr : r ∈ t.results)
    (hb : Backs mayReply made shelf v r names q) (hl : r.isLeaf = false) :
    ∃ n q', shelf (names ++ [n]) = some q' := by
  have hf := hs.named.results r hr
  obtain ⟨rec, hrec, hrl, hrc⟩ : ∃ rec, q.record = some rec ∧ r.isLeaf = rec.isLeaf
      ∧ r.children = rec.children := by
    rcases hb.agrees with hrec | ⟨-, hl', -⟩
    · exact hrec
    · rw [hl] at hl'
      cases hl'
  have hempty := hb.isSane.isLeaf rec hrec
  have hne : visitsBelow r ≠ [] := by
    intro h0
    have hlen := congrArg List.length (ancestries_visitsBelow hf.ancestry hl)
    rw [h0, List.map_nil, List.length_nil, List.length_map, length_distinctNames,
      List.length_map, hrc] at hlen
    rw [List.eq_nil_of_length_eq_zero hlen.symm, ← hrl, hl] at hempty
    cases hempty
  obtain ⟨w, hw⟩ := List.exists_mem_of_ne_nil _ hne
  obtain ⟨-, n, -, ha⟩ := exists_name_of_mem_visitsBelow hf.ancestry hw
  obtain ⟨r', hr', ha'⟩ := h.exists_result hs hu (.inr ⟨r, hr, hw⟩)
  obtain ⟨v', ns, q', -, hb'⟩ := hk.results r' hr'
  have hns : rootName :: ns = rootName :: (names ++ [n]) := by
    rw [← hb'.result, ha', ha, hb.result, List.cons_append]
  obtain rfl := (List.cons.inj hns).2
  exact ⟨n, q', hb'.papers⟩

/-- **The context of every node can be asked about** when a session has gone through. -/
theorem size_context_lt (hk : Kept p mayReply isRoot made base u t.census shelf)
    (hs : t.census.Sound p) (h : IsWhole t) (hroot : ∀ v, isRoot v → v.ancestry = [rootName])
    (hu : isRoot u) (he : ∀ r ∈ t.results, ∀ e ∈ r.errors, ¬ IsWriteFailure e)
    (hq : shelf names = some q) :
    (Artifact.context.path p.directory names).utf8ByteSize < pathLimit := by
  -- Induction on how many names are still to come: a node has fewer than its path has bytes.
  have hlength {ns : List String} {q : Papers} (hq : shelf ns = some q) : ns.length < pathLimit := by
    refine Nat.lt_of_le_of_lt (length_le_size_spell p.directory fun n hn => ?_)
      (Shelved.size_spell_lt (hk.shelved.fits hq) (hk.shelved.named hq))
    exact isComponent_of_isNodeName (hk.shelved.named hq n hn)
  induction hm : pathLimit - names.length using Nat.strong_induction_on generalizing names q with
  | _ m ih =>
    obtain ⟨r, hr, v, -, hb⟩ := hk.exists_result hs h hroot hu hq
    cases hl : r.isLeaf with
    | true =>
      obtain ⟨c, hc⟩ := Option.isSome_iff_exists.1 ((isSome_context_iff hb (he r hr)).2 hl)
      exact hk.shelved.short (a := .context) hq (by rw [Papers.text?, hc]; rfl)
    | false =>
      obtain ⟨n, q', hq'⟩ := exists_below hk hs h (hroot u hu) hr hb hl
      have hlong := hlength hq'
      rw [List.length_append, List.length_singleton] at hlong
      refine Nat.lt_of_le_of_lt (size_context_le _ (hk.shelved.named hq')) (ih _ ?_ hq' rfl)
      rw [List.length_append, List.length_singleton, ← hm]
      omega

end SpecTree.Build
