import SpecTree.Proofs.Plan.Lineage

/-!
# What visits come to

Let a provider answer a request always alike, or always fail alike. Then a visit comes to something
that the artifacts which it finds of its node settle: it is given up, its record is used again, or it
is compiled (`Terms.fate`). Which visits there are, and what they find, is settled by the root and by
the shelf at the start (`Terms.Due`): below a node that is compiled nothing is left to find, below
another all is as it was.

Nothing here depends on an order.
-/

namespace SpecTree.Plan

open TreeState

/-- The names from the root down to a node. -/
def Visit.names (v : Visit) : List String := v.ancestry.tail

/-- What a compilation goes by, but for ceilings, slots and time stamps. -/
structure Terms where
  directory : String
  /-- Its time stamp has no part. -/
  node : NodePolicy
  answer : Request → Except Failure Expansion

/-- What becomes of a visit. -/
inductive Fate where
  | lost (e : FileError)
  | reused (r : NodeResult)
  | compiled (d : Difference) (o : Outcome)

namespace Terms

variable (k : Terms)

/-- A policy keeps to the terms. -/
structure Governs (p : TreePolicy) : Prop where
  directory : p.directory = k.directory
  node : p.node = { k.node with stamp := p.node.stamp }

/-- A call ends with the provider's answer. -/
def Replies (r : Request) (reply : Except Failure Expansion) : Prop := reply = k.answer r

/-- What becomes of a visit that finds such artifacts of its node. -/
def fate (v : Visit) (found : Option Papers) : Fate :=
  match comparison k.node.digest k.directory v.names v found with
  | .error e => .lost e
  | .ok d =>
    match judge k.node v d with
    | .reuse r => .reused (v.reuse r d.reason)
    | .keepLeaf => .compiled d .plain
    | .ask => .compiled d (.ofReply (k.answer v.request))

/-- The result of a visit, unless it is given up. -/
def result? (v : Visit) (found : Option Papers) : Option NodeResult :=
  match k.fate v found with
  | .lost _ => none
  | .reused r => some r
  | .compiled d o =>
    some (Draft.result
      { visit := v
        difference := d
        errors := o.errors v.path ++ Draft.complaints k.directory v.names o } o)

/-- What a visit leaves of its node. -/
def papers? (stamp : String) (v : Visit) (found : Option Papers) : Option Papers :=
  match k.fate v found with
  | .lost _ | .reused _ => found
  | .compiled d o =>
    some (Draft.papers { visit := v, difference := d } k.directory v.names stamp o)

/-- The visits of a compilation of `u` that starts on a shelf, each with the artifacts that it finds
of its node. -/
inductive Due (old : Shelf) (u : Visit) : Visit → Option Papers → Prop
  | root : Due old u u (old u.names)
  | child {v w : Visit} {found : Option Papers} {r : NodeResult} :
    Due old u v found → k.result? v found = some r → w ∈ visitsBelow r →
    Due old u w (if r.cacheHit then old w.names else none)

variable {k} {p : TreePolicy} {v w : Visit} {found : Option Papers} {r : NodeResult} {old : Shelf}
  {u : Visit}

/-! ## Policies -/

theorem Governs.digest (h : k.Governs p) : p.node.digest = k.node.digest := by rw [h.node]

theorem Governs.judge (h : k.Governs p) (v : Visit) (d : Difference) :
    judge p.node v d = judge k.node v d := by
  rw [h.node]
  rfl

/-! ## Fates -/

theorem fate_of_error {e : FileError}
    (h : comparison k.node.digest k.directory v.names v found = .error e) :
    k.fate v found = .lost e := by
  rw [fate, h]

theorem fate_of_reuse {d : Difference} {rec : Record}
    (h : comparison k.node.digest k.directory v.names v found = .ok d)
    (hj : judge k.node v d = .reuse rec) : k.fate v found = .reused (v.reuse rec d.reason) := by
  simp only [fate, h, hj]

theorem fate_of_keepLeaf {d : Difference}
    (h : comparison k.node.digest k.directory v.names v found = .ok d)
    (hj : judge k.node v d = .keepLeaf) : k.fate v found = .compiled d .plain := by
  simp only [fate, h, hj]

theorem fate_of_ask {d : Difference}
    (h : comparison k.node.digest k.directory v.names v found = .ok d)
    (hj : judge k.node v d = .ask) :
    k.fate v found = .compiled d (.ofReply (k.answer v.request)) := by
  simp only [fate, h, hj]

/-- A record that is used again was found. -/
theorem exists_of_fate_reused (h : k.fate v found = .reused r) :
    ∃ q rec reason, found = some q ∧ r = v.reuse rec reason := by
  unfold fate at h
  split at h
  · cases h
  · next d hd =>
    split at h
    · next rec hj =>
      obtain ⟨hu, hr⟩ := judge_eq_reuse hj
      obtain ⟨q, hq, -⟩ := found_of_comparison hd hu hr
      exact ⟨q, rec, d.reason, hq, (Fate.reused.inj h).symm⟩
    · cases h
    · cases h

/-! ## Results -/

theorem result?_of_reused (h : k.fate v found = .reused r) : k.result? v found = some r := by
  simp only [result?, h]

theorem result?_of_compiled {d : Difference} {o : Outcome} (h : k.fate v found = .compiled d o) :
    k.result? v found = some (Draft.result
      { visit := v
        difference := d
        errors := o.errors v.path ++ Draft.complaints k.directory v.names o } o) := by
  simp only [result?, h]

theorem result?_of_lost {e : FileError} (h : k.fate v found = .lost e) : k.result? v found = none := by
  simp only [result?, h]

/-- A visit with a result is not given up. -/
theorem fate_of_result? (h : k.result? v found = some r) :
    (k.fate v found = .reused r ∧ r.cacheHit = true)
      ∨ ∃ d o, k.fate v found = .compiled d o ∧ r.cacheHit = false := by
  unfold result? at h
  split at h
  · cases h
  · next r' hf =>
    obtain rfl := Option.some.inj h
    obtain ⟨q, rec, reason, -, rfl⟩ := exists_of_fate_reused hf
    exact .inl ⟨hf, rfl⟩
  · next d o hf =>
    obtain rfl := Option.some.inj h
    exact .inr ⟨d, o, hf, rfl⟩

theorem ancestry_of_result? (h : k.result? v found = some r) : r.ancestry = v.ancestry := by
  unfold result? at h
  split at h
  · cases h
  · next r' hf =>
    obtain rfl := Option.some.inj h
    obtain ⟨q, rec, reason, -, rfl⟩ := exists_of_fate_reused hf
    rfl
  · obtain rfl := Option.some.inj h
    rfl

/-- A visit with a result leaves artifacts. -/
theorem isSome_papers? (stamp : String) (h : k.result? v found = some r) :
    ∃ q, k.papers? stamp v found = some q := by
  rcases fate_of_result? h with ⟨hf, -⟩ | ⟨d, o, hf, -⟩
  · obtain ⟨q, -, -, rfl, -⟩ := exists_of_fate_reused hf
    exact ⟨q, by simp only [papers?, hf]⟩
  · exact ⟨_, by simp only [papers?, hf]; rfl⟩

theorem papers?_of_reused (stamp : String) (h : k.fate v found = .reused r) :
    k.papers? stamp v found = found := by
  simp only [papers?, h]

theorem papers?_of_compiled (stamp : String) {d : Difference} {o : Outcome}
    (h : k.fate v found = .compiled d o) :
    k.papers? stamp v found
      = some (Draft.papers { visit := v, difference := d } k.directory v.names stamp o) := by
  simp only [papers?, h]

/-! ## Visits -/

theorem Due.isAncestry (h : k.Due old u v found) (hu : IsAncestry u.ancestry) :
    IsAncestry v.ancestry := by
  induction h with
  | root => exact hu
  | child _ hr hw ih => exact isAncestry_of_mem_visitsBelow (ancestry_of_result? hr ▸ ih) hw

/-- A child's ancestry is its parent's and one more name. -/
theorem exists_name_of_child (hv : IsAncestry v.ancestry) (hr : k.result? v found = some r)
    (hw : w ∈ visitsBelow r) : ∃ n, w.ancestry = v.ancestry ++ [n] := by
  have ha := ancestry_of_result? hr
  obtain ⟨-, n, -, he⟩ := exists_name_of_mem_visitsBelow (ha ▸ hv) hw
  exact ⟨n, ha ▸ he⟩

/-- **A node is visited once**, and what the visit finds is settled. -/
theorem Due.unique (hu : u.ancestry = [rootName]) {found' : Option Papers} {v' : Visit}
    (h : k.Due old u v found) (h' : k.Due old u v' found') (he : v.ancestry = v'.ancestry) :
    v = v' ∧ found = found' := by
  have hroot : IsAncestry u.ancestry := hu ▸ isAncestry_root
  -- The root is no one's child.
  have hnot {v w : Visit} {found : Option Papers} {r : NodeResult} (hv : k.Due old u v found)
      (hr : k.result? v found = some r) (hw : w ∈ visitsBelow r) : u.ancestry ≠ w.ancestry := by
    intro he
    obtain ⟨n, hn⟩ := exists_name_of_child (hv.isAncestry hroot) hr hw
    obtain ⟨names, hv', -⟩ := hv.isAncestry hroot
    rw [hn, hu, hv'] at he
    simp at he
  induction h generalizing v' found' with
  | root =>
    cases h' with
    | root => exact ⟨rfl, rfl⟩
    | child hv' hr' hw' => exact absurd he (hnot hv' hr' hw')
  | child hv hr hw ih =>
    cases h' with
    | root => exact absurd he.symm (hnot hv hr hw)
    | child hv' hr' hw' =>
      obtain ⟨n, hn⟩ := exists_name_of_child (hv.isAncestry hroot) hr hw
      obtain ⟨n', hn'⟩ := exists_name_of_child (hv'.isAncestry hroot) hr' hw'
      rw [hn, hn'] at he
      obtain ⟨rfl, rfl⟩ := ih hv' (List.append_inj' he rfl).1
      obtain rfl := Option.some.inj (hr.symm.trans hr')
      obtain rfl := eq_of_mem_visitsBelow (ancestry_of_result? hr ▸ hv.isAncestry hroot) hw hw'
        (by rw [hn, hn', he])
      exact ⟨rfl, rfl⟩

end Terms

end SpecTree.Plan
