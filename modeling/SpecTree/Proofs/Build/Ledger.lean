import Mathlib.Data.List.Nodup
import SpecTree.Build.Execution
import SpecTree.Proofs.Build.Outputs
import SpecTree.Proofs.Store.Write

/-!
# The ledger of a build

The files that a build's results list are its deliveries. `Ledger` ties them to the files below the output
root and to the claims, and `ledger_deliver` keeps it: whatever a provider answers, what is written for a
leaf is what its result lists.

No path in an answer may hold the zero character. The system refuses such a path in its own way, and the
leaf then ends with files written that no result lists.
-/

namespace SpecTree

/-! ## Claims -/

namespace Claims

variable {c c' : Claims} {node path first : String} {paths : List String}

theorem claimant?_of_register (h : c.register path node = .ok c') (other : String) :
    c.claimant? path = none ∧
      c'.claimant? other = if other = path then some node else c.claimant? other := by
  unfold register at h
  split at h
  · cases h
  · next hfree =>
    cases h
    exact ⟨hfree, Table.get?_put ..⟩

/-- Whoever holds a path keeps it. -/
theorem claimant?_registerAll (h : c.claimant? path = some first) :
    (c.registerAll node paths).1.claimant? path = some first := by
  induction paths generalizing c with
  | nil => exact h
  | cons p paths ih =>
    rw [registerAll]
    cases hr : c.register p node with
    | error overlap => exact h
    | ok c' =>
      obtain ⟨hfree, hput⟩ := claimant?_of_register hr path
      refine ih ?_
      rw [hput, if_neg]
      · exact h
      · rintro rfl
        rw [hfree] at h
        cases h

/-- **All paths were free and differ**, and now the leaf holds them. -/
theorem registerAll_eq_none (h : c.registerAll node paths = (c', none)) :
    paths.Nodup ∧ ∀ p ∈ paths, c.claimant? p = none ∧ c'.claimant? p = some node := by
  induction paths generalizing c with
  | nil => exact ⟨List.nodup_nil, fun p hp => absurd hp List.not_mem_nil⟩
  | cons path paths ih =>
    rw [registerAll] at h
    cases hr : c.register path node with
    | error overlap =>
      rw [hr] at h
      cases h
    | ok mid =>
      rw [hr] at h
      obtain ⟨hnd, hall⟩ := ih h
      have hput (p : String) := (claimant?_of_register hr p).2
      have hmid : mid.claimant? path = some node := by rw [hput, if_pos rfl]
      have hnew : path ∉ paths := by
        intro hm
        rw [(hall path hm).1] at hmid
        cases hmid
      refine ⟨List.nodup_cons.2 ⟨hnew, hnd⟩, fun p hp => ?_⟩
      rcases List.mem_cons.1 hp with rfl | hp
      · have hkept : (mid.registerAll node paths).1.claimant? p = some node :=
          claimant?_registerAll hmid
        rw [show mid.registerAll node paths = (c', none) from h] at hkept
        exact ⟨(claimant?_of_register hr p).1, hkept⟩
      · obtain ⟨hfree, hheld⟩ := hall p hp
        have hne : p ≠ path := fun he => hnew (he ▸ hp)
        rw [hput, if_neg hne] at hfree
        exact ⟨hfree, hheld⟩

end Claims

namespace Build

open SpecTree.Path Store OutputPath

/-! ## Deliveries -/

/-- A file and the node whose result lists it. -/
structure Delivery where
  node : String
  file : GeneratedFile

def LeafResult.deliveries (r : LeafResult) : List Delivery := r.files.map (Delivery.mk r.nodePath)

/-- The files below the output root are the deliveries. No two deliveries have one path, every path lies
inside the root, and it was claimed for its node. -/
structure Ledger (output : String) (s : Store) (c : Claims) (ds : List Delivery) : Prop where
  plain : s.Plain
  disk (rel : Place) (content : Content) : rel ≠ [] →
    (s.entry? (placeOf output ++ rel) = some (.file content) ↔
      ∃ d ∈ ds, rel = parts d.file.path ∧ content = .text d.file.content)
  nodup : (ds.map fun d => d.file.path).Nodup
  inside : ∀ d ∈ ds, IsInside d.file.path
  claimed : ∀ d ∈ ds, c.claimant? d.file.path = some d.node

namespace Ledger

variable {output : String} {s t : Store} {c c' : Claims} {ds es : List Delivery}

theorem perm (h : Ledger output s c ds) (hp : ds.Perm es) : Ledger output s c es where
  plain := h.plain
  disk rel content hr := by simp only [h.disk rel content hr, hp.mem_iff]
  nodup := (hp.map _).nodup_iff.1 h.nodup
  inside d hd := h.inside d (hp.mem_iff.2 hd)
  claimed d hd := h.claimed d (hp.mem_iff.2 hd)

theorem registerAll (h : Ledger output s c ds) (node : String) (paths : List String) :
    Ledger output s (c.registerAll node paths).1 ds :=
  { h with claimed := fun d hd => Claims.claimant?_registerAll (h.claimed d hd) }

theorem sameFiles (h : Ledger output s c ds) (hs : SameFiles s t) : Ledger output t c ds :=
  { h with plain := hs.plain, disk := fun rel content hr => (hs.file _ _).trans (h.disk rel content hr) }

/-- Files that are not below the root do not count. -/
theorem elsewhere {place : Place} {content : Content} (h : Ledger output s c ds)
    (hw : Wrote s place content t) (hout : ∀ rel, rel ≠ [] → place ≠ placeOf output ++ rel) :
    Ledger output t c ds where
  __ := h
  plain := hw.plain
  disk rel content hr := by
    rw [hw.file, if_neg (hout rel hr).symm]
    exact h.disk rel content hr

/-- **One more file is delivered.** -/
theorem deliver {d : Delivery} (h : Ledger output s c ds)
    (hw : Wrote s (placeOf output ++ parts d.file.path) (.text d.file.content) t)
    (hin : IsInside d.file.path) (hc : c.claimant? d.file.path = some d.node)
    (hnew : d.file.path ∉ ds.map fun d => d.file.path) : Ledger output t c (ds ++ [d]) where
  plain := hw.plain
  disk rel content hr := by
    simp only [hw.file, List.append_cancel_left_eq, List.mem_append, List.mem_singleton, or_and_right,
      exists_or, exists_eq_left]
    split
    · next hrel =>
      -- no other delivery has these names, since names determine an accepted path
      have hold : ¬ ∃ d ∈ ds, rel = parts d.file.path ∧ content = .text d.file.content := by
        rintro ⟨e, he, hpe, -⟩
        have := (h.inside e he).parts_injective hin (hpe.symm.trans hrel)
        exact hnew (this ▸ List.mem_map_of_mem (f := fun d => d.file.path) he)
      simp only [hold, false_or]
      exact ⟨fun hcontent => ⟨hrel, hcontent⟩, And.right⟩
    · next hrel =>
      rw [h.disk rel content hr]
      simp [hrel]
  nodup := by
    rw [List.map_append, List.map_singleton, ← List.concat_eq_append]
    exact h.nodup.concat hnew
  inside e he := (List.mem_append.1 he).elim (h.inside e) fun he => List.mem_singleton.1 he ▸ hin
  claimed e he := (List.mem_append.1 he).elim (h.claimed e) fun he => List.mem_singleton.1 he ▸ hc

end Ledger

/-! ## One leaf -/

variable {b : Site} {output node : String} {s : Store} {c : Claims} {ds : List Delivery}

@[simp] theorem Site.path_finalFile (b : Site) (node : String) (f : GeneratedFile) :
    (b.finalFile node f).path = f.path := by
  unfold finalFile
  split <;> rfl

/-- A file that can be written below an output root. -/
structure IsWritable (f : GeneratedFile) : Prop where
  inside : IsInside f.path
  noZero : f.path.contains '\x00' = false

/-- What is accepted is an answered file under its path in normal form. -/
theorem exists_of_mem_accept {files : List GeneratedFile} {g : GeneratedFile}
    (h : g ∈ (accept files).1) : ∃ f ∈ files, OutputPath.normalize f.path = .ok g.path := by
  induction files with
  | nil => exact absurd h List.not_mem_nil
  | cons f files ih =>
    rw [accept] at h
    generalize accept files = rest at h ih
    have hrest (hg : g ∈ rest.1) : ∃ f' ∈ f :: files, OutputPath.normalize f'.path = .ok g.path := by
      obtain ⟨f', hf, hp⟩ := ih hg
      exact ⟨f', List.mem_cons_of_mem f hf, hp⟩
    dsimp only at h
    split at h
    · next path hp =>
      rcases List.mem_cons.1 h with rfl | hg
      · exact ⟨f, List.mem_cons_self, hp⟩
      · exact hrest hg
    · exact hrest h

theorem isWritable_of_accept {files : List GeneratedFile}
    (h : ∀ f ∈ files, f.path.contains '\x00' = false) : ∀ f ∈ (accept files).1, IsWritable f := by
  intro g hg
  obtain ⟨f, hf, hp⟩ := exists_of_mem_accept hg
  refine ⟨isInside_of_normalize hp, ?_⟩
  have h0 := h f hf
  rw [noZero_iff] at h0 ⊢
  intro hz
  rcases mem_of_normalize hp hz with hz | hz | hz
  · exact h0 hz
  · exact absurd hz (by decide)
  · exact absurd hz (by decide)

-- without this, unfolding runs into the text of the path
attribute [local irreducible] Store.writeDeep in
theorem writeFiles_cons (output : String) (p : Progress) (f : GeneratedFile)
    (rest : List GeneratedFile) :
    writeFiles output p (f :: rest) =
      match p.store.writeDeep (assemble [output, f.path]) (.text f.content) with
      | (store, none) => writeFiles output { p with store, files := p.files ++ [f] } rest
      | (store, some e) =>
        if e.isSystem then
          writeFiles output { p with
            store, errors := p.errors ++ ["Failed to write " ++ f.path ++ ": " ++ e.message] } rest
        else ({ p with store }, some e) := rfl

/-- **What is written is noted**, one file after another; the system's refusals end nothing. -/
theorem ledger_writeFiles {p : Progress} {files : List GeneratedFile}
    (h0 : output.contains '\x00' = false)
    (h : Ledger output p.store c (ds ++ p.files.map (Delivery.mk node)))
    (hw : ∀ f ∈ files, IsWritable f) (hc : ∀ f ∈ files, c.claimant? f.path = some node)
    (hnd : (files.map GeneratedFile.path).Nodup)
    (hnew : ∀ f ∈ files, f.path ∉ (ds ++ p.files.map (Delivery.mk node)).map fun d => d.file.path) :
    ∃ q, writeFiles output p files = (q, none) ∧
      Ledger output q.store c (ds ++ q.files.map (Delivery.mk node)) := by
  induction files generalizing p with
  | nil => exact ⟨p, rfl, h⟩
  | cons f files ih =>
    obtain ⟨hwf, hw⟩ := List.forall_mem_cons.1 hw
    obtain ⟨hcf, hc⟩ := List.forall_mem_cons.1 hc
    obtain ⟨hnewf, hnew⟩ := List.forall_mem_cons.1 hnew
    obtain ⟨hf, hnd⟩ := List.nodup_cons.1 hnd
    rw [writeFiles_cons]
    split
    · next t ht =>
      have hwrote := wrote_writeDeep h.plain ht
      rw [placeOf_assemble hwf.inside] at hwrote
      have hledger := h.deliver (d := ⟨node, f⟩) hwrote hwf.inside hcf hnewf
      have hfile : ds ++ (p.files ++ [f]).map (Delivery.mk node)
          = ds ++ p.files.map (Delivery.mk node) ++ [⟨node, f⟩] := by simp
      refine ih (hfile ▸ hledger) hw hc hnd fun g hg hm => ?_
      dsimp only at hm
      rw [hfile, List.map_append, List.mem_append] at hm
      rcases hm with hm | hm
      · exact hnew g hg hm
      · have hpath : g.path = f.path := List.mem_singleton.1 hm
        exact hf (hpath ▸ List.mem_map_of_mem hg)
    · next t e ht =>
      have hsystem := isSystem_of_writeDeep (noZero_assemble hwf.inside h0 hwf.noZero)
        (congrArg Prod.snd ht)
      rw [if_pos hsystem]
      exact ih (h.sameFiles (sameFiles_writeDeep h.plain ht)) hw hc hnd hnew

/-- The questions of a node can be written, and not below the output root. -/
structure AsksOutside (b : Site) (node : String) : Prop where
  noZero : (Plan.questionsPath b.plan node).contains '\x00' = false
  outside (rel : Place) : rel ≠ [] → placeOf (Plan.questionsPath b.plan node) ≠ placeOf b.output ++ rel

theorem ledger_writeQuestions (answer : Production) {p : Progress} (hq : AsksOutside b node)
    (h : Ledger b.output p.store c ds) :
    ∃ q, writeQuestions b.plan node answer p = (q, none) ∧ q.files = p.files ∧
      Ledger b.output q.store c ds := by
  unfold writeQuestions Plan.writeQuestions
  split
  · exact ⟨p, rfl, rfl, h⟩
  · dsimp only
    split
    · next t ht =>
      exact ⟨_, rfl, rfl, h.elsewhere (wrote_writeDeep h.plain ht) hq.outside⟩
    · next t e ht =>
      rw [if_pos (isSystem_of_writeDeep hq.noZero (congrArg Prod.snd ht))]
      exact ⟨_, rfl, rfl, h.sameFiles (sameFiles_writeDeep h.plain ht)⟩

/-- **The files that are written for a leaf are those that its result lists.** -/
theorem ledger_deliver {t : Store} {c' : Claims} {answer : Production} {ending : LeafEnding}
    (h0 : b.output.contains '\x00' = false) (hq : AsksOutside b node)
    (ha : ∀ f ∈ answer.files, f.path.contains '\x00' = false) (h : Ledger b.output s c ds)
    (hd : deliver b s c node answer = (t, c', ending)) :
    Ledger b.output t c' (ds ++ (ending.result node).deliveries) := by
  have hwritable := isWritable_of_accept ha
  unfold deliver at hd
  generalize accept answer.files = accepted at hd hwritable
  obtain ⟨files, refused⟩ := accepted
  dsimp only at hd hwritable
  have hclaims := h.registerAll node (files.map GeneratedFile.path)
  split at hd
  · next hr =>
    cases hd
    rw [hr] at hclaims
    exact (List.append_nil ds).symm ▸ hclaims
  next mid hr =>
  rw [hr] at hclaims
  obtain ⟨hnd, hheld⟩ := Claims.registerAll_eq_none hr
  have hnew : ∀ f ∈ files, f.path ∉ ds.map fun d => d.file.path := by
    intro f hf hm
    obtain ⟨d, hd, he⟩ := List.mem_map.1 hm
    have := h.claimed d hd
    rw [he, (hheld _ (List.mem_map_of_mem hf)).1] at this
    cases this
  have hpaths : (files.map (b.finalFile node)).map GeneratedFile.path
      = files.map GeneratedFile.path := by simp [Function.comp_def]
  have hfinal : ∀ f ∈ files.map (b.finalFile node), IsWritable f ∧ mid.claimant? f.path = some node ∧
      f.path ∉ ds.map fun d => d.file.path := by
    refine List.forall_mem_map.2 fun f hf => ?_
    obtain ⟨hinside, hzero⟩ := hwritable f hf
    rw [Site.path_finalFile]
    exact ⟨⟨by rwa [Site.path_finalFile], by rwa [Site.path_finalFile]⟩,
      (hheld _ (List.mem_map_of_mem hf)).2, hnew f hf⟩
  have hnone : Ledger b.output ({ store := s, errors := refused } : Progress).store mid
      (ds ++ [].map (Delivery.mk node)) := (List.append_nil ds).symm ▸ hclaims
  obtain ⟨p, hp, hledger⟩ := ledger_writeFiles h0 hnone (fun f hf => (hfinal f hf).1)
    (fun f hf => (hfinal f hf).2.1) (hpaths ▸ hnd)
    (fun f hf => by simpa using (hfinal f hf).2.2)
  obtain ⟨q, hwrite, hfiles, hledger⟩ := ledger_writeQuestions answer hq hledger
  rw [hp] at hd
  dsimp only at hd
  rw [hwrite] at hd
  cases hd
  rw [← hfiles] at hledger
  exact hledger

end Build

end SpecTree
